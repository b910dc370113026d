import RowTree.Proofs.Schema.Height

/-!
This module follows the passes. `Loop` holds the states in which a pass may begin, for any
declarations whatever. For declarations that pass the checks, the registry after some passes holds
exactly the objects of at most that height, and the others are pending (`Loop.progress`).
-/

namespace RowTree

/-! ## Registering many types -/

namespace Registry

variable {registry : Registry}

theorem isSome_kind?_iff {typeName : String} {isCollection : Bool} :
    (registry.kind? typeName isCollection).isSome = true ↔ registry.isDefined typeName = true := by
  unfold kind? isDefined
  rw [Option.isSome_map]

theorem isDefined_empty_iff {name : String} :
    empty.isDefined name = true ↔ Primitive.isName name = true := by
  rw [isDefined_iff, mem_names_iff]
  simp [empty]

theorem register_eq_ok {name : String} {type : RecordType} (h : name ∉ registry.names) :
    ∃ larger, registry.register name type = .ok larger := by
  unfold register
  rw [if_neg (mt isDefined_iff.1 h)]
  exact ⟨_, rfl⟩

theorem registerAll_eq_ok {types : List RecordType} (hnodup : (types.map (·.name)).Nodup)
    (hfree : (types.map (·.name)).Disjoint registry.names) :
    ∃ larger, registry.registerAll types = .ok larger ∧
      larger.names = registry.names ++ types.map (·.name) := by
  induction types generalizing registry with
  | nil => exact ⟨registry, rfl, by simp⟩
  | cons type rest ih =>
    rw [List.map_cons, List.nodup_cons] at hnodup
    rw [List.map_cons, List.disjoint_cons_left] at hfree
    obtain ⟨next, hnext⟩ := @register_eq_ok registry type.name type hfree.1
    have hnames := names_of_register hnext
    have hrest : (rest.map (·.name)).Disjoint next.names := by
      rw [hnames, List.disjoint_append_right, List.disjoint_singleton]
      exact ⟨hfree.2, hnodup.1⟩
    obtain ⟨larger, hlarger, hall⟩ := ih hnodup.2 hrest
    refine ⟨larger, ?_, ?_⟩
    · unfold registerAll
      rw [hnext]
      exact hlarger
    · rw [hall, hnames]
      simp

end Registry

namespace Schema

variable {schema : Schema} {registry : Registry} {object : ObjectDecl}

/-! ## One pass -/

def knows (schema : Schema) (registry : Registry) (object : ObjectDecl) (member : String) : Bool :=
  (schema.memberType? object member).any registry.isDefined

def waitsFor? (schema : Schema) (registry : Registry) (object : ObjectDecl) : Option String :=
  object.members.find? fun member => !schema.knows registry object member

theorem isSome_kind?_eq_knows {member : String} :
    ((schema.objectField? (object.fullName member)).bind fun field =>
      registry.kind? field.typeName field.isCollection).isSome =
        schema.knows registry object member := by
  unfold knows memberType?
  cases schema.objectField? (object.fullName member) with
  | none => rfl
  | some field =>
    rw [Bool.eq_iff_iff]
    simp only [Option.bind_some, Option.map_some, Option.any_some]
    apply Registry.isSome_kind?_iff

theorem memberFields_eq_error_iff {members : List String} {culprit : String} :
    schema.memberFields registry object members = .error culprit ↔
      (members.find? fun member => !schema.knows registry object member).map
        (schema.memberName object) = some culprit := by
  induction members with
  | nil => simp [memberFields]
  | cons member rest ih =>
    unfold memberFields
    dsimp only
    split
    · next hnone =>
      have hknows : schema.knows registry object member = false := by
        rw [← isSome_kind?_eq_knows, hnone]
        rfl
      rw [List.find?_cons_of_pos (by simp [hknows])]
      simp
    · next kind hkind =>
      have hknows : schema.knows registry object member = true := by
        rw [← isSome_kind?_eq_knows, hkind]
        rfl
      rw [List.find?_cons_of_neg (by simp [hknows]), ← ih]
      cases schema.memberFields registry object rest <;> simp [Except.map]

theorem memberFields_of_waitsFor?_eq_some {member : String}
    (h : schema.waitsFor? registry object = some member) :
    schema.memberFields registry object object.members =
      .error (schema.memberName object member) := by
  unfold waitsFor? at h
  rw [memberFields_eq_error_iff, h]
  rfl

theorem memberFields_of_waitsFor?_eq_none (h : schema.waitsFor? registry object = none) :
    ∃ fields, schema.memberFields registry object object.members = .ok fields := by
  unfold waitsFor? at h
  cases hfields : schema.memberFields registry object object.members with
  | ok fields => exact ⟨fields, rfl⟩
  | error culprit =>
    rw [memberFields_eq_error_iff, h] at hfields
    cases hfields

theorem names_ready_pass (pending : List ObjectDecl) :
    (schema.pass registry pending).ready.map (·.name) =
      (pending.filter fun object => (schema.waitsFor? registry object).isNone).map (·.name) := by
  induction pending with
  | nil => rfl
  | cons object rest ih =>
    unfold pass
    cases hwaits : schema.waitsFor? registry object with
    | none =>
      obtain ⟨fields, hfields⟩ := memberFields_of_waitsFor?_eq_none hwaits
      rw [hfields, List.filter_cons_of_pos (by rw [hwaits]; rfl), List.map_cons, List.map_cons, ih]
    | some member =>
      rw [memberFields_of_waitsFor?_eq_some hwaits,
        List.filter_cons_of_neg (by simp [hwaits]), ← ih]

theorem ready_pass (pending : List ObjectDecl) :
    (schema.pass registry pending).ready = pending.filterMap fun object =>
      (schema.memberFields registry object object.members).toOption.map
        (RecordType.mk object.name) := by
  induction pending with
  | nil => rfl
  | cons object rest ih =>
    unfold pass
    cases hfields : schema.memberFields registry object object.members with
    | ok fields => rw [List.filterMap_cons_some (by rw [hfields]; rfl), ← ih]
    | error culprit => rw [List.filterMap_cons_none (by rw [hfields]; rfl), ← ih]

theorem blocked_pass (pending : List ObjectDecl) :
    (schema.pass registry pending).blocked =
      pending.filterMap fun object => (schema.waitsFor? registry object).map fun member =>
        (object, schema.memberName object member) := by
  induction pending with
  | nil => rfl
  | cons object rest ih =>
    unfold pass
    cases hwaits : schema.waitsFor? registry object with
    | none =>
      obtain ⟨fields, hfields⟩ := memberFields_of_waitsFor?_eq_none hwaits
      rw [hfields, List.filterMap_cons_none (by rw [hwaits]; rfl), ← ih]
    | some member =>
      rw [memberFields_of_waitsFor?_eq_some hwaits,
        List.filterMap_cons_some (by rw [hwaits]; rfl), ← ih]

theorem blocked_pass_objects (pending : List ObjectDecl) :
    (schema.pass registry pending).blocked.map (·.1) =
      pending.filter fun object => (schema.waitsFor? registry object).isSome := by
  rw [blocked_pass, List.map_filterMap, ← List.filterMap_eq_filter]
  apply List.filterMap_congr
  intro object _
  cases hwaits : schema.waitsFor? registry object <;> simp [Option.guard, hwaits]

theorem length_blocked_lt {pending : List ObjectDecl}
    (hready : (schema.pass registry pending).ready ≠ []) :
    (schema.pass registry pending).blocked.length < pending.length := by
  have hlength := schema.length_pass registry pending
  have hpos := List.length_pos_iff.2 hready
  omega

/-! ## The loop -/

/--
The states in which a pass may begin: how many passes there were, what is registered and what is
pending.
-/
inductive Loop (schema : Schema) : Nat → Registry → List ObjectDecl → Prop
  | start : Loop schema 0 .empty schema.objects
  | next {passes : Nat} {registry larger : Registry} {pending : List ObjectDecl}
      (before : Loop schema passes registry pending)
      (hready : (schema.pass registry pending).ready ≠ [])
      (hregister : registry.registerAll (schema.pass registry pending).ready = .ok larger) :
      Loop schema (passes + 1) larger ((schema.pass registry pending).blocked.map (·.1))

/--
The ways in which the passes end, with the number of all passes.
-/
inductive Ends (schema : Schema) : Nat → Except SchemaError (Registry × Nat) → Prop
  | built {passes : Nat} {registry : Registry} (last : Loop schema passes registry []) :
      Ends schema passes (.ok (registry, passes))
  | stalled {passes : Nat} {registry : Registry} {pending : List ObjectDecl}
      (last : Loop schema passes registry pending) (hpending : pending ≠ [])
      (hready : (schema.pass registry pending).ready = []) :
      Ends schema (passes + 1) (.error (.dependency schema.name
        ((schema.pass registry pending).blocked.map (·.1.name))
        ((schema.pass registry pending).blocked.map (·.2)) (passes + 1)))
  | refused {passes : Nat} {registry : Registry} {pending : List ObjectDecl} {error : SchemaError}
      (last : Loop schema passes registry pending) (hpending : pending ≠ [])
      (hregister : registry.registerAll (schema.pass registry pending).ready = .error error) :
      Ends schema (passes + 1) (.error error)

theorem Loop.exists_ends {passes : Nat} {pending : List ObjectDecl}
    (h : schema.Loop passes registry pending) :
    ∃ total, schema.Ends total (schema.buildObjects registry passes pending) := by
  -- each call of the loop starts in a state of `Loop`, since the one before does
  fun_induction buildObjects schema registry passes pending with
  | case1 registry passes => exact ⟨passes, .built h⟩
  | case2 registry passes pending hpending found hready =>
    exact ⟨passes + 1, .stalled h hpending hready⟩
  | case3 registry passes pending hpending found hready larger hregister ih =>
    exact ih (h.next hready hregister)
  | case4 registry passes pending hpending found hready error hregister =>
    exact ⟨passes + 1, .refused h hpending hregister⟩

theorem Loop.passes_add_length_le {passes : Nat} {pending : List ObjectDecl}
    (h : schema.Loop passes registry pending) :
    passes + pending.length ≤ schema.objects.length := by
  induction h with
  | start => omega
  | @next passes registry _ pending _ hready _ ih =>
    have hless := length_blocked_lt hready
    rw [List.length_map]
    omega

theorem Ends.passes_le {total : Nat} {result : Except SchemaError (Registry × Nat)}
    (h : schema.Ends total result) : total ≤ schema.objects.length := by
  cases h with
  | built last =>
    have := last.passes_add_length_le
    omega
  | stalled last hpending =>
    have := last.passes_add_length_le
    have := List.length_pos_iff.2 hpending
    omega
  | refused last hpending =>
    have := last.passes_add_length_le
    have := List.length_pos_iff.2 hpending
    omega

/-! ## What is registered after some passes -/

/--
The objects of at most this height, by height and then in the order of their declarations.
-/
def settled (schema : Schema) : Nat → List ObjectDecl
  | 0 => []
  | limit + 1 =>
    schema.settled limit ++
      schema.objects.filter fun object =>
        schema.settles (limit + 1) object && !schema.settles limit object

theorem mem_settled_iff {limit : Nat} :
    object ∈ schema.settled limit ↔
      object ∈ schema.objects ∧ schema.settles limit object = true := by
  induction limit with
  | zero => simp [settled, settles]
  | succ limit ih =>
    have hmono := @settles_mono schema object _ _ (Nat.le_add_right limit 1)
    unfold settled
    rw [List.mem_append, ih, List.mem_filter, Bool.and_eq_true, Bool.not_eq_true']
    cases hbefore : schema.settles limit object with
    | true =>
      rw [hmono hbefore]
      simp
    | false => simp

/--
The state of the loop after some passes: the objects up to that height are registered, and the
others are pending in the order of their declarations.
-/
structure Progress (schema : Schema) (passes : Nat) (registry : Registry)
    (pending : List ObjectDecl) : Prop where
  names_eq : registry.names = Registry.empty.names ++ (schema.settled passes).map (·.name)
  pending_eq : pending = schema.objects.filter fun object => !schema.settles passes object

variable {passes : Nat} {pending : List ObjectDecl}

theorem Progress.isDefined_iff (h : schema.Progress passes registry pending) {typeName : String} :
    registry.isDefined typeName = true ↔
      Primitive.isName typeName = true ∨
        ∃ object ∈ schema.objects, schema.settles passes object = true ∧
          object.name = typeName := by
  rw [Registry.isDefined_iff, h.names_eq, List.mem_append, ← Registry.isDefined_iff,
    Registry.isDefined_empty_iff, List.mem_map]
  simp only [mem_settled_iff, and_assoc]

theorem Progress.knows_iff (h : schema.Progress passes registry pending)
    (hdeclared : schema.WellDeclared) (hobject : object ∈ schema.objects) {member : String}
    (hmember : member ∈ object.members) :
    schema.knows registry object member = true ↔
      ∀ part ∈ schema.objects, schema.memberType? object member = some part.name →
        schema.settles passes part = true := by
  obtain ⟨field, hfield, hknown⟩ := hdeclared.exists_field hobject hmember
  have htype : schema.memberType? object member = some field.typeName := by
    unfold memberType?
    rw [hfield]
    rfl
  unfold knows
  rw [htype, Option.any_some, h.isDefined_iff]
  constructor
  · intro hdefined part hpart hname
    rw [Option.some.injEq] at hname
    rcases hdefined with hprimitive | ⟨built, hbuilt, hsettles, hsame⟩
    · rw [hname, hdeclared.objects_not_primitive part hpart] at hprimitive
      cases hprimitive
    · rw [hname] at hsame
      rw [← hdeclared.object_ext hbuilt hpart hsame]
      exact hsettles
  · intro hparts
    rcases isKnown_iff.1 hknown with hprimitive | ⟨part, hpart, hname⟩
    · exact .inl hprimitive
    · exact .inr ⟨part, hpart, hparts part hpart (by rw [hname]), hname⟩

theorem Progress.waitsFor?_eq_none_iff (h : schema.Progress passes registry pending)
    (hdeclared : schema.WellDeclared) (hobject : object ∈ schema.objects) :
    schema.waitsFor? registry object = none ↔ schema.settles (passes + 1) object = true := by
  unfold waitsFor?
  rw [List.find?_eq_none, settles_succ_iff]
  simp only [Bool.not_eq_true, Bool.not_eq_false']
  constructor
  · intro hknows part hpart
    obtain ⟨hmem, member, hmember, htype⟩ := mem_parts_iff.1 hpart
    exact (h.knows_iff hdeclared hobject hmember).1 (hknows member hmember) part hmem htype
  · intro hparts member hmember
    rw [h.knows_iff hdeclared hobject hmember]
    intro part hpart htype
    exact hparts part (mem_parts_iff.2 ⟨hpart, member, hmember, htype⟩)

theorem Progress.isNone_waitsFor? (h : schema.Progress passes registry pending)
    (hdeclared : schema.WellDeclared) (hobject : object ∈ schema.objects) :
    (schema.waitsFor? registry object).isNone = schema.settles (passes + 1) object := by
  rw [Bool.eq_iff_iff, Option.isNone_iff_eq_none]
  exact h.waitsFor?_eq_none_iff hdeclared hobject

theorem Progress.names_ready (h : schema.Progress passes registry pending)
    (hdeclared : schema.WellDeclared) :
    (schema.pass registry pending).ready.map (·.name) =
      (schema.objects.filter fun object =>
        schema.settles (passes + 1) object && !schema.settles passes object).map (·.name) := by
  rw [names_ready_pass, h.pending_eq, List.filter_filter]
  congr 1
  apply List.filter_congr
  intro object hobject
  rw [h.isNone_waitsFor? hdeclared hobject]

theorem Progress.blocked_objects (h : schema.Progress passes registry pending)
    (hdeclared : schema.WellDeclared) :
    (schema.pass registry pending).blocked.map (·.1) =
      schema.objects.filter fun object => !schema.settles (passes + 1) object := by
  rw [blocked_pass_objects, h.pending_eq, List.filter_filter]
  apply List.filter_congr
  intro object hobject
  rw [← Option.not_isNone, h.isNone_waitsFor? hdeclared hobject]
  have hmono := @settles_mono schema object _ _ (Nat.le_add_right passes 1)
  cases hbefore : schema.settles passes object with
  | true =>
    rw [hmono hbefore]
    rfl
  | false => simp

/--
What a pass builds can be registered, and the next pass begins one height further up.
-/
theorem Progress.next (h : schema.Progress passes registry pending)
    (hdeclared : schema.WellDeclared) :
    ∃ larger, registry.registerAll (schema.pass registry pending).ready = .ok larger ∧
      schema.Progress (passes + 1) larger ((schema.pass registry pending).blocked.map (·.1)) := by
  have hready := h.names_ready hdeclared
  have hnodup : ((schema.pass registry pending).ready.map (·.name)).Nodup := by
    rw [hready]
    exact (List.filter_sublist.map _).nodup hdeclared.objects_nodup
  have hfree : ((schema.pass registry pending).ready.map (·.name)).Disjoint registry.names := by
    rw [hready]
    intro name hname htaken
    rw [← Registry.isDefined_iff, h.isDefined_iff] at htaken
    obtain ⟨object, hobject, rfl⟩ := List.mem_map.1 hname
    rw [List.mem_filter, Bool.and_eq_true, Bool.not_eq_true'] at hobject
    obtain ⟨hmem, -, hlater⟩ := hobject
    -- a taken name is that of a primitive or of an object that was built before
    rcases htaken with hprimitive | ⟨built, hbuilt, hsettles, hsame⟩
    · rw [hdeclared.objects_not_primitive object hmem] at hprimitive
      cases hprimitive
    · rw [hdeclared.object_ext hbuilt hmem hsame, hlater] at hsettles
      cases hsettles
  obtain ⟨larger, hlarger, hnames⟩ := Registry.registerAll_eq_ok hnodup hfree
  refine ⟨larger, hlarger, ?_, h.blocked_objects hdeclared⟩
  rw [hnames, h.names_eq, hready, settled, List.map_append, List.append_assoc]

theorem Loop.progress (h : schema.Loop passes registry pending)
    (hdeclared : schema.WellDeclared) : schema.Progress passes registry pending := by
  induction h with
  | start =>
    refine ⟨by simp [settled], ?_⟩
    simp [settles]
  | next _ _ hregister ih =>
    obtain ⟨larger, hlarger, hprogress⟩ := ih.next hdeclared
    rw [hregister, Except.ok.injEq] at hlarger
    rw [hlarger]
    exact hprogress

end Schema

end RowTree
