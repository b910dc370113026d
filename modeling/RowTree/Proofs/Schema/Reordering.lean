import RowTree.Proofs.Schema.Built

/-!
This module contains what the order of declarations means for a build: nothing. Two schemas with
the same objects and object fields go through the same passes, with what each pass builds in another
order (`Reordered.buildObjects_alike`), and end alike (`build_of_reordered`).
-/

namespace RowTree

def SchemaError.IsDependency (error : SchemaError) : Prop :=
  ∃ table unresolved culprits passes, error = .dependency table unresolved culprits passes

theorem SchemaError.not_isDependency_unknownType {name referencedBy : String} :
    ¬(SchemaError.unknownType name referencedBy).IsDependency := by
  rintro ⟨_, _, _, _, h⟩
  cases h

theorem SchemaError.not_isDependency_duplicateType {name : String} :
    ¬(SchemaError.duplicateType name).IsDependency := by
  rintro ⟨_, _, _, _, h⟩
  cases h

/--
Both builds succeed with results in the relation, or both stop after as many passes with the same
objects left, each with the same member to blame, or both are refused.
-/
inductive BuildsAlike {α : Type} (same : α → α → Prop) :
    Except SchemaError α → Except SchemaError α → Prop
  | built {left right : α} (h : same left right) : BuildsAlike same (.ok left) (.ok right)
  | stalled {table : String} {passes : Nat} {pairs others : List (String × String)}
      (hperm : pairs.Perm others) :
      BuildsAlike same (.error (.dependency table (pairs.map (·.1)) (pairs.map (·.2)) passes))
        (.error (.dependency table (others.map (·.1)) (others.map (·.2)) passes))
  | refused {error other : SchemaError} (h : ¬error.IsDependency) (hother : ¬other.IsDependency) :
      BuildsAlike same (.error error) (.error other)

namespace BuildsAlike

variable {α β : Type} {same : α → α → Prop} {rel : β → β → Prop}

theorem bind {left right : Except SchemaError α} {f g : α → Except SchemaError β}
    (h : BuildsAlike same left right) (hnext : ∀ a b, same a b → BuildsAlike rel (f a) (g b)) :
    BuildsAlike rel (left >>= f) (right >>= g) := by
  cases h with
  | built h => exact hnext _ _ h
  | stalled hperm => exact .stalled hperm
  | refused h hother => exact .refused h hother

theorem map {left right : Except SchemaError α} {f g : α → β} (h : BuildsAlike same left right)
    (hnext : ∀ a b, same a b → rel (f a) (g b)) : BuildsAlike rel (left.map f) (right.map g) := by
  cases h with
  | built h => exact .built (hnext _ _ h)
  | stalled hperm => exact .stalled hperm
  | refused h hother => exact .refused h hother

theorem of_ok_iff {left right : Except SchemaError α}
    (hok : (∃ a, left = .ok a) ↔ ∃ b, right = .ok b)
    (hsame : ∀ a b, left = .ok a → right = .ok b → same a b)
    (hleft : ∀ error, left = .error error → ¬error.IsDependency)
    (hright : ∀ error, right = .error error → ¬error.IsDependency) :
    BuildsAlike same left right := by
  cases left with
  | ok a =>
    obtain ⟨b, rfl⟩ := hok.1 ⟨a, rfl⟩
    exact .built (hsame a b rfl rfl)
  | error error =>
    cases right with
    | ok b =>
      obtain ⟨a, ha⟩ := hok.2 ⟨b, rfl⟩
      cases ha
    | error other => exact .refused (hleft error rfl) (hright other rfl)

theorem of_blocked {table : String} {passes : Nat} {blocked others : List (ObjectDecl × String)}
    (hperm : blocked.Perm others) :
    BuildsAlike same
      (.error (.dependency table (blocked.map (·.1.name)) (blocked.map (·.2)) passes))
      (.error (.dependency table (others.map (·.1.name)) (others.map (·.2)) passes)) := by
  have hpairs := hperm.map fun found => (found.1.name, found.2)
  have hstalled := @stalled α same table passes _ _ hpairs
  simp only [List.map_map] at hstalled
  exact hstalled

end BuildsAlike

/-! ## Registries with the same types -/

namespace Registry

/--
The registries hold the same types under the same names, and no name is taken twice.
-/
structure Reordered (registry other : Registry) : Prop where
  perm : registry.records.Perm other.records
  nodup : registry.names.Nodup

variable {registry other : Registry}

namespace Reordered

theorem names_perm (h : registry.Reordered other) : registry.names.Perm other.names :=
  (h.perm.map _).append_left _

theorem find?_eq (h : registry.Reordered other) (name : String) :
    registry.find? name = other.find? name := by
  have hnodup := (List.nodup_append.1 h.nodup).2.1
  have hother := ((h.perm.map _).nodup_iff).1 hnodup
  -- where no name is taken twice, a look-up finds what is there in any order
  have hrecord : registry.record? name = other.record? name := by
    ext type
    rw [record?_eq_some_iff hnodup, record?_eq_some_iff hother, h.perm.mem_iff]
  unfold find?
  rw [hrecord]

theorem isDefined_eq (h : registry.Reordered other) (name : String) :
    registry.isDefined name = other.isDefined name := by
  unfold isDefined
  rw [h.find?_eq]

theorem kind?_eq (h : registry.Reordered other) (typeName : String) (isCollection : Bool) :
    registry.kind? typeName isCollection = other.kind? typeName isCollection := by
  unfold kind?
  rw [h.find?_eq]

theorem resolve_eq (h : registry.Reordered other) (name : String) :
    registry.resolve name = other.resolve name := by
  unfold resolve
  rw [h.find?_eq]

end Reordered

theorem error_of_register {name : String} {type : RecordType} {error : SchemaError}
    (h : registry.register name type = .error error) : error = .duplicateType name := by
  unfold register at h
  split at h
  · cases h
    rfl
  · cases h

theorem error_of_registerAll {types : List RecordType} {error : SchemaError}
    (h : registry.registerAll types = .error error) : ∃ name, error = .duplicateType name := by
  induction types generalizing registry with
  | nil => cases h
  | cons type rest ih =>
    unfold registerAll at h
    cases hnext : registry.register type.name type with
    | error found =>
      rw [hnext] at h
      cases h
      exact ⟨_, error_of_register hnext⟩
    | ok next =>
      rw [hnext] at h
      exact ih h

theorem register_of_reordered (h : registry.Reordered other) (name : String) (type : RecordType) :
    BuildsAlike Reordered (registry.register name type) (other.register name type) := by
  apply BuildsAlike.of_ok_iff
  · unfold register
    rw [h.isDefined_eq]
    cases other.isDefined name <;> simp
  · intro larger larger' hlarger hlarger'
    constructor
    · rw [records_of_register hlarger, records_of_register hlarger']
      exact h.perm.append_right _
    · exact nodup_names_of_register hlarger h.nodup
  · intro error herror
    rw [error_of_register herror]
    exact SchemaError.not_isDependency_duplicateType
  · intro error herror
    rw [error_of_register herror]
    exact SchemaError.not_isDependency_duplicateType

theorem exists_registerAll_iff {types : List RecordType} (h : registry.names.Nodup) :
    (∃ larger, registry.registerAll types = .ok larger) ↔
      (registry.names ++ types.map (·.name)).Nodup := by
  constructor
  · rintro ⟨larger, hlarger⟩
    have hnodup := nodup_names_of_registerAll hlarger h
    unfold names at hnodup ⊢
    rw [records_of_registerAll hlarger] at hnodup
    simpa [Function.comp_def] using hnodup
  · intro hnodup
    rw [List.nodup_append'] at hnodup
    obtain ⟨larger, hlarger, _⟩ := registerAll_eq_ok hnodup.2.1 hnodup.2.2.symm
    exact ⟨larger, hlarger⟩

theorem registerAll_of_perm {types others : List RecordType} (h : registry.Reordered other)
    (hperm : types.Perm others) :
    BuildsAlike Reordered (registry.registerAll types) (other.registerAll others) := by
  apply BuildsAlike.of_ok_iff
  · rw [exists_registerAll_iff h.nodup, exists_registerAll_iff (h.names_perm.nodup_iff.1 h.nodup)]
    exact (h.names_perm.append (hperm.map _)).nodup_iff
  · intro larger larger' hlarger hlarger'
    constructor
    · rw [records_of_registerAll hlarger, records_of_registerAll hlarger']
      exact h.perm.append (hperm.map _)
    · exact nodup_names_of_registerAll hlarger h.nodup
  · intro error herror
    obtain ⟨name, rfl⟩ := error_of_registerAll herror
    exact SchemaError.not_isDependency_duplicateType
  · intro error herror
    obtain ⟨name, rfl⟩ := error_of_registerAll herror
    exact SchemaError.not_isDependency_duplicateType

end Registry

namespace Schema

/--
The schemas declare the same, with objects and object fields in some other order.
-/
structure Reordered (schema other : Schema) : Prop where
  name_eq : schema.name = other.name
  columns_eq : schema.columns = other.columns
  objectFields : schema.objectFields.Perm other.objectFields
  objects : schema.objects.Perm other.objects

variable {schema other : Schema} {registry registry' : Registry}

namespace Reordered

theorem symm (h : schema.Reordered other) : other.Reordered schema :=
  ⟨h.name_eq.symm, h.columns_eq.symm, h.objectFields.symm, h.objects.symm⟩

theorem isKnown_eq (h : schema.Reordered other) (typeName : String) :
    schema.isKnown typeName = other.isKnown typeName := by
  rw [Bool.eq_iff_iff, isKnown_iff, isKnown_iff]
  simp only [h.objects.mem_iff]

theorem wellDeclared (h : schema.Reordered other) (hdeclared : schema.WellDeclared) :
    other.WellDeclared where
  objectFields_nodup := (h.objectFields.map _).nodup_iff.1 hdeclared.objectFields_nodup
  objects_nodup := (h.objects.map _).nodup_iff.1 hdeclared.objects_nodup
  objects_not_primitive := fun object hobject =>
    hdeclared.objects_not_primitive object (h.objects.mem_iff.2 hobject)
  members_nodup := fun object hobject =>
    hdeclared.members_nodup object (h.objects.mem_iff.2 hobject)
  members_known := by
    intro object hobject member hmember
    obtain ⟨field, hfield, hname, hknown⟩ :=
      hdeclared.members_known object (h.objects.mem_iff.2 hobject) member hmember
    rw [h.isKnown_eq] at hknown
    exact ⟨field, h.objectFields.mem_iff.1 hfield, hname, hknown⟩
  columns_nodup := by
    rw [← h.columns_eq]
    exact hdeclared.columns_nodup
  columns_known := by
    intro column hcolumn
    rw [← h.columns_eq] at hcolumn
    rw [← h.isKnown_eq]
    exact hdeclared.columns_known column hcolumn

theorem objectField?_eq (h : schema.Reordered other) (hdeclared : schema.WellDeclared)
    (fullName : String) : schema.objectField? fullName = other.objectField? fullName := by
  ext field
  rw [objectField?_eq_some_iff hdeclared.objectFields_nodup,
    objectField?_eq_some_iff (h.wellDeclared hdeclared).objectFields_nodup, h.objectFields.mem_iff]

theorem memberName_eq (h : schema.Reordered other) (object : ObjectDecl) (member : String) :
    schema.memberName object member = other.memberName object member := by
  unfold memberName partName
  rw [h.name_eq]

theorem check_alike (h : schema.Reordered other) :
    BuildsAlike (fun _ _ => schema.WellDeclared) schema.check other.check := by
  apply BuildsAlike.of_ok_iff
  · have hiff : schema.WellDeclared ↔ other.WellDeclared := ⟨h.wellDeclared, h.symm.wellDeclared⟩
    have hcheck := (check_eq_ok_iff.trans hiff).trans check_eq_ok_iff.symm
    exact ⟨fun ⟨_, hok⟩ => ⟨(), hcheck.1 hok⟩, fun ⟨_, hok⟩ => ⟨(), hcheck.2 hok⟩⟩
  · intro _ _ hcheck _
    exact check_eq_ok_iff.1 hcheck
  · rintro error herror ⟨_, _, _, _, rfl⟩
    exact check_ne_dependency herror
  · rintro error herror ⟨_, _, _, _, rfl⟩
    exact check_ne_dependency herror

end Reordered

/-! ## Passes -/

theorem buildObjects_of_ne_nil {passes : Nat} {pending : List ObjectDecl}
    (hpending : pending ≠ []) :
    schema.buildObjects registry passes pending =
      if (schema.pass registry pending).ready = [] then
        .error (.dependency schema.name ((schema.pass registry pending).blocked.map (·.1.name))
          ((schema.pass registry pending).blocked.map (·.2)) (passes + 1))
      else
        registry.registerAll (schema.pass registry pending).ready >>= fun larger =>
          schema.buildObjects larger (passes + 1)
            ((schema.pass registry pending).blocked.map (·.1)) := by
  rw [buildObjects, if_neg hpending]
  dsimp only
  split
  · rfl
  · cases registry.registerAll (schema.pass registry pending).ready <;> rfl

namespace Reordered

theorem memberFields_eq (h : schema.Reordered other) (hdeclared : schema.WellDeclared)
    (hregistry : registry.Reordered registry') (object : ObjectDecl) (members : List String) :
    schema.memberFields registry object members = other.memberFields registry' object members := by
  induction members with
  | nil => rfl
  | cons member rest ih =>
    unfold memberFields
    simp only [h.objectField?_eq hdeclared, hregistry.kind?_eq, h.memberName_eq, ih]

theorem pass_eq (h : schema.Reordered other) (hdeclared : schema.WellDeclared)
    (hregistry : registry.Reordered registry') (pending : List ObjectDecl) :
    schema.pass registry pending = other.pass registry' pending := by
  induction pending with
  | nil => rfl
  | cons object rest ih =>
    unfold pass
    rw [ih, h.memberFields_eq hdeclared hregistry]

theorem pass_perm (h : schema.Reordered other) (hdeclared : schema.WellDeclared)
    (hregistry : registry.Reordered registry') {pending others : List ObjectDecl}
    (hperm : pending.Perm others) :
    (schema.pass registry pending).ready.Perm (other.pass registry' others).ready ∧
      (schema.pass registry pending).blocked.Perm (other.pass registry' others).blocked := by
  rw [← h.pass_eq hdeclared hregistry, ready_pass, ready_pass, blocked_pass, blocked_pass]
  exact ⟨hperm.filterMap _, hperm.filterMap _⟩

theorem buildObjects_alike (h : schema.Reordered other) (hdeclared : schema.WellDeclared)
    {passes : Nat} {pending others : List ObjectDecl} (hregistry : registry.Reordered registry')
    (hperm : pending.Perm others) :
    BuildsAlike (fun built built' => built.1.Reordered built'.1)
      (schema.buildObjects registry passes pending)
      (other.buildObjects registry' passes others) := by
  induction hlength : pending.length using Nat.strong_induction_on
    generalizing registry registry' passes pending others
  next length ih =>
  rcases eq_or_ne pending [] with rfl | hpending
  · obtain rfl := hperm.nil_eq
    unfold buildObjects
    exact .built hregistry
  · have hothers : others ≠ [] := mt (fun hnil => (hnil ▸ hperm).eq_nil) hpending
    -- one pass finds the same on both sides, so that both stop here or both go on
    obtain ⟨hready, hblocked⟩ := h.pass_perm hdeclared hregistry hperm
    rw [buildObjects_of_ne_nil hpending, buildObjects_of_ne_nil hothers, h.name_eq]
    by_cases hnone : (schema.pass registry pending).ready = []
    · have hnone' : (other.pass registry' others).ready = [] := (hnone ▸ hready).nil_eq.symm
      rw [if_pos hnone, if_pos hnone']
      exact .of_blocked hblocked
    · have hsome' : (other.pass registry' others).ready ≠ [] :=
        mt (fun hnil => (hnil ▸ hready).eq_nil) hnone
      have hless : ((schema.pass registry pending).blocked.map (·.1)).length < length := by
        rw [List.length_map, ← hlength]
        exact length_blocked_lt hnone
      rw [if_neg hnone, if_neg hsome']
      apply (Registry.registerAll_of_perm hregistry hready).bind
      intro next next' hnext
      exact ih _ hless hnext (hblocked.map _) rfl

end Reordered

/-! ## The whole build -/

theorem columnFields_alike (h : registry.Reordered registry') (columns : List FieldDecl) :
    BuildsAlike Eq (schema.columnFields registry columns)
      (other.columnFields registry' columns) := by
  induction columns with
  | nil => exact .built rfl
  | cons column rest ih =>
    unfold columnFields
    rw [h.kind?_eq]
    cases registry'.kind? column.typeName column.isCollection with
    | none =>
      exact .refused SchemaError.not_isDependency_unknownType
        SchemaError.not_isDependency_unknownType
    | some kind => exact ih.map fun fields others hfields => by rw [hfields]

/--
Neither the order of the objects nor that of the object fields changes what a build gives. If one
order succeeds, so does the other, with the same type of the rows and the same type under each name.
If one stops with objects left, so does the other, after as many passes and with the same objects
and members to blame.
-/
theorem build_of_reordered (h : schema.Reordered other) :
    BuildsAlike (fun built built' => built.1 = built'.1 ∧
      ∀ name, built.2.resolve name = built'.2.resolve name) schema.build other.build := by
  unfold build
  apply h.check_alike.bind
  intro _ _ hdeclared
  have hempty : Registry.empty.Reordered .empty := ⟨.refl _, Registry.nodup_names_empty⟩
  apply (h.buildObjects_alike hdeclared hempty h.objects).bind
  intro ⟨registry, passes⟩ ⟨registry', passes'⟩ hregistry
  rw [← h.columns_eq, ← h.name_eq]
  apply (columnFields_alike hregistry schema.columns).bind
  rintro fields _ rfl
  apply (Registry.register_of_reordered hregistry schema.name ⟨schema.name, fields⟩).bind
  intro last last' hlast
  exact .built ⟨rfl, hlast.resolve_eq⟩

theorem build_of_reordered_warehouse :
    let other : Schema :=
      ⟨"warehouse", warehouse.columns, warehouse.objectFields.reverse, warehouse.objects.reverse⟩
    let item : RecordType := ⟨"Item", [⟨"name", .primitive .string⟩]⟩
    let box : RecordType :=
      ⟨"Box", [⟨"items", .collection (.nested item)⟩, ⟨"weight", .primitive .double⟩]⟩
    let label : RecordType := ⟨"Label", [⟨"text", .primitive .string⟩]⟩
    let shelf : RecordType :=
      ⟨"Shelf", [⟨"label", .nested label⟩, ⟨"boxes", .collection (.nested box)⟩]⟩
    let root : RecordType :=
      ⟨"warehouse", [⟨"code", .primitive .string⟩, ⟨"shelves", .collection (.nested shelf)⟩]⟩
    warehouse.Reordered other ∧
      BuildsAlike (fun built built' => built.1 = built'.1 ∧
        ∀ name, built.2.resolve name = built'.2.resolve name) warehouse.build other.build ∧
      (other.build.toOption.map fun built => (built.1, built.2.records)) =
        some (root, [("Item", item), ("Label", label), ("Box", box), ("Shelf", shelf),
          ("warehouse", root)]) ∧
      (warehouse.build.toOption.map fun built => (built.1, built.2.records)) =
        some (root, [("Label", label), ("Item", item), ("Box", box), ("Shelf", shelf),
          ("warehouse", root)]) := by
  intro other item box label shelf root
  have h : warehouse.Reordered other :=
    ⟨rfl, rfl, (List.reverse_perm _).symm, (List.reverse_perm _).symm⟩
  exact ⟨h, build_of_reordered h, by decide +kernel, by decide +kernel⟩

end Schema

end RowTree
