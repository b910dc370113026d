import RowTree.Proofs.Schema.Passes

/-!
This module contains what becomes of the declarations of a table. A build is refused by the checks,
stops at objects that contain each other, or comes to the registration of the rows' own type
(`outcome_build`), and which of them it is can be told from the declarations (`build_outcome_iff`).
-/

namespace RowTree

theorem Registry.map_register_ne_dependency {α : Type} {registry : Registry} {name table : String}
    {type : RecordType} {give : Registry → α} {unresolved culprits : List String} {passes : Nat} :
    (registry.register name type).map give ≠
      .error (.dependency table unresolved culprits passes) := by
  unfold register
  split <;> nofun

namespace Schema

variable {schema : Schema} {registry : Registry} {object : ObjectDecl} {passes : Nat}
variable {pending : List ObjectDecl}

/-! ## The end of the passes -/

theorem Progress.settles_iff (h : schema.Progress passes registry pending)
    (hdeclared : schema.WellDeclared) (hready : (schema.pass registry pending).ready = [])
    (hobject : object ∈ schema.objects) :
    schema.settles passes object = true ↔ ¬schema.ReachesCycle object := by
  constructor
  · exact not_reachesCycle_of_settles
  · intro hclear
    obtain ⟨limit, hlimit⟩ := (exists_settles_iff hobject).2 hclear
    clear hclear
    -- the pass finds nothing of the next height, so that no larger limit adds an object
    have hstays : ∀ object ∈ schema.objects, schema.settles (passes + 1) object = true →
        schema.settles passes object = true := by
      intro object hobject hsettles
      have hnames := h.names_ready hdeclared
      rw [hready, List.map_nil, eq_comm, List.map_eq_nil_iff, List.filter_eq_nil_iff] at hnames
      simpa [hsettles] using hnames object hobject
    induction limit generalizing object with
    | zero => cases hlimit
    | succ limit ih =>
      apply hstays object hobject
      rw [settles_succ_iff] at hlimit ⊢
      intro part hpart
      exact ih (mem_parts_iff.1 hpart).1 (hlimit part hpart)

theorem Progress.mem_pending_iff (h : schema.Progress passes registry pending)
    (hdeclared : schema.WellDeclared) (hready : (schema.pass registry pending).ready = []) :
    object ∈ pending ↔ object ∈ schema.objects ∧ schema.ReachesCycle object := by
  rw [h.pending_eq, List.mem_filter, Bool.not_eq_true']
  apply and_congr_right
  intro hobject
  rw [← Bool.not_eq_true, h.settles_iff hdeclared hready hobject, Classical.not_not]

theorem Progress.acyclic_iff_pending (h : schema.Progress passes registry pending)
    (hdeclared : schema.WellDeclared) (hready : (schema.pass registry pending).ready = []) :
    schema.Acyclic ↔ pending = [] := by
  rw [acyclic_iff, List.eq_nil_iff_forall_not_mem]
  simp only [h.mem_pending_iff hdeclared hready, not_and]

theorem Progress.settles_of_pending_eq_nil (h : schema.Progress passes registry [])
    (hobject : object ∈ schema.objects) : schema.settles passes object = true := by
  have hall := h.pending_eq
  rw [eq_comm, List.filter_eq_nil_iff] at hall
  simpa using hall object hobject

theorem Progress.isDefined_eq_isKnown (h : schema.Progress passes registry [])
    {typeName : String} : registry.isDefined typeName = schema.isKnown typeName := by
  rw [Bool.eq_iff_iff, h.isDefined_iff, isKnown_iff]
  apply or_congr_right
  constructor
  · rintro ⟨object, hobject, -, hname⟩
    exact ⟨object, hobject, hname⟩
  · rintro ⟨object, hobject, hname⟩
    exact ⟨object, hobject, h.settles_of_pending_eq_nil hobject, hname⟩

theorem Ends.eq_built_or_eq_stalled {total : Nat} {result : Except SchemaError (Registry × Nat)}
    (h : schema.Ends total result) (hdeclared : schema.WellDeclared) :
    (∃ registry, schema.Loop total registry [] ∧ result = .ok (registry, total)) ∨
      ∃ passes registry pending, schema.Loop passes registry pending ∧ pending ≠ [] ∧
        (schema.pass registry pending).ready = [] ∧
        result = .error (.dependency schema.name
          ((schema.pass registry pending).blocked.map (·.1.name))
          ((schema.pass registry pending).blocked.map (·.2)) (passes + 1)) := by
  cases h with
  | built last => exact .inl ⟨_, last, rfl⟩
  | stalled last hpending hready => exact .inr ⟨_, _, _, last, hpending, hready, rfl⟩
  | refused last _ hregister =>
    -- what a pass builds has names of its own
    obtain ⟨larger, hlarger, _⟩ := (last.progress hdeclared).next hdeclared
    rw [hlarger] at hregister
    cases hregister

/-! ## The whole build -/

theorem columnFields_eq_ok {columns : List FieldDecl}
    (h : ∀ column ∈ columns, registry.isDefined column.typeName = true) :
    ∃ fields, schema.columnFields registry columns = .ok fields := by
  induction columns with
  | nil => exact ⟨[], rfl⟩
  | cons column rest ih =>
    rw [List.forall_mem_cons] at h
    obtain ⟨fields, hfields⟩ := ih h.2
    unfold columnFields
    split
    · next hnone =>
      have hsome : (registry.kind? column.typeName column.isCollection).isSome = true :=
        Registry.isSome_kind?_iff.2 h.1
      rw [hnone] at hsome
      cases hsome
    · next kind _ =>
      rw [hfields]
      exact ⟨⟨column.name, kind⟩ :: fields, rfl⟩

theorem Loop.columnFields_eq_ok (h : schema.Loop passes registry [])
    (hdeclared : schema.WellDeclared) :
    ∃ fields, schema.columnFields registry schema.columns = .ok fields := by
  apply Schema.columnFields_eq_ok
  intro column hcolumn
  rw [(h.progress hdeclared).isDefined_eq_isKnown]
  exact hdeclared.columns_known column hcolumn

/--
The three ways in which a build ends. Only the last one may succeed.
-/
inductive Outcome (schema : Schema) : Except SchemaError (RecordType × Registry) → Prop
  | refused {error : SchemaError} (hcheck : schema.check = .error error) :
      Outcome schema (.error error)
  | stalled {passes : Nat} {registry : Registry} {pending : List ObjectDecl}
      (hdeclared : schema.WellDeclared) (last : schema.Loop passes registry pending)
      (hpending : pending ≠ []) (hready : (schema.pass registry pending).ready = []) :
      Outcome schema (.error (.dependency schema.name
        ((schema.pass registry pending).blocked.map (·.1.name))
        ((schema.pass registry pending).blocked.map (·.2)) (passes + 1)))
  | rooted {passes : Nat} {registry : Registry} {fields : List Field}
      (hdeclared : schema.WellDeclared) (last : schema.Loop passes registry [])
      (hfields : schema.columnFields registry schema.columns = .ok fields) :
      Outcome schema ((registry.register schema.name ⟨schema.name, fields⟩).map
        (Prod.mk ⟨schema.name, fields⟩))

theorem outcome_build (schema : Schema) : schema.Outcome schema.build := by
  unfold build
  cases hcheck : schema.check with
  | error error => exact .refused hcheck
  | ok =>
    have hdeclared := check_eq_ok_iff.1 hcheck
    obtain ⟨total, hends⟩ := (@Loop.start schema).exists_ends
    rcases hends.eq_built_or_eq_stalled hdeclared with
      ⟨registry, last, hbuilt⟩ | ⟨passes, registry, pending, last, hpending, hready, hstalled⟩
    · obtain ⟨fields, hfields⟩ := last.columnFields_eq_ok hdeclared
      rw [hbuilt]
      have houtcome := Outcome.rooted hdeclared last hfields
      simp only [bind, Except.bind, hfields]
      cases hregister : registry.register schema.name ⟨schema.name, fields⟩ with
      | error error =>
        rw [hregister] at houtcome
        exact houtcome
      | ok larger =>
        rw [hregister] at houtcome
        exact houtcome
    · rw [hstalled]
      exact .stalled hdeclared last hpending hready

theorem Loop.register_root_eq_ok_iff (h : schema.Loop passes registry [])
    (hdeclared : schema.WellDeclared) {type : RecordType} :
    (∃ larger, registry.register schema.name type = .ok larger) ↔
      Primitive.isName schema.name = false ∧ ∀ object ∈ schema.objects,
        object.name ≠ schema.name := by
  have hknown : registry.isDefined schema.name = schema.isKnown schema.name :=
    (h.progress hdeclared).isDefined_eq_isKnown
  have hfree : Primitive.isName schema.name = false ∧
      (∀ object ∈ schema.objects, object.name ≠ schema.name) ↔
        registry.isDefined schema.name = false := by
    rw [hknown, ← Bool.not_eq_true (schema.isKnown schema.name), isKnown_iff, not_or,
      Bool.not_eq_true]
    apply and_congr_right
    intro _
    simp
  rw [hfree]
  unfold Registry.register
  cases registry.isDefined schema.name <;> simp

theorem not_wellDeclared_of_check_eq_error {error : SchemaError}
    (h : schema.check = .error error) : ¬schema.WellDeclared := by
  rw [← check_eq_ok_iff, h]
  nofun

theorem Loop.acyclic (h : schema.Loop passes registry []) (hdeclared : schema.WellDeclared) :
    schema.Acyclic :=
  ((h.progress hdeclared).acyclic_iff_pending hdeclared rfl).2 rfl

theorem Loop.not_acyclic_of_stalled (h : schema.Loop passes registry pending)
    (hdeclared : schema.WellDeclared) (hpending : pending ≠ [])
    (hready : (schema.pass registry pending).ready = []) : ¬schema.Acyclic :=
  mt ((h.progress hdeclared).acyclic_iff_pending hdeclared hready).1 hpending

theorem Outcome.exists_eq_ok_iff {result : Except SchemaError (RecordType × Registry)}
    (h : schema.Outcome result) :
    (∃ built, result = .ok built) ↔
      schema.WellDeclared ∧ schema.Acyclic ∧ Primitive.isName schema.name = false ∧
        ∀ object ∈ schema.objects, object.name ≠ schema.name := by
  cases h with
  | refused hcheck =>
    apply iff_of_false
    · nofun
    · intro hall
      exact not_wellDeclared_of_check_eq_error hcheck hall.1
  | stalled hdeclared last hpending hready =>
    apply iff_of_false
    · nofun
    · intro hall
      exact last.not_acyclic_of_stalled hdeclared hpending hready hall.2.1
  | @rooted passes registry fields hdeclared last hfields =>
    have hroot := @Loop.register_root_eq_ok_iff _ _ _ last hdeclared ⟨schema.name, fields⟩
    have hacyclic := last.acyclic hdeclared
    simp only [hdeclared, hacyclic, true_and]
    rw [← hroot]
    cases registry.register schema.name ⟨schema.name, fields⟩ <;> simp [Except.map]

theorem Outcome.exists_eq_dependency_iff {result : Except SchemaError (RecordType × Registry)}
    (h : schema.Outcome result) :
    (∃ table unresolved culprits passes,
        result = .error (.dependency table unresolved culprits passes)) ↔
      schema.WellDeclared ∧ ¬schema.Acyclic := by
  cases h with
  | refused hcheck =>
    apply iff_of_false
    · rintro ⟨table, unresolved, culprits, passes, herror⟩
      rw [Except.error.injEq] at herror
      rw [herror] at hcheck
      exact check_ne_dependency hcheck
    · intro hall
      exact not_wellDeclared_of_check_eq_error hcheck hall.1
  | stalled hdeclared last hpending hready =>
    apply iff_of_true
    · exact ⟨_, _, _, _, rfl⟩
    · exact ⟨hdeclared, last.not_acyclic_of_stalled hdeclared hpending hready⟩
  | @rooted passes registry fields hdeclared last hfields =>
    apply iff_of_false
    · rintro ⟨table, unresolved, culprits, passes, herror⟩
      exact Registry.map_register_ne_dependency herror
    · intro hall
      exact hall.2 (last.acyclic hdeclared)

/--
A build succeeds exactly for well-made declarations of objects that do not contain themselves, under
a name that is free. It stops with objects left exactly if the declarations are well made and some
object contains itself. Nothing else can go wrong after the checks: members have their object
fields, what a pass builds can be registered, and the columns' types are known in the end.
-/
theorem build_outcome_iff (schema : Schema) :
    ((∃ built, schema.build = .ok built) ↔
      schema.WellDeclared ∧ schema.Acyclic ∧ Primitive.isName schema.name = false ∧
        ∀ object ∈ schema.objects, object.name ≠ schema.name) ∧
    ((∃ table unresolved culprits passes,
        schema.build = .error (.dependency table unresolved culprits passes)) ↔
      schema.WellDeclared ∧ ¬schema.Acyclic) ∧
    (schema.check = .ok () →
      (∀ object ∈ schema.objects, ∀ member ∈ object.members,
        schema.objectField? (object.fullName member) ≠ none) ∧
      (∀ passes registry pending, schema.Loop passes registry pending →
        ∃ larger, registry.registerAll (schema.pass registry pending).ready = .ok larger) ∧
      ∀ registry passes, schema.buildObjects .empty 0 schema.objects = .ok (registry, passes) →
        ∃ fields, schema.columnFields registry schema.columns = .ok fields) := by
  refine ⟨schema.outcome_build.exists_eq_ok_iff, schema.outcome_build.exists_eq_dependency_iff, ?_⟩
  intro hcheck
  have hdeclared := check_eq_ok_iff.1 hcheck
  refine ⟨?_, ?_, ?_⟩
  · intro object hobject member hmember hmissing
    obtain ⟨field, hfield, _⟩ := hdeclared.exists_field hobject hmember
    rw [hmissing] at hfield
    cases hfield
  · intro passes registry pending hloop
    obtain ⟨larger, hlarger, _⟩ := (hloop.progress hdeclared).next hdeclared
    exact ⟨larger, hlarger⟩
  · intro registry passes hbuilt
    obtain ⟨total, hends⟩ := (@Loop.start schema).exists_ends
    rw [hbuilt] at hends
    cases hends with
    | built last => exact last.columnFields_eq_ok hdeclared

end Schema

end RowTree
