import RowTree.Schema.Build
import Mathlib.Data.List.Nodup

/-!
This module says what declarations have to be like before anything is built from them, and shows
that the checks accept exactly such declarations. None of the checks looks at the order in which
objects contain each other.
-/

namespace RowTree

namespace Schema

def memberType? (schema : Schema) (object : ObjectDecl) (member : String) : Option String :=
  (schema.objectField? (object.fullName member)).map (·.typeName)

structure WellDeclared (schema : Schema) : Prop where
  objectFields_nodup : (schema.objectFields.map (·.name)).Nodup
  objects_nodup : (schema.objects.map (·.name)).Nodup
  objects_not_primitive : ∀ object ∈ schema.objects, Primitive.isName object.name = false
  members_nodup : ∀ object ∈ schema.objects, (object.members.map object.shortName).Nodup
  members_known : ∀ object ∈ schema.objects, ∀ member ∈ object.members,
    ∃ field ∈ schema.objectFields, field.name = object.fullName member ∧
      schema.isKnown field.typeName = true
  columns_nodup : (schema.columns.map (·.name)).Nodup
  columns_known : ∀ column ∈ schema.columns, schema.isKnown column.typeName = true

variable {schema : Schema}

theorem isKnown_iff {typeName : String} :
    schema.isKnown typeName = true ↔
      Primitive.isName typeName = true ∨ ∃ object ∈ schema.objects, object.name = typeName := by
  unfold isKnown
  simp

theorem exists_of_objectField?_eq_some {fullName : String} {field : FieldDecl}
    (h : schema.objectField? fullName = some field) :
    field ∈ schema.objectFields ∧ field.name = fullName := by
  unfold objectField? at h
  exact ⟨List.mem_of_find?_eq_some h, by simpa using List.find?_some h⟩

theorem nodup_disjoint_cons_iff {name : String} {names seen : List String} :
    ((name :: names).Nodup ∧ (name :: names).Disjoint seen) ↔
      name ∉ seen ∧ names.Nodup ∧ names.Disjoint (name :: seen) := by
  rw [List.nodup_cons, List.disjoint_cons_left, List.disjoint_cons_right]
  tauto

/-! ## What each check accepts -/

theorem checkObjectFields_eq_ok_iff {fields : List FieldDecl} {seen : List String} :
    schema.checkObjectFields seen fields = .ok () ↔
      (fields.map (·.name)).Nodup ∧ (fields.map (·.name)).Disjoint seen := by
  induction fields generalizing seen with
  | nil => simp [checkObjectFields]
  | cons field rest ih =>
    unfold checkObjectFields
    rw [List.map_cons, nodup_disjoint_cons_iff]
    split
    · next hseen =>
      rw [List.contains_iff_mem] at hseen
      simp [hseen]
    · next hseen =>
      rw [List.contains_iff_mem] at hseen
      rw [ih]
      simp [hseen]

theorem checkObjectNames_eq_ok_iff {objects : List ObjectDecl} {seen : List String} :
    checkObjectNames seen objects = .ok () ↔
      ((objects.map (·.name)).Nodup ∧ (objects.map (·.name)).Disjoint seen) ∧
        ∀ object ∈ objects, Primitive.isName object.name = false := by
  induction objects generalizing seen with
  | nil => simp [checkObjectNames]
  | cons object rest ih =>
    unfold checkObjectNames
    rw [List.map_cons, nodup_disjoint_cons_iff, List.forall_mem_cons]
    split
    · next hseen =>
      rw [Bool.or_eq_true, List.contains_iff_mem] at hseen
      apply iff_of_false
      · exact nofun
      · intro h
        rcases hseen with hprimitive | hmem
        · rw [h.2.1] at hprimitive
          cases hprimitive
        · exact h.1.1 hmem
    · next hseen =>
      rw [Bool.or_eq_true, List.contains_iff_mem, not_or, Bool.not_eq_true] at hseen
      rw [ih]
      tauto

theorem checkMembers_eq_ok_iff {object : ObjectDecl} {members seen : List String} :
    schema.checkMembers object seen members = .ok () ↔
      ((members.map object.shortName).Nodup ∧ (members.map object.shortName).Disjoint seen) ∧
        ∀ member ∈ members, ∃ field, schema.objectField? (object.fullName member) = some field ∧
          schema.isKnown field.typeName = true := by
  induction members generalizing seen with
  | nil => simp [checkMembers]
  | cons member rest ih =>
    unfold checkMembers
    rw [List.map_cons, nodup_disjoint_cons_iff, List.forall_mem_cons]
    dsimp only
    split
    · next hseen =>
      rw [List.contains_iff_mem] at hseen
      simp [hseen]
    · next hseen =>
      rw [List.contains_iff_mem] at hseen
      split
      · next hfield => simp [hfield]
      · next field hfield =>
        split
        · next hknown =>
          rw [ih]
          simp only [hfield, Option.some.injEq, exists_eq_left', hknown]
          tauto
        · next hknown => simp [hfield, hknown]

theorem checkColumns_eq_ok_iff {columns : List FieldDecl} {seen : List String} :
    schema.checkColumns seen columns = .ok () ↔
      ((columns.map (·.name)).Nodup ∧ (columns.map (·.name)).Disjoint seen) ∧
        ∀ column ∈ columns, schema.isKnown column.typeName = true := by
  induction columns generalizing seen with
  | nil => simp [checkColumns]
  | cons column rest ih =>
    unfold checkColumns
    rw [List.map_cons, nodup_disjoint_cons_iff, List.forall_mem_cons]
    split
    · next hseen =>
      rw [List.contains_iff_mem] at hseen
      simp [hseen]
    · next hseen =>
      rw [List.contains_iff_mem] at hseen
      split
      · next hknown =>
        rw [ih]
        tauto
      · next hknown => simp [hknown]

theorem then_eq_ok_iff {first second : Except SchemaError Unit} :
    (do first; second) = .ok () ↔ first = .ok () ∧ second = .ok () := by
  cases first <;> simp [bind, Except.bind]

theorem checkObjects_eq_ok_iff {objects : List ObjectDecl} :
    schema.checkObjects objects = .ok () ↔
      ∀ object ∈ objects, schema.checkMembers object [] object.members = .ok () := by
  induction objects with
  | nil => simp [checkObjects]
  | cons object rest ih =>
    unfold checkObjects
    rw [then_eq_ok_iff, ih, List.forall_mem_cons]

theorem objectField?_eq_some_iff (hnodup : (schema.objectFields.map (·.name)).Nodup)
    {fullName : String} {field : FieldDecl} :
    schema.objectField? fullName = some field ↔
      field ∈ schema.objectFields ∧ field.name = fullName := by
  constructor
  · exact exists_of_objectField?_eq_some
  · rintro ⟨hmem, rfl⟩
    cases hfound : schema.objectField? field.name with
    | none =>
      unfold objectField? at hfound
      rw [List.find?_eq_none] at hfound
      have := hfound field hmem
      simp at this
    | some found =>
      have hspec := exists_of_objectField?_eq_some hfound
      rw [List.inj_on_of_nodup_map hnodup hspec.1 hmem hspec.2]

theorem WellDeclared.exists_field (h : schema.WellDeclared) {object : ObjectDecl}
    (hobject : object ∈ schema.objects) {member : String} (hmember : member ∈ object.members) :
    ∃ field, schema.objectField? (object.fullName member) = some field ∧
      schema.isKnown field.typeName = true := by
  obtain ⟨field, hmem, hname, htype⟩ := h.members_known object hobject member hmember
  exact ⟨field, (objectField?_eq_some_iff h.objectFields_nodup).2 ⟨hmem, hname⟩, htype⟩

theorem check_eq_ok_iff : schema.check = .ok () ↔ schema.WellDeclared := by
  unfold check
  rw [then_eq_ok_iff, then_eq_ok_iff, then_eq_ok_iff, checkObjectFields_eq_ok_iff,
    checkObjectNames_eq_ok_iff, checkObjects_eq_ok_iff, checkColumns_eq_ok_iff]
  simp only [checkMembers_eq_ok_iff, List.disjoint_nil_right, and_true]
  constructor
  · rintro ⟨hfields, ⟨hobjects, hprimitive⟩, hmembers, hcolumns, hknown⟩
    refine ⟨hfields, hobjects, hprimitive, fun object hobject => (hmembers object hobject).1, ?_,
      hcolumns, hknown⟩
    intro object hobject member hmember
    obtain ⟨field, hfield, htype⟩ := (hmembers object hobject).2 member hmember
    rw [objectField?_eq_some_iff hfields] at hfield
    exact ⟨field, hfield.1, hfield.2, htype⟩
  · intro h
    refine ⟨h.objectFields_nodup, ⟨h.objects_nodup, h.objects_not_primitive⟩, ?_,
      h.columns_nodup, h.columns_known⟩
    intro object hobject
    exact ⟨h.members_nodup object hobject, fun member => h.exists_field hobject⟩

theorem WellDeclared.object_ext (h : schema.WellDeclared) {left right : ObjectDecl}
    (hleft : left ∈ schema.objects) (hright : right ∈ schema.objects)
    (hname : left.name = right.name) : left = right :=
  List.inj_on_of_nodup_map h.objects_nodup hleft hright hname

/-! ## What the checks do not report -/

theorem then_ne_error {first second : Except SchemaError Unit} {error : SchemaError}
    (hfirst : first ≠ .error error) (hsecond : second ≠ .error error) :
    (do first; second) ≠ .error error := by
  cases first with
  | ok => exact hsecond
  | error other => exact hfirst

section NotDependency

variable {table : String} {unresolved culprits : List String} {passes : Nat}

theorem checkObjectFields_ne_dependency {fields : List FieldDecl} {seen : List String} :
    schema.checkObjectFields seen fields ≠
      .error (.dependency table unresolved culprits passes) := by
  fun_induction checkObjectFields with
  | case1 => nofun
  | case2 => nofun
  | case3 _ _ _ _ ih => exact ih

theorem checkObjectNames_ne_dependency {objects : List ObjectDecl} {seen : List String} :
    checkObjectNames seen objects ≠ .error (.dependency table unresolved culprits passes) := by
  fun_induction checkObjectNames with
  | case1 => nofun
  | case2 => nofun
  | case3 _ _ _ _ ih => exact ih

theorem checkMembers_ne_dependency {object : ObjectDecl} {members seen : List String} :
    schema.checkMembers object seen members ≠
      .error (.dependency table unresolved culprits passes) := by
  fun_induction checkMembers with
  | case1 => nofun
  | case2 => nofun
  | case3 => nofun
  | case4 _ _ _ _ _ _ _ _ ih => exact ih
  | case5 => nofun

theorem checkObjects_ne_dependency {objects : List ObjectDecl} :
    schema.checkObjects objects ≠ .error (.dependency table unresolved culprits passes) := by
  induction objects with
  | nil => nofun
  | cons object rest ih =>
    unfold checkObjects
    exact then_ne_error checkMembers_ne_dependency ih

theorem checkColumns_ne_dependency {columns : List FieldDecl} {seen : List String} :
    schema.checkColumns seen columns ≠
      .error (.dependency table unresolved culprits passes) := by
  fun_induction checkColumns with
  | case1 => nofun
  | case2 => nofun
  | case3 _ _ _ _ _ ih => exact ih
  | case4 => nofun

theorem check_ne_dependency :
    schema.check ≠ .error (.dependency table unresolved culprits passes) := by
  unfold check
  apply then_ne_error checkObjectFields_ne_dependency
  apply then_ne_error checkObjectNames_ne_dependency
  apply then_ne_error checkObjects_ne_dependency
  apply checkColumns_ne_dependency

end NotDependency

end Schema

end RowTree
