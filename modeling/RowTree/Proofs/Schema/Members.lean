import RowTree.Proofs.Schema.Built
import RowTree.Text.Reader

/-!
This module contains how the two names of a member belong together. The full name is the short one
behind the name of the object and a dot, for all texts (`ObjectDecl.fullName_eq`), so that members
are told apart by either of their names (`ObjectDecl.shortName_eq_iff`). In checked declarations the
members of an object stand for object fields and for fields of its type, one for each member.
-/

namespace RowTree

theorem TextReader.rest?_eq_some_iff {front cs rest : List Char} :
    rest? front cs = some rest ↔ cs = front ++ rest := by
  unfold rest?
  split
  · next h =>
    obtain ⟨tail, rfl⟩ := List.isPrefixOf_iff_prefix.1 h
    simp
  · next h =>
    simp only [reduceCtorEq, false_iff]
    rintro rfl
    exact h (List.isPrefixOf_iff_prefix.2 ⟨rest, rfl⟩)

namespace ObjectDecl

/-! ## Cutting in two steps -/

def behindName? (object : ObjectDecl) (member : String) : Option (List Char) :=
  TextReader.rest? object.name.toList member.toList

/--
The full name of a member, whose text is kept if a dot follows the name of the object in it.
-/
def fullNameByCut (object : ObjectDecl) (member : String) : String :=
  match object.behindName? member with
  | some ('.' :: _) => member
  | _ => object.name ++ "." ++ member

/--
The short name of a member, which is what follows the dot behind the name of the object.
-/
def shortNameByCut (object : ObjectDecl) (member : String) : String :=
  match object.behindName? member with
  | some ('.' :: rest) => String.ofList rest
  | _ => member

variable {object : ObjectDecl} {member : String}

theorem memberPart?_of_dot {rest : List Char} (h : object.behindName? member = some ('.' :: rest)) :
    object.memberPart? member = some (String.ofList rest) := by
  rw [memberPart?_eq_some_iff, ← String.toList_inj, TextReader.rest?_eq_some_iff.1 h]
  simp

theorem memberPart?_eq_none (h : ∀ rest, object.behindName? member ≠ some ('.' :: rest)) :
    object.memberPart? member = none := by
  cases hpart : object.memberPart? member with
  | none => rfl
  | some rest =>
    rw [memberPart?_eq_some_iff] at hpart
    refine absurd (TextReader.rest?_eq_some_iff.2 ?_) (h rest.toList)
    rw [hpart]
    simp

theorem fullNameByCut_eq (object : ObjectDecl) (member : String) :
    object.fullNameByCut member = object.fullName member := by
  unfold fullNameByCut fullName
  split
  · next rest h => rw [memberPart?_of_dot h]
  · next h => rw [memberPart?_eq_none h]

theorem shortNameByCut_eq (object : ObjectDecl) (member : String) :
    object.shortNameByCut member = object.shortName member := by
  unfold shortNameByCut shortName
  split
  · next rest h => rw [memberPart?_of_dot h, Option.getD_some]
  · next h => rw [memberPart?_eq_none h, Option.getD_none]

/-! ## Names of members -/

theorem fullName_fullName (object : ObjectDecl) (member : String) :
    object.fullName (object.fullName member) = object.fullName member := by
  have hpart := memberPart?_eq_some_iff.2 (object.fullName_eq member)
  rw [fullName, hpart]

theorem shortName_eq_iff {other : String} :
    object.shortName member = object.shortName other ↔
      object.fullName member = object.fullName other := by
  rw [object.fullName_eq, object.fullName_eq, String.append_right_inj]

end ObjectDecl

/-! ## Members in checked declarations -/

namespace Schema

variable {schema : Schema} {object : ObjectDecl} {fields : List Field}

/--
Each member of the object has one object field, and no field belongs to two members.
-/
structure OneFieldEach (schema : Schema) (object : ObjectDecl) : Prop where
  nodup : object.members.Nodup
  existsUnique : ∀ member ∈ object.members,
    ∃! field, field ∈ schema.objectFields ∧ field.name = object.fullName member
  injective : ∀ member ∈ object.members, ∀ other ∈ object.members, ∀ field : FieldDecl,
    field.name = object.fullName member → field.name = object.fullName other → member = other

/--
The fields of a type are those of the members in their order, all of different names.
-/
structure FieldsOf (object : ObjectDecl) (fields : List Field) : Prop where
  named : List.Forall₂ (fun member field => field.name = object.shortName member) object.members
    fields
  nodup : (fields.map (·.name)).Nodup

theorem WellDeclared.oneFieldEach (h : schema.WellDeclared) (hobject : object ∈ schema.objects) :
    schema.OneFieldEach object := by
  have hnodup := h.members_nodup object hobject
  refine ⟨hnodup.of_map _, fun member hmember => ?_, ?_⟩
  · obtain ⟨field, hfield, hname, _⟩ := h.members_known object hobject member hmember
    refine ⟨field, ⟨hfield, hname⟩, ?_⟩
    rintro other ⟨hother, hsame⟩
    exact List.inj_on_of_nodup_map h.objectFields_nodup hother hfield (hsame.trans hname.symm)
  · intro member hmember other hother field hname hsame
    have hshort := ObjectDecl.shortName_eq_iff.2 (hname.symm.trans hsame)
    exact List.inj_on_of_nodup_map hnodup hmember hother hshort

theorem WellDeclared.fieldsOf (h : schema.WellDeclared) (hobject : object ∈ schema.objects)
    (hnamed : List.Forall₂ (fun member field => field.name = object.shortName member) object.members
      fields) : FieldsOf object fields := by
  refine ⟨hnamed, ?_⟩
  rw [map_name_eq hnamed]
  exact h.members_nodup object hobject

/--
The names of a member for all texts, and what becomes of the members of checked declarations: object
fields, and fields of the type that is built in a pass or found in the registry at the end.
-/
theorem names_of_members :
    (∀ (object : ObjectDecl) (member other : String),
      object.fullNameByCut member = object.fullName member ∧
        object.shortNameByCut member = object.shortName member ∧
        object.fullName member = object.name ++ "." ++ object.shortName member ∧
        object.fullName (object.fullName member) = object.fullName member ∧
        (object.shortName member = object.shortName other ↔
          object.fullName member = object.fullName other)) ∧
      ∀ schema : Schema, schema.check = .ok () → ∀ object ∈ schema.objects,
        schema.OneFieldEach object ∧
          (∀ registry fields, schema.memberFields registry object object.members = .ok fields →
            FieldsOf object fields) ∧
          ∀ root registry, schema.build = .ok (root, registry) →
            ∃ type, registry.find? object.name = some (.record type) ∧
              FieldsOf object type.fields := by
  refine ⟨fun object member other => ?_, fun schema hcheck object hobject => ?_⟩
  · exact ⟨object.fullNameByCut_eq member, object.shortNameByCut_eq member,
      object.fullName_eq member, object.fullName_fullName member, ObjectDecl.shortName_eq_iff⟩
  · have hdeclared := check_eq_ok_iff.1 hcheck
    refine ⟨hdeclared.oneFieldEach hobject, fun registry fields hfields => ?_, ?_⟩
    · have hmade := memberFields_eq_ok_iff.1 hfields
      exact hdeclared.fieldsOf hobject (hmade.imp fun _ _ hmember => hmember.name_eq)
    · intro root registry hbuild
      obtain ⟨_, _, hcompleted⟩ := exists_completed hbuild
      obtain ⟨type, hfound, _, hmade⟩ := hcompleted.object_type hobject
      refine ⟨type, hfound, hdeclared.fieldsOf hobject (hmade.imp fun member field hmember => ?_)⟩
      obtain ⟨_, _, _, hdeclares⟩ := hmember
      exact hdeclares.name_eq

/--
Objects without a name and with a dot in it, and members that start with or repeat these names.
-/
def dotted : Schema where
  name := "dotted"
  columns := [⟨"a", "", false⟩, ⟨"b", "A.B", true⟩]
  objectFields := [⟨"A.B.A.B", "int", false⟩, ⟨".x", "string", false⟩, ⟨"A.B.A", "", true⟩,
    ⟨"..x", "int", false⟩, ⟨"A.B.A.B.C", "bool", false⟩]
  objects := [⟨"A.B", ["A.B.A.B", "A", "A.B.A.B.C"]⟩, ⟨"", ["x", "..x"]⟩]

theorem names_of_members_dotted :
    let nameless : ObjectDecl := ⟨"", ["x", "..x"]⟩
    let fields : List Field := [⟨"x", .primitive .string⟩, ⟨".x", .primitive .int⟩]
    (dotted.check = .ok () ∧ nameless ∈ dotted.objects ∧ dotted.OneFieldEach nameless) ∧
      (dotted.memberFields .empty nameless nameless.members = .ok fields ∧
        FieldsOf nameless fields) ∧
      ∃ root registry type, dotted.build = .ok (root, registry) ∧
        registry.find? nameless.name = some (.record type) ∧ FieldsOf nameless type.fields := by
  intro nameless fields
  have hcheck : dotted.check = .ok () := by decide +kernel
  have hmem : nameless ∈ dotted.objects := by decide
  have hfields : dotted.memberFields .empty nameless nameless.members = .ok fields := by
    decide +kernel
  have hbuild : dotted.build.isOk = true := by decide +kernel
  obtain ⟨hone, hmade, htype⟩ := names_of_members.2 dotted hcheck nameless hmem
  refine ⟨⟨hcheck, hmem, hone⟩, ⟨hfields, hmade _ _ hfields⟩, ?_⟩
  cases hresult : dotted.build with
  | error error =>
    rw [hresult] at hbuild
    cases hbuild
  | ok built =>
    obtain ⟨type, hfound, hnamed⟩ := htype _ _ hresult
    exact ⟨built.1, built.2, type, rfl, hfound, hnamed⟩

end Schema

end RowTree
