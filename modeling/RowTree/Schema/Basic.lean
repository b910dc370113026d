import RowTree.Kind

/-!
This module holds the declarations of a table: its columns, the objects that columns and other
objects may contain, and the fields of those objects under their full names `Object.member`.
-/

namespace RowTree

/--
A declared column or object field, with the name of a primitive or of an object as its type.
-/
structure FieldDecl where
  name : String
  typeName : String
  isCollection : Bool
  deriving DecidableEq, Repr

/--
A declared object: the names of its members in order, each short or full.
-/
structure ObjectDecl where
  name : String
  members : List String
  deriving DecidableEq, Repr

structure Schema where
  name : String
  columns : List FieldDecl
  objectFields : List FieldDecl
  objects : List ObjectDecl
  deriving DecidableEq, Repr

namespace ObjectDecl

/--
What follows the name of the object and a dot, if the text starts that way.
-/
def memberPart? (object : ObjectDecl) (member : String) : Option String :=
  let front := object.name.toList ++ ['.']
  if front.isPrefixOf member.toList then
    some (String.ofList (member.toList.drop front.length))
  else
    none

/--
The name of a member's object field: the name of the object, a dot and the member, where a member
that is already written so is kept.
-/
def fullName (object : ObjectDecl) (member : String) : String :=
  match object.memberPart? member with
  | some _ => member
  | none => object.name ++ "." ++ member

def shortName (object : ObjectDecl) (member : String) : String :=
  (object.memberPart? member).getD member

end ObjectDecl

namespace Schema

def objectField? (schema : Schema) (fullName : String) : Option FieldDecl :=
  schema.objectFields.find? (·.name == fullName)

def isKnown (schema : Schema) (typeName : String) : Bool :=
  Primitive.isName typeName || (schema.objects.map (·.name)).contains typeName

end Schema

theorem ObjectDecl.memberPart?_eq_some_iff {object : ObjectDecl} {member rest : String} :
    object.memberPart? member = some rest ↔ member = object.name ++ "." ++ rest := by
  rw [memberPart?]
  split
  · next h =>
    rw [List.isPrefixOf_iff_prefix] at h
    obtain ⟨tail, htail⟩ := h
    rw [← htail, List.drop_left, Option.some.injEq]
    constructor
    · rintro rfl
      apply String.toList_inj.1
      rw [← htail]
      simp
    · intro h
      rw [h, String.toList_append] at htail
      simpa [← String.toList_inj] using htail
  · next h =>
    simp only [reduceCtorEq, false_iff]
    rintro rfl
    apply h
    rw [List.isPrefixOf_iff_prefix]
    exact ⟨rest.toList, by simp⟩

theorem ObjectDecl.fullName_eq (object : ObjectDecl) (member : String) :
    object.fullName member = object.name ++ "." ++ object.shortName member := by
  unfold fullName shortName
  cases hpart : object.memberPart? member with
  | none => rfl
  | some rest => exact memberPart?_eq_some_iff.1 hpart

end RowTree
