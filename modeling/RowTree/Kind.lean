import RowTree.Primitive

/-!
This module holds the types of records: what kind of value each field takes. Two types are equal
if they have the same name and the same fields in the same order, which `Kind.equal_iff` and its
companions decide.
-/

namespace RowTree

mutual

inductive Kind where
  | primitive (p : Primitive)
  | nested (type : RecordType)
  | collection (element : Kind)

structure RecordType where
  name : String
  fields : List Field

structure Field where
  name : String
  kind : Kind

end

mutual

def Kind.equal : Kind → Kind → Bool
  | .primitive p, .primitive q => p == q
  | .nested s, .nested t => s.equal t
  | .collection k, .collection l => k.equal l
  | _, _ => false
termination_by structural k => k

def RecordType.equal : RecordType → RecordType → Bool
  | ⟨n, fs⟩, ⟨m, gs⟩ => n == m && Field.equalLists fs gs
termination_by structural t => t

def Field.equalLists : List Field → List Field → Bool
  | [], [] => true
  | f :: fs, g :: gs => f.equal g && Field.equalLists fs gs
  | _, _ => false
termination_by structural fs => fs

def Field.equal : Field → Field → Bool
  | ⟨n, k⟩, ⟨m, l⟩ => n == m && k.equal l
termination_by structural f => f

end

mutual

theorem Kind.equal_iff : ∀ {k l : Kind}, k.equal l = true ↔ k = l
  | .primitive p, .primitive q => by simp [Kind.equal]
  | .nested s, .nested t => by simp [Kind.equal, RecordType.equal_iff]
  | .collection k, .collection l => by simp [Kind.equal, Kind.equal_iff]
  | .primitive _, .nested _ | .primitive _, .collection _ | .nested _, .primitive _
  | .nested _, .collection _ | .collection _, .primitive _ | .collection _, .nested _ => by
    simp [Kind.equal]
termination_by structural k => k

theorem RecordType.equal_iff : ∀ {s t : RecordType}, s.equal t = true ↔ s = t
  | ⟨n, fs⟩, ⟨m, gs⟩ => by simp [RecordType.equal, Field.equalLists_iff]
termination_by structural s => s

theorem Field.equalLists_iff :
    ∀ {fs gs : List Field}, Field.equalLists fs gs = true ↔ fs = gs
  | [], [] => by simp [Field.equalLists]
  | f :: fs, g :: gs => by simp [Field.equalLists, Field.equal_iff, Field.equalLists_iff]
  | [], _ :: _ | _ :: _, [] => by simp [Field.equalLists]
termination_by structural fs => fs

theorem Field.equal_iff : ∀ {f g : Field}, f.equal g = true ↔ f = g
  | ⟨n, k⟩, ⟨m, l⟩ => by simp [Field.equal, Kind.equal_iff]
termination_by structural f => f

end

instance : DecidableEq Kind := fun _ _ => decidable_of_iff _ Kind.equal_iff

/--
A type that two records share equals itself without a look at its fields, which matters because a
type may contain another one many times.
-/
instance : DecidableEq RecordType := fun s t =>
  withPtrEqDecEq s t fun _ => decidable_of_iff _ RecordType.equal_iff

instance : DecidableEq Field := fun _ _ => decidable_of_iff _ Field.equal_iff

instance : Inhabited RecordType := ⟨⟨"", []⟩⟩

def Kind.text : Kind → String
  | .primitive p => p.name
  | .nested type => "object " ++ type.name
  | .collection element => "array of " ++ element.text
termination_by structural k => k

def Field.find? (name : String) : List Field → Option (Nat × Kind)
  | [] => none
  | f :: fs =>
    if f.name = name then
      some (0, f.kind)
    else
      (Field.find? name fs).map fun (i, kind) => (i + 1, kind)

namespace RecordType

/--
The place and the kind of a field. Of several fields of one name the first is found.
-/
def find? (type : RecordType) (name : String) : Option (Nat × Kind) :=
  Field.find? name type.fields

def slot? (type : RecordType) (name : String) : Option Nat :=
  (type.find? name).map (·.1)

def kind? (type : RecordType) (name : String) : Option Kind :=
  (type.find? name).map (·.2)

end RecordType

theorem Field.find?_eq_some {name : String} {fields : List Field} {i : Nat} {kind : Kind}
    (h : Field.find? name fields = some (i, kind)) : fields[i]? = some ⟨name, kind⟩ := by
  induction fields generalizing i with
  | nil => simp [Field.find?] at h
  | cons f fs ih =>
    rw [Field.find?] at h
    split at h
    · next hname =>
      simp only [Option.some.injEq, Prod.mk.injEq] at h
      obtain ⟨rfl, rfl⟩ := h
      cases f
      simp [← hname]
    · simp only [Option.map_eq_some_iff, Prod.exists, Prod.mk.injEq] at h
      obtain ⟨j, k, hfound, rfl, rfl⟩ := h
      simpa using ih hfound

theorem Field.find?_eq_none_iff {name : String} {fields : List Field} :
    Field.find? name fields = none ↔ name ∉ fields.map (·.name) := by
  induction fields with
  | nil => simp [Field.find?]
  | cons f fs ih =>
    by_cases h : f.name = name
    · simp [Field.find?, h]
    · simp [Field.find?, h, ih, Ne.symm h]

end RowTree
