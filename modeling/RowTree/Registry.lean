import RowTree.Schema.Error

/-!
This module holds registries of types by name. The primitives are in every registry and in front;
record types are added one by one, each under a name that is not taken.
-/

namespace RowTree

inductive NamedType where
  | primitive (p : Primitive)
  | record (type : RecordType)

def NamedType.kind : NamedType → Kind
  | .primitive p => .primitive p
  | .record type => .nested type

/--
The record types under their names, in the order in which they were registered.
-/
structure Registry where
  records : List (String × RecordType)

namespace Registry

def empty : Registry :=
  ⟨[]⟩

def record? (registry : Registry) (name : String) : Option RecordType :=
  registry.records.lookup name

def find? (registry : Registry) (name : String) : Option NamedType :=
  match Primitive.ofName? name with
  | some p => some (.primitive p)
  | none => (registry.record? name).map .record

def isDefined (registry : Registry) (name : String) : Bool :=
  (registry.find? name).isSome

def names (registry : Registry) : List String :=
  Primitive.all.map (·.name) ++ registry.records.map (·.1)

def size (registry : Registry) : Nat :=
  registry.names.length

def recordCount (registry : Registry) : Nat :=
  registry.records.length

def register (registry : Registry) (name : String) (type : RecordType) :
    Except SchemaError Registry :=
  if registry.isDefined name then
    .error (.duplicateType name)
  else
    .ok ⟨registry.records ++ [(name, type)]⟩

def registerAll (registry : Registry) : List RecordType → Except SchemaError Registry
  | [] => .ok registry
  | type :: rest => do
    let larger ← registry.register type.name type
    larger.registerAll rest

def resolve (registry : Registry) (name : String) : Except SchemaError NamedType :=
  match registry.find? name with
  | some type => .ok type
  | none => .error (.unknownType name "registry lookup")

def resolveRecord (registry : Registry) (name : String) : Except SchemaError RecordType :=
  match registry.resolve name with
  | .ok (.record type) => .ok type
  | .ok (.primitive _) => .error (.unknownType name "record type lookup")
  | .error error => .error error

def kind? (registry : Registry) (typeName : String) (isCollection : Bool) : Option Kind :=
  (registry.find? typeName).map fun type =>
    if isCollection then .collection type.kind else type.kind

theorem mem_names_iff {registry : Registry} {name : String} :
    name ∈ registry.names ↔ Primitive.isName name = true ∨ name ∈ registry.records.map (·.1) := by
  have hprimitive : name ∈ Primitive.all.map (·.name) ↔ Primitive.isName name = true := by
    rw [Primitive.isName, Option.isSome_iff_exists, List.mem_map]
    constructor
    · rintro ⟨p, _, rfl⟩
      exact ⟨p, p.ofName?_name⟩
    · rintro ⟨p, hp⟩
      exact ⟨p, p.mem_all, (Primitive.ofName?_eq_some_iff.1 hp).symm⟩
  rw [names, List.mem_append, hprimitive]

theorem isDefined_iff {registry : Registry} {name : String} :
    registry.isDefined name = true ↔ name ∈ registry.names := by
  rw [mem_names_iff, isDefined, find?, Primitive.isName]
  cases Primitive.ofName? name with
  | some p => simp
  | none =>
    have hrecord : (registry.record? name).isSome ↔ name ∈ registry.records.map (·.1) := by
      rw [record?, List.lookup_isSome_iff, List.mem_map]
      simp only [beq_iff_eq, @eq_comm _ name]
    simpa using hrecord

theorem names_of_register {registry larger : Registry} {name : String} {type : RecordType}
    (h : registry.register name type = .ok larger) : larger.names = registry.names ++ [name] := by
  rw [register] at h
  split at h
  · cases h
  · cases h
    simp [names]

theorem not_mem_names_of_register {registry larger : Registry} {name : String} {type : RecordType}
    (h : registry.register name type = .ok larger) : name ∉ registry.names := by
  intro hmem
  rw [register, if_pos (isDefined_iff.2 hmem)] at h
  cases h

end Registry

end RowTree
