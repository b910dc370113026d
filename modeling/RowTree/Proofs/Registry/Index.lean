import Mathlib.Logic.Function.Basic
import RowTree.Proofs.Schema.Registration

/-!
This module contains registries that keep the place of each name beside their entries. An entry is
put at the end and its place is set, whatever was set before. This does to entries and places what
registering does to a registry (`Registry.register_indexed`), and a look-up by place finds what the
registry finds (`Registry.resolve_indexed`), so the two parts stay in step.
-/

namespace RowTree

/--
Entries in the order in which they were put there, and the places of their names.
-/
structure IndexedRegistry where
  entries : List (String × NamedType)
  places : String → Option Nat

namespace IndexedRegistry

def insert (registry : IndexedRegistry) (name : String) (type : NamedType) : IndexedRegistry where
  entries := registry.entries ++ [(name, type)]
  places := Function.update registry.places name (some registry.entries.length)

def new : IndexedRegistry :=
  Primitive.all.foldl (fun registry p => registry.insert p.name (.primitive p)) ⟨[], fun _ => none⟩

def names (registry : IndexedRegistry) : List String :=
  registry.entries.map (·.1)

def register (registry : IndexedRegistry) (name : String) (type : RecordType) :
    Except SchemaError IndexedRegistry :=
  if (registry.places name).isSome then
    .error (.duplicateType name)
  else
    .ok (registry.insert name (.record type))

/--
What stands at the place of the name. `beyond` is for a place behind the end.
-/
def resolve (beyond : Except SchemaError NamedType) (registry : IndexedRegistry) (name : String) :
    Except SchemaError NamedType :=
  match registry.places name with
  | none => .error (.unknownType name "registry lookup")
  | some i =>
    match registry.entries[i]? with
    | some entry => .ok entry.2
    | none => beyond

/--
How many entries there are besides the primitives, unless they are fewer than the primitives.
-/
def recordCount? (registry : IndexedRegistry) : Option Nat :=
  if Primitive.all.length ≤ registry.entries.length then
    some (registry.entries.length - Primitive.all.length)
  else
    none

def ofEntries (entries : List (String × NamedType)) : IndexedRegistry :=
  ⟨entries, fun name => (entries.map (·.1)).idxOf? name⟩

variable {entries : List (String × NamedType)} {name : String}

theorem idxOf?_append_singleton (names : List String) (name other : String) :
    (names ++ [name]).idxOf? other =
      (names.idxOf? other).or (if name = other then some names.length else none) := by
  unfold List.idxOf?
  rw [List.findIdx?_append]
  by_cases h : name = other <;> simp [List.findIdx?_cons, h]

theorem insert_ofEntries (h : name ∉ entries.map (·.1)) (type : NamedType) :
    (ofEntries entries).insert name type = ofEntries (entries ++ [(name, type)]) := by
  unfold insert ofEntries
  rw [IndexedRegistry.mk.injEq]
  refine ⟨rfl, ?_⟩
  funext other
  rw [Function.update_apply, List.map_append, List.map_singleton, idxOf?_append_singleton,
    List.length_map]
  split
  · next heq =>
    rw [heq, List.idxOf?_eq_none_iff.2 h, if_pos rfl]
    rfl
  · next hne => rw [if_neg (Ne.symm hne), Option.or_none]

theorem foldl_insert_primitives {ps : List Primitive}
    (h : (entries.map (·.1) ++ ps.map (·.name)).Nodup) :
    ps.foldl (fun registry p => registry.insert p.name (.primitive p)) (ofEntries entries) =
      ofEntries (entries ++ ps.map fun p => (p.name, .primitive p)) := by
  induction ps generalizing entries with
  | nil => simp
  | cons p rest ih =>
    have hp : p.name ∉ entries.map (·.1) := by
      intro hmem
      exact List.disjoint_of_nodup_append h hmem (by simp)
    rw [List.foldl_cons, insert_ofEntries hp, ih]
    · simp
    · simpa using h

theorem lookup_eq_bind_idxOf? (entries : List (String × NamedType)) (name : String) :
    entries.lookup name =
      ((entries.map (·.1)).idxOf? name).bind fun i => entries[i]?.map (·.2) := by
  induction entries with
  | nil => rfl
  | cons entry rest ih =>
    obtain ⟨first, type⟩ := entry
    rw [List.lookup_cons, List.map_cons, List.idxOf?_cons]
    by_cases h : name = first
    · simp [h]
    · have hne : (name == first) = false := beq_eq_false_iff_ne.2 h
      rw [hne, ih, if_neg (by simpa using Ne.symm h)]
      cases (rest.map (·.1)).idxOf? name <;> simp

end IndexedRegistry

/-! ## Registries with places -/

namespace Registry

variable {registry : Registry} {name : String}

def entries (registry : Registry) : List (String × NamedType) :=
  Primitive.all.map (fun p => (p.name, .primitive p)) ++
    registry.records.map fun record => (record.1, .record record.2)

theorem names_entries (registry : Registry) : registry.entries.map (·.1) = registry.names := by
  simp [entries, names, Function.comp_def]

def indexed (registry : Registry) : IndexedRegistry :=
  .ofEntries registry.entries

theorem indexed_empty : empty.indexed = IndexedRegistry.new := by
  have hnodup :
      (([] : List (String × NamedType)).map (·.1) ++ Primitive.all.map (·.name)).Nodup :=
    Primitive.nodup_all_names
  have hnew := IndexedRegistry.foldl_insert_primitives hnodup
  rw [indexed, entries, empty, List.map_nil, List.append_nil]
  exact hnew.symm

theorem find?_eq_lookup (registry : Registry) (name : String) :
    registry.find? name = registry.entries.lookup name := by
  have hprimitives (ps : List Primitive) :
      (ps.map fun p => (p.name, NamedType.primitive p)).lookup name =
        (ps.find? (·.name == name)).map .primitive := by
    induction ps with
    | nil => rfl
    | cons p rest ih =>
      rw [List.map_cons, List.lookup_cons, List.find?_cons, ih, Bool.beq_comm]
      cases p.name == name <;> rfl
  have hrecords (records : List (String × RecordType)) :
      (records.map fun record => (record.1, NamedType.record record.2)).lookup name =
        (records.lookup name).map .record := by
    induction records with
    | nil => rfl
    | cons record rest ih =>
      rw [List.map_cons, List.lookup_cons, List.lookup_cons, ih]
      split <;> rfl
  rw [entries, List.lookup_append, hprimitives, hrecords, find?, Primitive.ofName?, record?]
  cases Primitive.all.find? (·.name == name) <;> rfl

theorem register_indexed (registry : Registry) (name : String) (type : RecordType) :
    registry.indexed.register name type = (registry.register name type).map indexed := by
  have hdefined : (registry.indexed.places name).isSome = registry.isDefined name := by
    rw [Bool.eq_iff_iff, isDefined_iff, ← names_entries, indexed, IndexedRegistry.ofEntries]
    exact List.isSome_idxOf?
  unfold IndexedRegistry.register register
  rw [hdefined]
  split
  · rfl
  · next hfree =>
    rw [isDefined_iff, ← names_entries] at hfree
    rw [indexed, IndexedRegistry.insert_ofEntries hfree]
    simp [Except.map, indexed, entries]

theorem resolve_indexed (beyond : Except SchemaError NamedType) (registry : Registry)
    (name : String) : registry.indexed.resolve beyond name = registry.resolve name := by
  unfold IndexedRegistry.resolve resolve
  rw [find?_eq_lookup, IndexedRegistry.lookup_eq_bind_idxOf?, indexed, IndexedRegistry.ofEntries]
  dsimp only
  cases hplace : (registry.entries.map (·.1)).idxOf? name with
  | none => rfl
  | some i =>
    -- no place is behind the end
    obtain ⟨hi, _⟩ := List.idxOf?_eq_some_iff.1 hplace
    rw [List.length_map] at hi
    simp only [Option.bind_some, List.getElem?_eq_getElem hi, Option.map_some]

theorem recordCount?_indexed (registry : Registry) :
    registry.indexed.recordCount? = some registry.recordCount := by
  simp [IndexedRegistry.recordCount?, indexed, IndexedRegistry.ofEntries, entries, recordCount]

theorem places_indexed_iff (hnodup : registry.names.Nodup) {i : Nat} :
    registry.indexed.places name = some i ↔ registry.names[i]? = some name := by
  rw [indexed, IndexedRegistry.ofEntries, names_entries]
  dsimp only
  rw [List.idxOf?_eq_some_iff, List.getElem?_eq_some_iff]
  refine exists_congr fun hi => ?_
  rw [and_iff_left_iff_imp]
  rintro rfl j hj heq
  exact absurd (hnodup.getElem_inj_iff.1 heq) (Nat.ne_of_lt hj)

end Registry

end RowTree
