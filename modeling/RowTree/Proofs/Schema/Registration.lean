import RowTree.Registry
import Mathlib.Data.List.Nodup

/-!
This module contains registries as they grow. What is registered stands behind what was there
before (`records_of_register`), so that every name keeps what it stands for (`within_append`), and
no name is taken twice (`nodup_names_of_registerAll`).
-/

namespace RowTree

namespace Registry

variable {registry larger : Registry} {name : String} {type : RecordType}

/--
Whatever a name stands for in the first registry, it stands for in the second one.
-/
def Within (registry larger : Registry) : Prop :=
  ∀ name found, registry.find? name = some found → larger.find? name = some found

theorem Within.kind? (h : registry.Within larger) {typeName : String} {isCollection : Bool}
    {kind : Kind} (hkind : registry.kind? typeName isCollection = some kind) :
    larger.kind? typeName isCollection = some kind := by
  unfold Registry.kind? at hkind ⊢
  rw [Option.map_eq_some_iff] at hkind
  obtain ⟨found, hfound, hkind⟩ := hkind
  rw [h typeName found hfound, Option.map_some, hkind]

theorem within_append (records more : List (String × RecordType)) :
    (⟨records⟩ : Registry).Within ⟨records ++ more⟩ := by
  intro name found hfound
  unfold find? record? at hfound ⊢
  cases hprimitive : Primitive.ofName? name with
  | some p =>
    rw [hprimitive] at hfound
    exact hfound
  | none =>
    rw [hprimitive] at hfound
    dsimp only at hfound ⊢
    rw [Option.map_eq_some_iff] at hfound
    obtain ⟨type, htype, rfl⟩ := hfound
    rw [List.lookup_append, htype]
    rfl

theorem records_of_register (h : registry.register name type = .ok larger) :
    larger.records = registry.records ++ [(name, type)] := by
  unfold register at h
  split at h
  · cases h
  · cases h
    rfl

theorem registerAll_cons_eq_ok {rest : List RecordType}
    (h : registry.registerAll (type :: rest) = .ok larger) :
    ∃ next, registry.register type.name type = .ok next ∧ next.registerAll rest = .ok larger := by
  unfold registerAll at h
  cases hnext : registry.register type.name type with
  | error error =>
    rw [hnext] at h
    cases h
  | ok next =>
    rw [hnext] at h
    exact ⟨next, rfl, h⟩

theorem records_of_registerAll {types : List RecordType}
    (h : registry.registerAll types = .ok larger) :
    larger.records = registry.records ++ types.map fun type => (type.name, type) := by
  induction types generalizing registry with
  | nil =>
    cases h
    simp
  | cons type rest ih =>
    obtain ⟨next, hnext, hrest⟩ := registerAll_cons_eq_ok h
    rw [ih hrest, records_of_register hnext]
    simp

theorem entry_of_append {records more front back : List (String × RecordType)}
    {entry : String × RecordType} (h : records ++ more = front ++ entry :: back) :
    (∃ rest, records = front ++ entry :: rest) ∨
      ∃ rest, front = records ++ rest ∧ more = rest ++ entry :: back := by
  rw [List.append_eq_append_iff] at h
  rcases h with ⟨rest, hfront, hmore⟩ | ⟨rest, hrecords, hback⟩
  · exact .inr ⟨rest, hfront, hmore⟩
  · rw [List.cons_eq_append_iff] at hback
    rcases hback with ⟨rfl, hmore⟩ | ⟨rest, rfl, _⟩
    · exact .inr ⟨[], by simpa using hrecords.symm, hmore⟩
    · exact .inl ⟨rest, hrecords⟩

/-! ## Distinct names -/

theorem nodup_names_empty : empty.names.Nodup := by
  simpa [names, empty] using Primitive.nodup_all_names

theorem nodup_names_of_register (h : registry.register name type = .ok larger)
    (hnodup : registry.names.Nodup) : larger.names.Nodup := by
  have hfree := not_mem_names_of_register h
  rw [names_of_register h, ← List.concat_eq_append, List.nodup_concat]
  exact ⟨hfree, hnodup⟩

theorem nodup_names_of_registerAll {types : List RecordType}
    (h : registry.registerAll types = .ok larger) (hnodup : registry.names.Nodup) :
    larger.names.Nodup := by
  induction types generalizing registry with
  | nil =>
    cases h
    exact hnodup
  | cons type rest ih =>
    obtain ⟨next, hnext, hrest⟩ := registerAll_cons_eq_ok h
    exact ih hrest (nodup_names_of_register hnext hnodup)

theorem mem_records_of_record? (h : registry.record? name = some type) :
    (name, type) ∈ registry.records := by
  unfold record? at h
  obtain ⟨front, back, hsplit, _⟩ := List.lookup_eq_some_iff.1 h
  rw [hsplit]
  simp

theorem record?_eq_some_iff (hnodup : (registry.records.map (·.1)).Nodup) :
    registry.record? name = some type ↔ (name, type) ∈ registry.records := by
  constructor
  · exact mem_records_of_record?
  · intro hmem
    obtain ⟨front, back, hsplit⟩ := List.append_of_mem hmem
    rw [hsplit, List.map_append, List.nodup_append] at hnodup
    unfold record?
    rw [List.lookup_eq_some_iff]
    refine ⟨front, back, hsplit, ?_⟩
    intro entry hentry
    have hne := hnodup.2.2 entry.1 (List.mem_map_of_mem hentry) name (by simp)
    simpa using Ne.symm hne

theorem find?_eq_record_iff (hnodup : registry.names.Nodup) :
    registry.find? name = some (.record type) ↔ (name, type) ∈ registry.records := by
  unfold names at hnodup
  rw [List.nodup_append] at hnodup
  obtain ⟨_, hrecords, hapart⟩ := hnodup
  rw [← record?_eq_some_iff hrecords]
  unfold find?
  cases hprimitive : Primitive.ofName? name with
  | none => simp
  | some p =>
    -- a primitive's name is not registered
    have hname := Primitive.ofName?_eq_some_iff.1 hprimitive
    apply iff_of_false
    · simp
    · intro hrecord
      have hmem := List.mem_map_of_mem (f := (·.1)) ((record?_eq_some_iff hrecords).1 hrecord)
      exact hapart p.name (List.mem_map_of_mem p.mem_all) name hmem hname.symm

end Registry

end RowTree
