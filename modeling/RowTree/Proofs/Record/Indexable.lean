import RowTree.Proofs.Record.Leaves
import RowTree.Proofs.Record.Run

/-!
This module contains why the elements of a record have indices that paths can name. A write appends
an element behind an index that it has read from its path, so this is kept along every run
(`Record.Reached.indexable`).
-/

namespace RowTree

namespace Value

variable {value other : Value}

theorem Indexable.of_alike (h : value.Indexable) (halike : value.Alike other) :
    other.Indexable := by
  intro before i hi
  rw [← (halike before).1] at hi
  exact h before i hi

theorem Indexable.of_stored (h : value.Indexable) {s : Scalar} {path : Path} {place : Place}
    {kind found : Kind} (hvalue : value.Conforms kind)
    (hplace : kind.locate? path = some (place, found))
    (hstored : Stored s place kind value other) : other.Indexable := by
  intro before i hi
  rw [hstored.lt_count_get_iff hvalue] at hi
  rcases hi with hi | hi
  · exact h before i hi
  · exact Kind.item_lt_of_locate? hplace hi

theorem indexable_empty (type : RecordType) : (Value.nested (.empty type)).Indexable := by
  intro before i hi
  cases before with
  | nil => exact absurd hi (Nat.not_lt_zero i)
  | cons step before =>
    rw [get_cons, part_slot_empty, get_unset] at hi
    exact absurd hi (Nat.not_lt_zero i)

end Value

namespace Record

theorem indexable_write {record : Record} (h : record.Conforms)
    (hindexable : (Value.nested record).Indexable) (path : Path) (scalar : Scalar) :
    (Value.nested (record.write path scalar).value).Indexable := by
  rcases write_effect h path scalar with ⟨_, place, s, hplace, _, hstored⟩ | ⟨_, htouched⟩
  · exact hindexable.of_stored h.nested hplace hstored
  · exact hindexable.of_alike (htouched.alike h.nested)

theorem Reached.indexable {type : RecordType} {record : Record} (h : record.Reached type) :
    (Value.nested record).Indexable := by
  obtain ⟨calls, rfl⟩ := h
  have hwrite (record : Record) (path : Path) (scalar : Scalar)
      (h : record.Conforms ∧ (Value.nested record).Indexable) :
      (record.write path scalar).value.Conforms ∧
        (Value.nested (record.write path scalar).value).Indexable :=
    ⟨h.1.write path scalar, indexable_write h.1 h.2 path scalar⟩
  have hempty := And.intro (conforms_empty type) (Value.indexable_empty type)
  exact (run_preserves hwrite hempty calls).2

end Record

end RowTree
