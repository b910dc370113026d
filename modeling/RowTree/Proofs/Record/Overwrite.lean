import RowTree.Proofs.Record.RoundTrip

/-!
This module contains what becomes of a scalar that is written over. Of two successful writes at one
path the first leaves no trace, also where it appended elements that the second finds; and writing
what a path reads changes nothing (`Record.write_overwrites`).
-/

namespace RowTree

namespace Value

/-! ## Storing twice at one place -/

namespace Stored

variable {s t : Scalar} {place : Place} {kind : Kind} {value new other : Value}

theorem get_eq_unset_iff (h : Stored s place kind value new) (hvalue : value.Conforms kind)
    {before : Place} : new.get before = .unset ↔ value.get before = .unset ∧ ¬before <+: place := by
  by_cases hfront : before <+: place
  · obtain ⟨rest, rfl⟩ := hfront
    obtain ⟨inner, _, hstored⟩ := h.get_of_append hvalue
    simp [hstored.ne_unset]
  · rw [h.get_of_not_on_way hvalue hfront]
    simp [hfront]

/--
What was stored at a place before leaves no trace.
-/
theorem eq_of_stored {last : Value} (h : Stored s place kind value new)
    (h' : Stored t place kind new last) (hvalue : value.Conforms kind)
    (hother : Stored t place kind value other) : last = other := by
  have hnew := h.conforms hvalue
  apply eq_of_places (h'.conforms hnew) (hother.conforms hvalue)
  · intro before
    constructor
    · apply eq_of_forall_lt_iff
      intro i
      rw [h'.lt_count_get_iff hnew, h.lt_count_get_iff hvalue, hother.lt_count_get_iff hvalue,
        or_assoc, or_self]
    · rw [h'.scalar?_get hnew, h.scalar?_get hvalue, hother.scalar?_get hvalue]
      split <;> rfl
  · intro before
    rw [h'.get_eq_unset_iff hnew, h.get_eq_unset_iff hvalue, hother.get_eq_unset_iff hvalue,
      and_assoc, and_self]

theorem count_get_of_set (h : Stored s place kind value new) (hvalue : value.Conforms kind)
    (hset : value.get place ≠ .unset) (before : Place) :
    (new.get before).count = (value.get before).count := by
  apply eq_of_forall_lt_iff
  intro i
  rw [h.lt_count_get_iff hvalue]
  exact or_iff_left_of_imp fun hfront => lt_count_of_front hset hfront

theorem get_eq_unset_iff_of_set (h : Stored s place kind value new) (hvalue : value.Conforms kind)
    (hset : value.get place ≠ .unset) (before : Place) :
    new.get before = .unset ↔ value.get before = .unset := by
  rw [h.get_eq_unset_iff hvalue]
  exact and_iff_left_of_imp fun hunset hfront => get_ne_unset_of_front hset hfront hunset

theorem eq_self (h : Stored s place kind value new) (hvalue : value.Conforms kind)
    (hget : value.get place = .scalar s) : new = value := by
  have hset : value.get place ≠ .unset := by simp [hget]
  apply eq_of_places (h.conforms hvalue) hvalue
  · intro before
    refine ⟨h.count_get_of_set hvalue hset before, ?_⟩
    rw [h.scalar?_get hvalue]
    split
    · next hplace =>
      rw [hplace, hget]
      rfl
    · rfl
  · exact h.get_eq_unset_iff_of_set hvalue hset

end Stored

end Value

namespace Record

variable {record : Record}

/-! ## Writing twice at one path -/

theorem error?_write_of_write (h : record.Conforms) {path : Path} {v w : Scalar}
    (hv : (record.write path v).error? = none)
    (hw : ((record.write path v).value.write path w).error? = none) :
    (record.write path w).error? = none := by
  rw [error?_write_eq_none_iff h] at hv ⊢
  rw [error?_write_eq_none_iff (h.write path v), type_write] at hw
  obtain ⟨place, _, hplace, _, hroom⟩ := hv
  obtain ⟨place', t, hplace', ht, _⟩ := hw
  -- the path leads to one place, where the record had room before the first write
  rw [hplace, Option.some.injEq, Prod.mk.injEq] at hplace'
  obtain ⟨rfl, hkind⟩ := hplace'
  rw [hkind] at hplace
  exact ⟨place, t, hplace, ht, hroom⟩

theorem write_write_eq (h : record.Conforms) {path : Path} {v w : Scalar}
    (hv : (record.write path v).error? = none)
    (hw : ((record.write path v).value.write path w).error? = none) :
    ((record.write path v).value.write path w).value = (record.write path w).value := by
  obtain ⟨place, s, hplace, _, hstored⟩ := stored_write h hv
  obtain ⟨place', t, hplace', ht, hstored'⟩ := stored_write (h.write path v) hw
  obtain ⟨other, t', hother, ht', halone⟩ := stored_write h (error?_write_of_write h hv hw)
  rw [type_write] at hplace' hstored'
  -- all three writes lead to one place and one kind, and two of them write one scalar
  rw [hplace, Option.some.injEq, Prod.mk.injEq, Kind.primitive.injEq] at hplace' hother
  obtain ⟨rfl, hkind⟩ := hplace'
  obtain ⟨rfl, hkind'⟩ := hother
  rw [← hkind] at ht
  rw [← hkind', ht, Option.some.injEq] at ht'
  subst ht'
  exact Value.nested.inj (hstored.eq_of_stored hstored' h.nested halone)

theorem write_read?_eq (h : record.Conforms) {path : Path} {s : Scalar}
    (hread : record.read? path = some (.scalar s)) :
    (record.write path s).error? = none ∧ (record.write path s).value = record := by
  obtain ⟨_, place, kind, hplace, hget, _⟩ := (read?_eq_some_iff h.nested).1 hread
  have hkind := h.nested.get_of_locate? hplace
  rw [hget, Value.Conforms] at hkind
  subst hkind
  have hroom : (Value.nested record).HasRoom place := by
    apply Value.hasRoom_of_get_ne_unset
    simp [hget]
  have hok : (record.write path s).error? = none :=
    (error?_write_eq_none_iff h).2 ⟨place, s, hplace, Primitive.coerce?_self s, hroom⟩
  obtain ⟨place', t, hplace', ht, hstored⟩ := stored_write h hok
  rw [hplace, Option.some.injEq, Prod.mk.injEq, Kind.primitive.injEq] at hplace'
  obtain ⟨rfl, hkind⟩ := hplace'
  rw [← hkind, Primitive.coerce?_self, Option.some.injEq] at ht
  subst ht
  exact ⟨hok, Value.nested.inj (hstored.eq_self h.nested hget)⟩

/--
Of two successful writes at one path only the second one counts: alone it succeeds as well, and
makes the same record. Writing a scalar where it is read succeeds and changes nothing. Both are
said of the trees; the records are also equal as values if no number in them is undefined.
-/
theorem write_overwrites {type : RecordType} (h : record.Reached type) (segments : List String) :
    let path := Path.ofSegments segments
    (∀ v w : Scalar, (record.write path v).error? = none →
      ((record.write path v).value.write path w).error? = none →
        (record.write path w).error? = none ∧
          ((record.write path v).value.write path w).value = (record.write path w).value ∧
          ((∀ leaf ∈ (record.write path w).value.leaves, leaf.2.IsDefined) →
            ((record.write path v).value.write path w).value.same
              (record.write path w).value = true)) ∧
    ∀ s : Scalar, record.read? path = some (.scalar s) →
      (record.write path s).error? = none ∧
        (record.write path s).value = record ∧
        ((∀ leaf ∈ record.leaves, leaf.2.IsDefined) →
          (record.write path s).value.same record = true) := by
  intro path
  constructor
  · intro v w hv hw
    have heq := write_write_eq h.conforms hv hw
    refine ⟨error?_write_of_write h.conforms hv hw, heq, ?_⟩
    rw [heq]
    exact (h.conforms.write path w).same_self
  · intro s hread
    obtain ⟨hok, heq⟩ := write_read?_eq h.conforms hread
    refine ⟨hok, heq, ?_⟩
    rw [heq]
    exact h.conforms.same_self

theorem write_overwrites_items :
    let item : RecordType := ⟨"Item", [⟨"name", .primitive .string⟩, ⟨"count", .primitive .int⟩]⟩
    let type : RecordType :=
      ⟨"Row", [⟨"id", .primitive .bool⟩, ⟨"items", .collection (.nested item)⟩]⟩
    let record := (Record.empty type).run [.write ["items", "0", "name"] (.string "a")]
    let first := record.write (Path.ofSegments ["items", " 1 ", "count"]) (.string "7")
    let second := first.value.write (Path.ofSegments ["items", " 1 ", "count"]) (.uint 8)
    let kept := record.write (Path.ofSegments ["items", "+0", "name"]) (.string "a")
    record.Reached type ∧ first.error? = none ∧ second.error? = none ∧
      ((Value.nested record).get [.slot 1]).count = 1 ∧
      ((Value.nested first.value).get [.slot 1]).count = 2 ∧
      second.value =
        (record.write (Path.ofSegments ["items", " 1 ", "count"]) (.uint 8)).value ∧
      record.read? (Path.ofSegments ["items", "+0", "name"]) = some (.scalar (.string "a")) ∧
      kept.error? = none ∧ kept.value = record := by
  intro item type record first second kept
  have hreached : record.Reached type := ⟨_, rfl⟩
  have hfirst : first.error? = none := by decide
  have hsecond : second.error? = none := by decide
  have hread : record.read? (Path.ofSegments ["items", "+0", "name"]) =
      some (.scalar (.string "a")) := rfl
  have hitem := (write_overwrites hreached ["items", " 1 ", "count"]).1 _ _ hfirst hsecond
  have hkept := (write_overwrites hreached ["items", "+0", "name"]).2 _ hread
  exact ⟨hreached, hfirst, hsecond, by decide, by decide, hitem.2.1, hread, hkept.1, hkept.2.1⟩

end Record

end RowTree
