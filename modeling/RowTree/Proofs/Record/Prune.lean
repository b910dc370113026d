import RowTree.Proofs.Record.Filled

/-!
This module contains what pruning keeps. A pruned value holds the same scalars as the value, and
as many elements in each collection (`Value.alike_pruned`); values of one kind that agree in these
are equal when pruned (`Value.pruned_eq_iff`), and so are records (`Record.pruned_eq_iff`).
-/

namespace RowTree

namespace Value

theorem isUnset_iff {value : Value} : value.isUnset = true ↔ value = .unset := by
  cases value <;> simp [isUnset]

theorem Alike.trans {a b c : Value} (hab : a.Alike b) (hbc : b.Alike c) : a.Alike c :=
  fun place => ⟨(hab place).1.trans (hbc place).1, (hab place).2.trans (hbc place).2⟩

/-! ## Places of a pruned value -/

theorem pruned_unset : Value.unset.pruned = .unset := rfl

theorem pruned_scalar (s : Scalar) : (Value.scalar s).pruned = .scalar s := rfl

theorem pruned_nested (type : RecordType) (slots : List Value) :
    (Value.nested ⟨type, slots⟩).pruned =
      if (slots.map Value.pruned).all Value.isUnset then .unset
      else .nested ⟨type, slots.map Value.pruned⟩ := by
  rw [Value.pruned, Record.pruned, prunedList_eq_map]

theorem pruned_collection (items : List Value) :
    (Value.collection items).pruned =
      if (items.map Value.pruned).isEmpty then .unset
      else .collection (items.map Value.pruned) := by
  rw [Value.pruned, prunedList_eq_map, List.isEmpty_map]

theorem getD_map_pruned (values : List Value) (i : Nat) :
    (values.map Value.pruned)[i]?.getD .unset = (values[i]?.getD .unset).pruned := by
  rw [List.getElem?_map]
  cases values[i]? with
  | none => rfl
  | some value => rfl

theorem getD_of_all_isUnset {values : List Value} (h : values.all Value.isUnset = true) (i : Nat) :
    values[i]?.getD .unset = .unset := by
  cases hvalue : values[i]? with
  | none => rfl
  | some value =>
    exact isUnset_iff.1 (List.all_eq_true.1 h value (List.mem_of_getElem? hvalue))

theorem part_pruned (value : Value) (step : Step) :
    value.pruned.part step = (value.part step).pruned := by
  cases value with
  | unset => rw [pruned_unset, part_unset, pruned_unset]
  | scalar s => rw [pruned_scalar, part_scalar, pruned_unset]
  | nested record =>
    obtain ⟨type, slots⟩ := record
    rw [pruned_nested]
    by_cases hall : (slots.map Value.pruned).all Value.isUnset = true
    · rw [if_pos hall, part_unset]
      cases step with
      | item i => rfl
      | slot i => rw [part, ← getD_map_pruned, getD_of_all_isUnset hall]
    · rw [if_neg hall]
      cases step with
      | item i => rfl
      | slot i => rw [part, part, getD_map_pruned]
  | collection items =>
    rw [pruned_collection]
    by_cases hempty : (items.map Value.pruned).isEmpty = true
    · rw [if_pos hempty, part_unset]
      cases step with
      | slot i => rfl
      | item i => rw [part, ← getD_map_pruned, List.isEmpty_iff.1 hempty]; rfl
    · rw [if_neg hempty]
      cases step with
      | slot i => rfl
      | item i => rw [part, part, getD_map_pruned]

theorem get_pruned (value : Value) (place : Place) :
    value.pruned.get place = (value.get place).pruned := by
  induction place generalizing value with
  | nil => rfl
  | cons step place ih => rw [get_cons, get_cons, part_pruned, ih]

theorem count_pruned (value : Value) : value.pruned.count = value.count := by
  cases value with
  | unset => rfl
  | scalar s => rfl
  | nested record =>
    cases record
    rw [pruned_nested]
    split <;> rfl
  | collection items =>
    have hlength : (items.map Value.pruned).length = items.length := List.length_map _
    rw [pruned_collection]
    split
    · next hempty =>
      rw [List.isEmpty_iff.1 hempty] at hlength
      exact hlength
    · exact hlength

theorem scalar?_pruned (value : Value) : value.pruned.scalar? = value.scalar? := by
  cases value with
  | unset => rfl
  | scalar s => rfl
  | nested record =>
    cases record
    rw [pruned_nested]
    split <;> rfl
  | collection items =>
    rw [pruned_collection]
    split <;> rfl

theorem alike_pruned (value : Value) : value.Alike value.pruned := by
  intro place
  rw [get_pruned, count_pruned, scalar?_pruned]
  exact ⟨rfl, rfl⟩

/-! ## Equality of pruned values -/

theorem pruned_eq_unset_of_alike {value : Value} (halike : Value.unset.Alike value) :
    value.pruned = .unset := by
  induction value using part_induction with
  | h value ih =>
    have hpart : ∀ step, (value.part step).pruned = .unset := by
      intro step
      by_cases hset : value.part step = .unset
      · rw [hset, pruned_unset]
      · have hstep := halike.part step
        rw [part_unset] at hstep
        exact ih step hset hstep
    cases value with
    | unset => rfl
    | scalar s => cases (halike []).2
    | nested record =>
      obtain ⟨type, slots⟩ := record
      have hslots : ∀ slot ∈ slots, slot.pruned = .unset := by
        intro slot hslot
        obtain ⟨i, hi, rfl⟩ := List.mem_iff_getElem.1 hslot
        have hslot := hpart (.slot i)
        rw [part, List.getElem?_eq_getElem hi] at hslot
        exact hslot
      rw [pruned_nested, if_pos]
      simpa [isUnset_iff] using hslots
    | collection items =>
      have hlength : 0 = items.length := (halike []).1
      rw [List.eq_nil_of_length_eq_zero hlength.symm]
      rfl

theorem map_pruned_eq {values others : List Value} (hlength : values.length = others.length)
    (h : ∀ i < values.length,
      (values[i]?.getD .unset).pruned = (others[i]?.getD .unset).pruned) :
    values.map Value.pruned = others.map Value.pruned := by
  apply List.ext_getElem (by simpa using hlength)
  intro i hi hi'
  rw [List.length_map] at hi hi'
  have hvalue := h i hi
  rw [List.getElem?_eq_getElem hi, List.getElem?_eq_getElem hi'] at hvalue
  rw [List.getElem_map, List.getElem_map]
  exact hvalue

theorem SlotsConform.map_pruned_eq {type : RecordType} {slots others : List Value}
    (h : Value.SlotsConform slots type.fields) (h' : Value.SlotsConform others type.fields)
    (hslot : ∀ (i : Nat) (field : Field), type.fields[i]? = some field →
      (slots[i]?.getD .unset).pruned = (others[i]?.getD .unset).pruned) :
    slots.map Value.pruned = others.map Value.pruned := by
  apply Value.map_pruned_eq (h.length_eq.trans h'.length_eq.symm)
  intro i hi
  exact hslot i _ (List.getElem?_eq_getElem (h.length_eq ▸ hi))

theorem pruned_eq_of_alike {value other : Value} {kind : Kind} (h : value.Conforms kind)
    (h' : other.Conforms kind) (halike : value.Alike other) : value.pruned = other.pruned := by
  induction value using part_induction generalizing other kind with
  | h value ih =>
    have hpart : ∀ step inner, (value.part step).Conforms inner → (other.part step).Conforms inner →
        (value.part step).pruned = (other.part step).pruned := by
      -- the induction reaches the parts that are set; the others hold nothing on either side
      intro step inner hinner hinner'
      by_cases hset : value.part step = .unset
      · have hstep := halike.part step
        rw [hset] at hstep ⊢
        rw [pruned_eq_unset_of_alike hstep, pruned_unset]
      · exact ih step hset hinner hinner' (halike.part step)
    cases value with
    | unset => rw [pruned_eq_unset_of_alike halike, pruned_unset]
    | scalar s =>
      have hscalar := (halike []).2
      rw [get_nil, get_nil] at hscalar
      rw [scalar?_eq_some_iff.1 hscalar.symm]
    | nested record =>
      obtain ⟨type, slots⟩ := record
      obtain ⟨rfl, hslots⟩ := conforms_nested_iff.1 h
      cases other with
      | unset => rw [pruned_eq_unset_of_alike halike.symm, pruned_unset]
      | scalar s => simp [Value.Conforms] at h'
      | nested record' =>
        obtain ⟨type', others⟩ := record'
        obtain ⟨htype, hothers⟩ := conforms_nested_iff.1 h'
        rw [Kind.nested.injEq] at htype
        subst htype
        rw [pruned_nested, pruned_nested, hslots.map_pruned_eq hothers]
        intro i field hfield
        exact hpart (.slot i) field.kind (h.part_slot hfield) (h'.part_slot hfield)
      | collection items => simp [Value.Conforms] at h'
    | collection items =>
      obtain ⟨element, rfl, _⟩ := conforms_collection_iff.1 h
      cases other with
      | unset => rw [pruned_eq_unset_of_alike halike.symm, pruned_unset]
      | scalar s => simp [Value.Conforms] at h'
      | nested record => simp [Value.Conforms] at h'
      | collection others =>
        have hmap : items.map Value.pruned = others.map Value.pruned := by
          apply map_pruned_eq (halike []).1
          intro i _
          exact hpart (.item i) _ (h.part_item i) (h'.part_item i)
        rw [pruned_collection, pruned_collection, hmap]

theorem alike_of_pruned_eq {value other : Value} (h : value.pruned = other.pruned) :
    value.Alike other := by
  apply (alike_pruned value).trans
  rw [h]
  exact (alike_pruned other).symm

/--
Values of one kind differ in containers that hold nothing at most exactly if they hold the same
scalars and as many elements in each collection.
-/
theorem pruned_eq_iff {value other : Value} {kind : Kind} (h : value.Conforms kind)
    (h' : other.Conforms kind) : value.pruned = other.pruned ↔ value.Alike other :=
  ⟨alike_of_pruned_eq, pruned_eq_of_alike h h'⟩

end Value

theorem Record.pruned_eq_iff {record other : Record} (h : record.Conforms) (h' : other.Conforms)
    (htype : record.type = other.type) :
    record.pruned = other.pruned ↔ (Value.nested record).Alike (.nested other) := by
  constructor
  · intro hpruned
    apply Value.alike_of_pruned_eq
    rw [Value.pruned, Value.pruned, hpruned]
  · intro halike
    have hnested := h.nested
    have hnested' := h'.nested
    obtain ⟨type, slots⟩ := record
    obtain ⟨type', others⟩ := other
    obtain rfl : type = type' := htype
    have hmap : slots.map Value.pruned = others.map Value.pruned := by
      apply hnested.slotsAs.map_pruned_eq hnested'.slotsAs
      intro i field hfield
      exact (Value.pruned_eq_iff (hnested.part_slot hfield) (hnested'.part_slot hfield)).2
        (halike.part (.slot i))
    rw [Record.pruned, Record.pruned, Value.prunedList_eq_map, Value.prunedList_eq_map, hmap]

end RowTree
