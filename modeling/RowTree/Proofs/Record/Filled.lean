import RowTree.Proofs.Record.Effect

/-!
This module contains the values without idle containers: each set value in them holds a scalar.
Successful writes keep such values, and they are determined by their scalars and the lengths of
their collections (`Value.eq_of_alike`). Other values are determined if it is known besides where
they are unset (`Value.eq_of_places`).
-/

namespace RowTree

namespace Value

/--
Wherever something stands in the value, there is a scalar below it.
-/
def Filled (value : Value) : Prop :=
  ∀ place, value.get place ≠ .unset → ∃ rest s, value.get (place ++ rest) = .scalar s

theorem filled_unset : Value.unset.Filled := by
  intro place hplace
  exact absurd (get_unset place) hplace

theorem Filled.part {value : Value} (h : value.Filled) (step : Step) :
    (value.part step).Filled :=
  fun place hplace => h (step :: place) hplace

theorem Filled.get {value : Value} (h : value.Filled) (place : Place) :
    (value.get place).Filled := by
  induction place generalizing value with
  | nil => exact h
  | cons step place ih => exact ih (h.part step)

theorem Stored.filled_part {s : Scalar} {place : Place} {kind : Kind} {value new : Value}
    (h : Stored s place kind value new) (hvalue : value.Conforms kind)
    (hfilled : ∀ step, (value.part step).Filled) (step : Step) : (new.part step).Filled := by
  intro before hbefore
  by_cases hway : step :: before <+: place
  · obtain ⟨rest, hrest⟩ := hway
    refine ⟨rest, s, ?_⟩
    have hself := h.get_self hvalue
    rw [← hrest] at hself
    exact hself
  · have hget := h.get_of_not_on_way hvalue hway
    rw [get_cons, get_cons] at hget
    rw [hget] at hbefore
    obtain ⟨rest, t, ht⟩ := hfilled step before hbefore
    refine ⟨rest, t, ?_⟩
    have hrest : ¬step :: (before ++ rest) <+: place :=
      fun hfront => hway ((List.prefix_append (step :: before) rest).trans hfront)
    have hgetrest := h.get_of_not_on_way hvalue hrest
    rw [get_cons, get_cons] at hgetrest
    rw [hgetrest, ht]

theorem Filled.eq_unset {value : Value} (h : value.Filled) (halike : Value.unset.Alike value) :
    value = .unset := by
  apply Classical.byContradiction
  intro hset
  obtain ⟨rest, s, hs⟩ := h [] hset
  have hscalar := (halike rest).2
  rw [List.nil_append] at hs
  rw [get_unset, hs] at hscalar
  cases hscalar

/-! ## Extensionality -/

theorem sizeOf_part_lt {value : Value} {step : Step} (h : value.part step ≠ .unset) :
    sizeOf (value.part step) < sizeOf value := by
  cases value with
  | unset => simp at h
  | scalar s => simp at h
  | nested record =>
    cases step with
    | item i => exact absurd rfl h
    | slot i =>
      obtain ⟨type, slots⟩ := record
      dsimp only [part] at h ⊢
      cases hslot : slots[i]? with
      | none => simp [hslot] at h
      | some inner =>
        have hmem := List.sizeOf_lt_of_mem (List.mem_of_getElem? hslot)
        simp only [Option.getD_some, Value.nested.sizeOf_spec, Record.mk.sizeOf_spec]
        omega
  | collection items =>
    cases step with
    | slot i => exact absurd rfl h
    | item i =>
      dsimp only [part] at h ⊢
      cases hitem : items[i]? with
      | none => simp [hitem] at h
      | some inner =>
        have hmem := List.sizeOf_lt_of_mem (List.mem_of_getElem? hitem)
        simp only [Option.getD_some, Value.collection.sizeOf_spec]
        omega

theorem part_induction {motive : Value → Prop}
    (h : ∀ value, (∀ step, value.part step ≠ .unset → motive (value.part step)) → motive value)
    (value : Value) : motive value :=
  h value fun step _hstep => part_induction h (value.part step)
termination_by sizeOf value
decreasing_by exact sizeOf_part_lt _hstep

theorem eq_of_part_slot {type : RecordType} {slots others : List Value}
    (hlength : slots.length = others.length)
    (h : ∀ i < slots.length, (Value.nested ⟨type, slots⟩).part (.slot i) =
      (Value.nested ⟨type, others⟩).part (.slot i)) : slots = others := by
  apply List.ext_getElem hlength
  intro i hi hi'
  have hpart := h i hi
  dsimp only [part] at hpart
  rw [List.getElem?_eq_getElem hi, List.getElem?_eq_getElem hi'] at hpart
  exact hpart

theorem eq_of_part_item {items others : List Value} (hlength : items.length = others.length)
    (h : ∀ i, (Value.collection items).part (.item i) = (Value.collection others).part (.item i)) :
    items = others := by
  apply List.ext_getElem hlength
  intro i hi hi'
  have hpart := h i
  dsimp only [part] at hpart
  rw [List.getElem?_eq_getElem hi, List.getElem?_eq_getElem hi'] at hpart
  exact hpart

theorem Alike.part {value other : Value} (h : value.Alike other) (step : Step) :
    (value.part step).Alike (other.part step) :=
  fun place => h (step :: place)

theorem Alike.get {value other : Value} (h : value.Alike other) (place : Place) :
    (value.get place).Alike (other.get place) := by
  intro below
  rw [← get_append, ← get_append]
  exact h (place ++ below)

theorem Alike.symm {value other : Value} (h : value.Alike other) : other.Alike value :=
  fun place => ⟨(h place).1.symm, (h place).2.symm⟩

/--
Values of one kind that hold the same scalars and as many elements, and are unset at the same
places, are equal.
-/
theorem eq_of_places {value other : Value} {kind : Kind} (h : value.Conforms kind)
    (h' : other.Conforms kind) (halike : value.Alike other)
    (hunset : ∀ place, value.get place = .unset ↔ other.get place = .unset) : value = other := by
  induction value using part_induction generalizing other kind with
  | h value ih =>
    have hparts : ∀ step inner, (value.part step).Conforms inner →
        (other.part step).Conforms inner → value.part step = other.part step := by
      intro step inner hinner hinner'
      by_cases hset : value.part step = .unset
      · rw [hset]
        exact ((hunset [step]).1 hset).symm
      · exact ih step hset hinner hinner' (halike.part step) fun place => hunset (step :: place)
    cases value with
    | unset => exact ((hunset []).1 rfl).symm
    | scalar s =>
      have hscalar := (halike []).2
      exact (scalar?_eq_some_iff.1 hscalar.symm).symm
    | nested record =>
      obtain ⟨type, slots⟩ := record
      have hkind := (conforms_nested_iff.1 h).1
      subst hkind
      cases other with
      | unset => exact (hunset []).2 rfl
      | scalar s => simp [Value.Conforms] at h'
      | nested record' =>
        obtain ⟨type', others⟩ := record'
        have htype := (conforms_nested_iff.1 h').1
        rw [Kind.nested.injEq] at htype
        subst htype
        have hlength := h.slotsAs.length_eq
        have hslots : slots = others := by
          apply eq_of_part_slot (hlength.trans h'.slotsAs.length_eq.symm)
          intro i hi
          have hfield := List.getElem?_eq_getElem (l := type.fields) (hlength ▸ hi)
          exact hparts _ _ (h.part_slot hfield) (h'.part_slot hfield)
        rw [hslots]
      | collection items => simp [Value.Conforms] at h'
    | collection items =>
      obtain ⟨element, rfl, _⟩ := conforms_collection_iff.1 h
      cases other with
      | unset => exact (hunset []).2 rfl
      | scalar s => simp [Value.Conforms] at h'
      | nested record => simp [Value.Conforms] at h'
      | collection others =>
        have hitems : items = others := by
          apply eq_of_part_item (halike []).1
          intro i
          exact hparts _ _ (h.part_item i) (h'.part_item i)
        rw [hitems]

theorem eq_of_alike {value other : Value} {kind : Kind} (h : value.Conforms kind)
    (h' : other.Conforms kind) (hfilled : value.Filled) (hfilled' : other.Filled)
    (halike : value.Alike other) : value = other := by
  apply eq_of_places h h' halike
  intro place
  constructor
  · intro hunset
    have hplace := halike.get place
    rw [hunset] at hplace
    exact (hfilled'.get place).eq_unset hplace
  · intro hunset
    have hplace := halike.symm.get place
    rw [hunset] at hplace
    exact (hfilled.get place).eq_unset hplace

end Value

end RowTree
