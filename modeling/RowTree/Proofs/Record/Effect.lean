import RowTree.Proofs.Record.Place

/-!
This module contains what a write can do to a value: a successful one stores its scalar at the
place of its path (`Value.Stored`), a refused one creates containers that hold nothing at most
(`Value.Touched`). `Value.write_effect` says that there is no third way, and
`Value.error?_write_eq_none_iff` which writes succeed.
-/

namespace RowTree

namespace Value

def setSlot (type : RecordType) (value : Value) (i : Nat) (inner : Value) : Value :=
  .nested ⟨type, (value.slotsAs type).set i inner⟩

def setItem (value : Value) (i : Nat) (inner : Value) : Value :=
  if i < value.count then
    .collection (value.items.set i inner)
  else
    .collection (value.items ++ [inner])

/--
The second value is the first one with a scalar stored at a place.
-/
inductive Stored (s : Scalar) : Place → Kind → Value → Value → Prop where
  | here {value : Value} : Stored s [] (.primitive s.primitive) value (.scalar s)
  | slot {type : RecordType} {i : Nat} {field : Field} {place : Place} {value inner : Value}
      (hfield : type.fields[i]? = some field)
      (hinner : Stored s place field.kind (value.part (.slot i)) inner) :
      Stored s (.slot i :: place) (.nested type) value (value.setSlot type i inner)
  | item {element : Kind} {i : Nat} {place : Place} {value inner : Value}
      (hroom : i ≤ value.count)
      (hinner : Stored s place element (value.part (.item i)) inner) :
      Stored s (.item i :: place) (.collection element) value (value.setItem i inner)

/--
The second value is the first one with containers created in it that hold nothing.
-/
inductive Touched : Kind → Value → Value → Prop where
  | same {kind : Kind} {value : Value} : Touched kind value value
  | record {type : RecordType} {value : Value} :
      Touched (.nested type) value (.nested ⟨type, value.slotsAs type⟩)
  | slot {type : RecordType} {i : Nat} {field : Field} {value inner : Value}
      (hfield : type.fields[i]? = some field)
      (hinner : Touched field.kind (value.part (.slot i)) inner) :
      Touched (.nested type) value (value.setSlot type i inner)
  | items {element : Kind} {value : Value} :
      Touched (.collection element) value (.collection value.items)
  | item {element : Kind} {i : Nat} {value inner : Value} (hi : i < value.count)
      (hinner : Touched element (value.part (.item i)) inner) :
      Touched (.collection element) value (value.setItem i inner)

/-! ## Unfolding a write by one step -/

theorem setItem_of_lt {value : Value} {i : Nat} (h : i < value.count) :
    value.setItem i = fun inner => .collection (value.items.set i inner) := by
  unfold setItem
  simp only [if_pos h]

theorem setItem_of_not_lt {value : Value} {i : Nat} (h : ¬i < value.count) :
    value.setItem i = fun inner => .collection (value.items ++ [inner]) := by
  unfold setItem
  simp only [if_neg h]

theorem write_slot {value : Value} {type : RecordType} (h : value.Conforms (.nested type))
    (scalar : Scalar) (name : String) (rest : Path) (label : String) :
    value.write scalar (name :: rest) (.nested type) label =
      match type.find? name with
      | none => .refused (.nested ⟨type, value.slotsAs type⟩) (.fieldNotFound name)
      | some (i, kind) =>
        ((value.part (.slot i)).write scalar rest kind name).map (value.setSlot type i) := by
  rw [Value.write, h.record?_eq]
  dsimp only
  unfold Record.modify
  cases type.find? name with
  | none => rfl
  | some found =>
    dsimp only
    rw [h.part_slot_eq]
    rfl

theorem write_item {value : Value} {element : Kind} (h : value.Conforms (.collection element))
    (scalar : Scalar) (index : String) (rest : Path) (label : String) :
    value.write scalar (index :: rest) (.collection element) label =
      let refusal := WriteError.invalidIndex label index value.count
      match Text.index? index with
      | none => .refused (.collection value.items) refusal
      | some i =>
        let attempt :=
          (value.part (.item i)).write scalar rest element (label ++ "." ++ indexText i)
        if i < value.count then
          attempt.map (value.setItem i)
        else if i = value.count then
          match attempt.error? with
          | none => .done (value.setItem i attempt.value)
          | some error => .refused (.collection value.items) error
        else
          .refused (.collection value.items) refusal := by
  rw [Value.write, h.items?_eq]
  dsimp only
  unfold Value.modifyItem
  cases Text.index? index with
  | none => rfl
  | some i =>
    dsimp only
    rw [part_item_eq]
    by_cases hi : i < value.items.length
    · rw [dif_pos hi, if_pos (show i < value.count from hi), List.getElem?_eq_getElem hi,
        Option.getD_some, setItem_of_lt hi]
      rfl
    · rw [dif_neg hi, if_neg (show ¬i < value.count from hi), List.getElem?_eq_none (by omega),
        Option.getD_none, setItem_of_not_lt hi]
      unfold count
      split
      · cases (Value.unset.write scalar rest element (label ++ "." ++ indexText i)).error? <;> rfl
      · rfl

theorem error?_write_slot {value : Value} {type : RecordType} (h : value.Conforms (.nested type))
    (scalar : Scalar) (name : String) (rest : Path) (label : String) :
    (value.write scalar (name :: rest) (.nested type) label).error? =
      match type.find? name with
      | none => some (.fieldNotFound name)
      | some (i, kind) => ((value.part (.slot i)).write scalar rest kind name).error? := by
  rw [write_slot h]
  cases type.find? name with
  | none => rfl
  | some found => rfl

theorem error?_write_item {value : Value} {element : Kind}
    (h : value.Conforms (.collection element)) (scalar : Scalar) (index : String) (rest : Path)
    (label : String) :
    (value.write scalar (index :: rest) (.collection element) label).error? =
      match Text.index? index with
      | none => some (.invalidIndex label index value.count)
      | some i =>
        if i ≤ value.count then
          ((value.part (.item i)).write scalar rest element (label ++ "." ++ indexText i)).error?
        else
          some (.invalidIndex label index value.count) := by
  rw [write_item h]
  cases Text.index? index with
  | none => rfl
  | some i =>
    dsimp only
    by_cases hlt : i < value.count
    · rw [if_pos hlt, if_pos (Nat.le_of_lt hlt)]
      rfl
    · rw [if_neg hlt]
      by_cases heq : i = value.count
      · rw [if_pos heq, if_pos (Nat.le_of_eq heq)]
        cases herror : ((value.part (.item i)).write scalar rest element
          (label ++ "." ++ indexText i)).error? <;> rfl
      · rw [if_neg heq, if_neg (by omega)]
        rfl

/-! ## What stands where after a part was set -/

theorem part_setSlot {value : Value} {type : RecordType} {i : Nat} {field : Field}
    (h : value.Conforms (.nested type)) (hfield : type.fields[i]? = some field) (inner : Value)
    (step : Step) :
    (value.setSlot type i inner).part step = if step = .slot i then inner else value.part step := by
  have hlength : i < (value.slotsAs type).length := by
    rw [(slotsConform_iff.1 h.slotsAs).1]
    exact (List.getElem?_eq_some_iff.1 hfield).1
  unfold setSlot
  cases step with
  | slot j =>
    rw [h.part_slot_eq]
    dsimp only [part]
    by_cases hj : j = i
    · rw [hj, List.getElem?_set_self hlength, if_pos rfl]
      rfl
    · rw [List.getElem?_set_ne (Ne.symm hj), if_neg (by simpa using hj)]
  | item j =>
    rw [if_neg (by simp)]
    cases value with
    | collection items => simp [Value.Conforms] at h
    | _ => rfl

theorem items_setItem (value : Value) (i : Nat) (inner : Value) :
    (value.setItem i inner).items =
      if i < value.items.length then value.items.set i inner else value.items ++ [inner] := by
  unfold setItem count
  split <;> rfl

theorem getElem?_items_setItem {value : Value} {i : Nat} (hi : i ≤ value.count) (inner : Value)
    (j : Nat) :
    (value.setItem i inner).items[j]? = if j = i then some inner else value.items[j]? := by
  unfold count at hi
  rw [items_setItem]
  split
  · next hlt =>
    rw [List.getElem?_set]
    simp only [hlt, if_true, eq_comm]
  · next hge =>
    have hlast : i = value.items.length := by omega
    split
    · next hj => rw [hj, hlast, List.getElem?_concat_length]
    · next hj =>
      by_cases hlt : j < value.items.length
      · rw [List.getElem?_append_left hlt]
      · rw [List.getElem?_eq_none (by simp; omega), List.getElem?_eq_none (by omega)]

theorem part_setItem {value : Value} {element : Kind} {i : Nat}
    (h : value.Conforms (.collection element)) (hi : i ≤ value.count) (inner : Value)
    (step : Step) :
    (value.setItem i inner).part step = if step = .item i then inner else value.part step := by
  cases step with
  | slot j =>
    rw [if_neg (by simp)]
    cases value with
    | nested record => simp [Value.Conforms] at h
    | _ => unfold setItem; split <;> rfl
  | item j =>
    rw [part_item_eq, part_item_eq, getElem?_items_setItem hi]
    by_cases hj : j = i
    · rw [if_pos hj, if_pos (by rw [hj])]
      rfl
    · rw [if_neg hj, if_neg (by simpa using hj)]

@[simp]
theorem count_setSlot (type : RecordType) (value : Value) (i : Nat) (inner : Value) :
    (value.setSlot type i inner).count = 0 := rfl

@[simp]
theorem scalar?_setSlot (type : RecordType) (value : Value) (i : Nat) (inner : Value) :
    (value.setSlot type i inner).scalar? = none := rfl

@[simp]
theorem scalar?_setItem (value : Value) (i : Nat) (inner : Value) :
    (value.setItem i inner).scalar? = none := by
  unfold setItem
  split <;> rfl

theorem count_setItem {value : Value} {i : Nat} (hi : i ≤ value.count) (inner : Value) :
    (value.setItem i inner).count = max value.count (i + 1) := by
  unfold count at *
  rw [items_setItem]
  split
  · rw [List.length_set]
    omega
  · rw [List.length_append, List.length_singleton]
    omega

theorem Conforms.count_eq_zero {value : Value} {kind : Kind} (h : value.Conforms kind)
    (hkind : ∀ element, kind ≠ .collection element) : value.count = 0 := by
  cases value with
  | collection items =>
    rw [Value.Conforms] at h
    obtain ⟨element, hcollection, _⟩ := h
    exact absurd hcollection (hkind element)
  | _ => rfl

theorem Conforms.scalar?_eq_none {value : Value} {kind : Kind} (h : value.Conforms kind)
    (hkind : ∀ p, kind ≠ .primitive p) : value.scalar? = none := by
  cases value with
  | scalar s =>
    rw [Value.Conforms] at h
    exact absurd h (hkind _)
  | _ => rfl

/-! ## Conforming is kept -/

theorem Conforms.setSlot {value inner : Value} {type : RecordType} {i : Nat} {field : Field}
    (h : value.Conforms (.nested type)) (hfield : type.fields[i]? = some field)
    (hinner : inner.Conforms field.kind) :
    (value.setSlot type i inner).Conforms (.nested type) := by
  unfold Value.setSlot
  rw [conforms_nested_iff]
  refine ⟨rfl, ?_⟩
  have hslots := slotsConform_iff.1 h.slotsAs
  rw [slotsConform_iff, List.length_set]
  refine ⟨hslots.1, ?_⟩
  intro j other hother
  by_cases hj : j = i
  · subst hj
    rw [hfield, Option.some.injEq] at hother
    rw [List.getElem?_set_self (hslots.1 ▸ (List.getElem?_eq_some_iff.1 hfield).1), ← hother]
    exact hinner
  · rw [List.getElem?_set_ne (Ne.symm hj)]
    exact hslots.2 j other hother

theorem Conforms.setItem {value inner : Value} {element : Kind}
    (h : value.Conforms (.collection element)) (i : Nat) (hset : inner ≠ .unset)
    (hinner : inner.Conforms element) : (value.setItem i inner).Conforms (.collection element) := by
  have hitems := allConform_iff.1 h.items
  have hall : ∀ items : List Value, (∀ item ∈ items, item ∈ value.items ∨ item = inner) →
      (Value.collection items).Conforms (.collection element) := by
    intro items hmem
    rw [Value.Conforms]
    refine ⟨element, rfl, ?_⟩
    rw [allConform_iff]
    intro item hitem
    rcases hmem item hitem with hold | hnew
    · exact hitems item hold
    · rw [hnew]
      exact ⟨hset, hinner⟩
  unfold Value.setItem
  split
  · apply hall
    intro item hitem
    exact List.mem_or_eq_of_mem_set hitem
  · apply hall
    intro item hitem
    rw [List.mem_append, List.mem_singleton] at hitem
    exact hitem

theorem Stored.ne_unset {s : Scalar} {place : Place} {kind : Kind} {value new : Value}
    (h : Stored s place kind value new) : new ≠ .unset := by
  cases h with
  | here => simp
  | slot => simp [Value.setSlot]
  | item => unfold Value.setItem; split <;> simp

theorem Stored.conforms {s : Scalar} {place : Place} {kind : Kind} {value new : Value}
    (h : Stored s place kind value new) (hvalue : value.Conforms kind) : new.Conforms kind := by
  induction h with
  | here =>
    unfold Value.Conforms
    rfl
  | slot hfield _ ih => exact hvalue.setSlot hfield (ih (hvalue.part_slot hfield))
  | item _ hinner ih => exact hvalue.setItem _ hinner.ne_unset (ih (hvalue.part_item _))

theorem Touched.ne_unset {kind : Kind} {value new : Value} (h : Touched kind value new)
    (hvalue : value ≠ .unset) : new ≠ .unset := by
  cases h with
  | same => exact hvalue
  | record => simp
  | slot => simp [Value.setSlot]
  | items => simp
  | item => unfold Value.setItem; split <;> simp

theorem Touched.conforms {kind : Kind} {value new : Value} (h : Touched kind value new)
    (hvalue : value.Conforms kind) : new.Conforms kind := by
  induction h with
  | same => exact hvalue
  | record =>
    rw [conforms_nested_iff]
    exact ⟨rfl, hvalue.slotsAs⟩
  | slot hfield _ ih => exact hvalue.setSlot hfield (ih (hvalue.part_slot hfield))
  | items =>
    rw [Value.Conforms]
    exact ⟨_, rfl, hvalue.items⟩
  | @item element i value inner hi hinner ih =>
    -- the touched element was there before, hence was set
    have hpart : value.part (.item i) ∈ value.items := by
      rw [part_item_eq, List.getElem?_eq_getElem hi]
      exact List.getElem_mem hi
    have hset := (allConform_iff.1 hvalue.items _ hpart).1
    exact hvalue.setItem _ (hinner.ne_unset hset) (ih (hvalue.part_item _))

/-! ## What a write does -/

/--
A write stores its scalar where its path leads, or is refused and creates containers at most.
-/
theorem write_effect {value : Value} {kind : Kind} (h : value.Conforms kind) (scalar : Scalar)
    (path : Path) (label : String) :
    ((value.write scalar path kind label).error? = none ∧
        ∃ place s, kind.locate? path = some (place, .primitive s.primitive) ∧
          s.primitive.coerce? scalar = some s ∧
          Stored s place kind value (value.write scalar path kind label).value) ∨
      ((value.write scalar path kind label).error? ≠ none ∧
        Touched kind value (value.write scalar path kind label).value) := by
  induction path generalizing value kind label with
  | nil =>
    cases kind with
    | primitive p =>
      unfold Value.write
      cases hcoerce : p.coerce? scalar with
      | none => exact .inr ⟨by simp [Attempt.refused], .same⟩
      | some s =>
        have hp := Primitive.primitive_of_coerce? hcoerce
        subst hp
        exact .inl ⟨rfl, [], s, rfl, hcoerce, .here⟩
    | nested type => exact .inr ⟨by simp [Value.write, Attempt.refused], .same⟩
    | collection element => exact .inr ⟨by simp [Value.write, Attempt.refused], .same⟩
  | cons segment rest ih =>
    cases kind with
    | primitive p => exact .inr ⟨by simp [Value.write, Attempt.refused], .same⟩
    | nested type =>
      rw [write_slot h]
      unfold Kind.locate? RecordType.find?
      cases hfind : Field.find? segment type.fields with
      | none => exact .inr ⟨by simp [Attempt.refused], .record⟩
      | some found =>
        obtain ⟨i, kind⟩ := found
        have hfield := Field.find?_eq_some hfind
        dsimp only
        rw [Attempt.error?_map, Attempt.value_map]
        rcases ih (h.part_slot hfield) segment with
          ⟨hok, place, s, hplace, hs, hstored⟩ | ⟨hno, htouched⟩
        · exact .inl ⟨hok, .slot i :: place, s, by simp [hplace], hs, .slot hfield hstored⟩
        · exact .inr ⟨hno, .slot hfield htouched⟩
    | collection element =>
      rw [write_item h]
      unfold Kind.locate?
      cases hindex : Text.index? segment with
      | none => exact .inr ⟨by simp [Attempt.refused], .items⟩
      | some i =>
        dsimp only
        have hinner := ih (h.part_item i) (label ++ "." ++ indexText i)
        split
        · next hi =>
          rw [Attempt.error?_map, Attempt.value_map]
          rcases hinner with ⟨hok, place, s, hplace, hs, hstored⟩ | ⟨hno, htouched⟩
          · exact .inl ⟨hok, .item i :: place, s, by simp [hplace], hs, .item (by omega) hstored⟩
          · exact .inr ⟨hno, .item hi htouched⟩
        · split
          · next hi =>
            -- a refused addition leaves no element behind
            rcases hinner with ⟨hok, place, s, hplace, hs, hstored⟩ | ⟨hno, _⟩
            · rw [hok]
              exact .inl ⟨rfl, .item i :: place, s, by simp [hplace], hs, .item (by omega) hstored⟩
            · split
              · contradiction
              · exact .inr ⟨by simp [Attempt.refused], .items⟩
          · exact .inr ⟨by simp [Attempt.refused], .items⟩

theorem Stored.hasRoom {s : Scalar} {place : Place} {kind : Kind} {value new : Value}
    (h : Stored s place kind value new) : value.HasRoom place := by
  induction h with
  | here => exact hasRoom_nil _
  | slot _ _ ih => exact hasRoom_slot_cons.2 ih
  | item hroom _ ih => exact hasRoom_item_cons.2 ⟨hroom, ih⟩

theorem error?_write_of_hasRoom {value : Value} {kind : Kind} (h : value.Conforms kind)
    {scalar s : Scalar} {path : Path} {place : Place}
    (hplace : kind.locate? path = some (place, .primitive s.primitive))
    (hs : s.primitive.coerce? scalar = some s) (hroom : value.HasRoom place) (label : String) :
    (value.write scalar path kind label).error? = none := by
  induction path generalizing value kind place label with
  | nil =>
    simp only [Kind.locate?, Option.some.injEq, Prod.mk.injEq] at hplace
    rw [hplace.2, Value.write, hs]
    rfl
  | cons segment rest ih =>
    cases kind with
    | primitive p => simp [Kind.locate?] at hplace
    | nested type =>
      simp only [Kind.locate?, RecordType.find?, Option.bind_eq_some_iff, Option.map_eq_some_iff,
        Prod.exists, Prod.mk.injEq] at hplace
      obtain ⟨i, kind, hfind, inner, _, hinner, rfl, rfl⟩ := hplace
      rw [write_slot h, RecordType.find?, hfind]
      exact ih (h.part_slot (Field.find?_eq_some hfind)) hinner (hasRoom_slot_cons.1 hroom) segment
    | collection element =>
      simp only [Kind.locate?, Option.bind_eq_some_iff, Option.map_eq_some_iff, Prod.exists,
        Prod.mk.injEq] at hplace
      obtain ⟨i, hindex, inner, _, hinner, rfl, rfl⟩ := hplace
      rw [hasRoom_item_cons] at hroom
      have hok := ih (h.part_item i) hinner hroom.2 (label ++ "." ++ indexText i)
      rw [write_item h, hindex]
      dsimp only
      rw [hok]
      split
      · exact hok
      · rw [if_pos (by omega)]
        rfl

/--
A write succeeds exactly if its path leads to a primitive that takes the scalar, and passes every
collection at an element or right behind the last one.
-/
theorem error?_write_eq_none_iff {value : Value} {kind : Kind} (h : value.Conforms kind)
    {scalar : Scalar} {path : Path} (label : String) :
    (value.write scalar path kind label).error? = none ↔
      ∃ (place : Place) (s : Scalar), kind.locate? path = some (place, .primitive s.primitive) ∧
        s.primitive.coerce? scalar = some s ∧ value.HasRoom place := by
  constructor
  · intro hok
    rcases write_effect h scalar path label with ⟨_, place, s, hplace, hs, hstored⟩ | ⟨hno, _⟩
    · exact ⟨place, s, hplace, hs, hstored.hasRoom⟩
    · exact absurd hok hno
  · rintro ⟨place, s, hplace, hs, hroom⟩
    exact error?_write_of_hasRoom h hplace hs hroom label

/-! ## What is read after a write -/

/--
The values hold the same scalars, and as many elements in each collection.
-/
def Alike (value other : Value) : Prop :=
  ∀ place, (value.get place).count = (other.get place).count ∧
    (value.get place).scalar? = (other.get place).scalar?

theorem Alike.of_part {value other : Value} (hcount : value.count = other.count)
    (hscalar : value.scalar? = other.scalar?)
    (hpart : ∀ step, (value.part step).Alike (other.part step)) : value.Alike other := by
  intro place
  cases place with
  | nil => exact ⟨hcount, hscalar⟩
  | cons step place => exact hpart step place

theorem Alike.rfl {value : Value} : value.Alike value :=
  fun _ => ⟨.refl _, .refl _⟩

theorem Conforms.part_primitive {value : Value} {p : Primitive}
    (h : value.Conforms (.primitive p)) (step : Step) : value.part step = .unset := by
  cases value with
  | unset => exact part_unset step
  | scalar s => exact part_scalar s step
  | nested record => simp [Value.Conforms] at h
  | collection items => simp [Value.Conforms] at h

theorem Touched.alike {kind : Kind} {value new : Value} (h : Touched kind value new)
    (hvalue : value.Conforms kind) : value.Alike new := by
  induction h with
  | same => exact .rfl
  | @record type value =>
    apply Alike.of_part (hvalue.count_eq_zero (by simp)) (hvalue.scalar?_eq_none (by simp))
    intro step
    cases value with
    | unset =>
      rw [part_unset]
      have hempty := part_slot_empty type step
      unfold Record.empty at hempty
      dsimp only [Value.slotsAs]
      rw [hempty]
      exact .rfl
    | scalar s => simp [Value.Conforms] at hvalue
    | nested record =>
      cases step with
      | slot i => exact .rfl
      | item i => exact .rfl
    | collection items => simp [Value.Conforms] at hvalue
  | slot hfield _ ih =>
    apply Alike.of_part (hvalue.count_eq_zero (by simp)) (hvalue.scalar?_eq_none (by simp))
    intro step
    rw [part_setSlot hvalue hfield]
    split
    · next hstep =>
      rw [hstep]
      exact ih (hvalue.part_slot hfield)
    · exact .rfl
  | @items element value =>
    apply Alike.of_part (by rfl) (hvalue.scalar?_eq_none (by simp))
    intro step
    cases value with
    | unset =>
      have hempty := part_collection_nil step
      rw [part_unset]
      dsimp only [Value.items]
      rw [hempty]
      exact .rfl
    | scalar s => simp [Value.Conforms] at hvalue
    | nested record => simp [Value.Conforms] at hvalue
    | collection items => exact .rfl
  | item hi _ ih =>
    apply Alike.of_part _ ((hvalue.scalar?_eq_none (by simp)).trans (scalar?_setItem ..).symm)
    · intro step
      rw [part_setItem hvalue (Nat.le_of_lt hi)]
      split
      · next hstep =>
        rw [hstep]
        exact ih (hvalue.part_item _)
      · exact .rfl
    · rw [count_setItem (Nat.le_of_lt hi)]
      omega

theorem Stored.get_of_not_on_way {s : Scalar} {place : Place} {kind : Kind} {value new : Value}
    (h : Stored s place kind value new) (hvalue : value.Conforms kind) {other : Place}
    (hother : ¬other <+: place) : new.get other = value.get other := by
  induction h generalizing other with
  | here =>
    cases other with
    | nil => simp at hother
    | cons step other => rw [get_cons, get_cons, part_scalar, hvalue.part_primitive]
  | @slot type i field place value inner hfield _ ih =>
    cases other with
    | nil => simp at hother
    | cons step other =>
      rw [get_cons, get_cons, part_setSlot hvalue hfield]
      split
      · next hstep =>
        rw [hstep, List.cons_prefix_cons] at hother
        rw [hstep]
        exact ih (hvalue.part_slot hfield) (fun hfront => hother ⟨.refl _, hfront⟩)
      · rfl
  | @item element i place value inner hroom _ ih =>
    cases other with
    | nil => simp at hother
    | cons step other =>
      rw [get_cons, get_cons, part_setItem hvalue hroom]
      split
      · next hstep =>
        rw [hstep, List.cons_prefix_cons] at hother
        rw [hstep]
        exact ih (hvalue.part_item i) (fun hfront => hother ⟨.refl _, hfront⟩)
      · rfl

theorem Stored.get_of_append {s : Scalar} {before rest : Place} {kind : Kind} {value new : Value}
    (h : Stored s (before ++ rest) kind value new) (hvalue : value.Conforms kind) :
    ∃ inner, (value.get before).Conforms inner ∧
      Stored s rest inner (value.get before) (new.get before) := by
  induction before generalizing kind value new with
  | nil => exact ⟨kind, hvalue, h⟩
  | cons step before ih =>
    rw [List.cons_append] at h
    cases h with
    | slot hfield hinner =>
      rw [get_cons, get_cons, part_setSlot hvalue hfield, if_pos rfl]
      exact ih hinner (hvalue.part_slot hfield)
    | item hroom hinner =>
      rw [get_cons, get_cons, part_setItem hvalue hroom, if_pos rfl]
      exact ih hinner (hvalue.part_item _)

theorem Stored.get_self {s : Scalar} {place : Place} {kind : Kind} {value new : Value}
    (h : Stored s place kind value new) (hvalue : value.Conforms kind) :
    new.get place = .scalar s := by
  rw [← List.append_nil place] at h
  obtain ⟨inner, _, hstored⟩ := h.get_of_append hvalue
  generalize new.get place = found at hstored
  cases hstored
  rfl

theorem Stored.lt_count_get_iff {s : Scalar} {place : Place} {kind : Kind} {value new : Value}
    (h : Stored s place kind value new) (hvalue : value.Conforms kind) {other : Place} {j : Nat} :
    j < (new.get other).count ↔
      j < (value.get other).count ∨ other ++ [.item j] <+: place := by
  by_cases hother : other <+: place
  · obtain ⟨rest, rfl⟩ := hother
    obtain ⟨inner, hinner, hstored⟩ := h.get_of_append hvalue
    rw [List.prefix_append_right_inj]
    generalize value.get other = old, new.get other = found at hinner hstored
    cases hstored with
    | here =>
      rw [hinner.count_eq_zero (by simp)]
      simp [count, items]
    | slot =>
      rw [count_setSlot, hinner.count_eq_zero (by simp)]
      simp
    | item hroom =>
      rw [count_setItem hroom, List.cons_prefix_cons, Step.item.injEq]
      simp only [List.nil_prefix, and_true]
      omega
  · have hnot : ¬other ++ [.item j] <+: place :=
      fun hfront => hother ((List.prefix_append _ _).trans hfront)
    rw [h.get_of_not_on_way hvalue hother]
    simp [hnot]

theorem Stored.scalar?_get {s : Scalar} {place : Place} {kind : Kind} {value new : Value}
    (h : Stored s place kind value new) (hvalue : value.Conforms kind) (other : Place) :
    (new.get other).scalar? = if other = place then some s else (value.get other).scalar? := by
  by_cases hother : other <+: place
  · obtain ⟨rest, rfl⟩ := hother
    obtain ⟨inner, hinner, hstored⟩ := h.get_of_append hvalue
    generalize value.get other = old, new.get other = found at hinner hstored
    cases hstored with
    | here => simp [scalar?]
    | slot => simp [hinner.scalar?_eq_none]
    | item => simp [hinner.scalar?_eq_none]
  · rw [h.get_of_not_on_way hvalue hother, if_neg]
    rintro rfl
    exact hother (List.prefix_refl _)

end Value

/-! ## Writing into records -/

theorem Value.write_nested_self (record : Record) (scalar : Scalar) (name : String) (rest : Path)
    (label : String) :
    (Value.nested record).write scalar (name :: rest) (.nested record.type) label =
      (record.write (name :: rest) scalar).map .nested := by
  rw [Value.write]
  rfl

theorem Record.Conforms.nested {record : Record} (h : record.Conforms) :
    (Value.nested record).Conforms (.nested record.type) := by
  rw [Value.Conforms]
  exact ⟨rfl, h⟩

theorem Value.Conforms.record {record : Record} {kind : Kind}
    (h : (Value.nested record).Conforms kind) : record.Conforms := by
  rw [Value.Conforms] at h
  exact h.2

theorem Record.write_effect {record : Record} (h : record.Conforms) (path : Path)
    (scalar : Scalar) :
    ((record.write path scalar).error? = none ∧
        ∃ place s,
          (Kind.nested record.type).locate? path = some (place, .primitive s.primitive) ∧
          s.primitive.coerce? scalar = some s ∧
          Value.Stored s place (.nested record.type) (.nested record)
            (.nested (record.write path scalar).value)) ∨
      ((record.write path scalar).error? ≠ none ∧
        Value.Touched (.nested record.type) (.nested record)
          (.nested (record.write path scalar).value)) := by
  cases path with
  | nil => exact .inr ⟨by simp [Record.write, Attempt.refused], .same⟩
  | cons name rest =>
    have heffect := Value.write_effect h.nested scalar (name :: rest) ""
    rw [Value.write_nested_self] at heffect
    exact heffect

theorem Record.stored_write {record : Record} (h : record.Conforms) {path : Path} {scalar : Scalar}
    (hok : (record.write path scalar).error? = none) :
    ∃ place s, (Kind.nested record.type).locate? path = some (place, .primitive s.primitive) ∧
      s.primitive.coerce? scalar = some s ∧
      Value.Stored s place (.nested record.type) (.nested record)
        (.nested (record.write path scalar).value) := by
  rcases Record.write_effect h path scalar with ⟨_, hstored⟩ | ⟨hno, _⟩
  · exact hstored
  · exact absurd hok hno

theorem Record.touched_write {record : Record} (h : record.Conforms) {path : Path}
    {scalar : Scalar} (hno : (record.write path scalar).error? ≠ none) :
    Value.Touched (.nested record.type) (.nested record)
      (.nested (record.write path scalar).value) := by
  rcases Record.write_effect h path scalar with ⟨hok, _⟩ | ⟨_, htouched⟩
  · exact absurd hok hno
  · exact htouched

theorem Record.error?_write_eq_none_iff {record : Record} (h : record.Conforms) {path : Path}
    {scalar : Scalar} :
    (record.write path scalar).error? = none ↔
      ∃ (place : Place) (s : Scalar),
        (Kind.nested record.type).locate? path = some (place, .primitive s.primitive) ∧
          s.primitive.coerce? scalar = some s ∧ (Value.nested record).HasRoom place := by
  cases path with
  | nil => simp [Record.write, Attempt.refused, Kind.locate?]
  | cons name rest =>
    rw [← Value.error?_write_eq_none_iff h.nested "", Value.write_nested_self]
    rfl

end RowTree
