import RowTree.Record.Shape

/-!
This module contains the places of a record: the steps that lead to a value, where a step picks a
slot of a record or an element of a collection. A path of texts stands for one place of a type
(`Kind.locate?`), and what is read at a path is what stands at its place
(`Value.read?_eq_some_iff`).
-/

namespace RowTree

inductive Step where
  | slot (i : Nat)
  | item (i : Nat)
  deriving DecidableEq, Repr

abbrev Place := List Step

def Kind.locate? : Path → Kind → Option (Place × Kind)
  | [], kind => some ([], kind)
  | name :: rest, .nested type =>
    (type.find? name).bind fun (i, kind) =>
      (kind.locate? rest).map fun (place, found) => (.slot i :: place, found)
  | index :: rest, .collection element =>
    (Text.index? index).bind fun i =>
      (element.locate? rest).map fun (place, found) => (.item i :: place, found)
  | _ :: _, .primitive _ => none

namespace Value

/--
The part of a value that a step leads to. Parts that are missing are unset.
-/
def part : Value → Step → Value
  | .nested record, .slot i => record.slots[i]?.getD .unset
  | .collection items, .item i => items[i]?.getD .unset
  | _, _ => .unset

def get (value : Value) (place : Place) : Value :=
  place.foldl part value

def items : Value → List Value
  | .collection items => items
  | _ => []

def count (value : Value) : Nat :=
  value.items.length

def scalar? : Value → Option Scalar
  | .scalar s => some s
  | _ => none

/--
Each collection on the way to the place has the element that is passed, or would get it as its
next one.
-/
def HasRoom (value : Value) (place : Place) : Prop :=
  ∀ before i, before ++ [.item i] <+: place → i ≤ (value.get before).count

theorem scalar?_eq_some_iff {value : Value} {s : Scalar} :
    value.scalar? = some s ↔ value = .scalar s := by
  cases value <;> simp [scalar?]

@[simp]
theorem get_nil (value : Value) : value.get [] = value := rfl

@[simp]
theorem get_cons (value : Value) (step : Step) (place : Place) :
    value.get (step :: place) = (value.part step).get place := rfl

theorem get_append (value : Value) (front back : Place) :
    value.get (front ++ back) = (value.get front).get back := by
  unfold get
  rw [List.foldl_append]

@[simp]
theorem part_unset (step : Step) : Value.unset.part step = .unset := by
  cases step <;> rfl

@[simp]
theorem part_scalar (s : Scalar) (step : Step) : (Value.scalar s).part step = .unset := by
  cases step <;> rfl

@[simp]
theorem get_unset (place : Place) : Value.unset.get place = .unset := by
  induction place with
  | nil => rfl
  | cons step place ih =>
    rw [get_cons, part_unset]
    exact ih

@[simp]
theorem part_slot_empty (type : RecordType) (step : Step) :
    (Value.nested (.empty type)).part step = .unset := by
  cases step with
  | slot i =>
    dsimp only [part, Record.empty]
    rw [List.getElem?_replicate]
    split <;> rfl
  | item i => rfl

@[simp]
theorem part_collection_nil (step : Step) : (Value.collection []).part step = .unset := by
  cases step <;> rfl

theorem part_item_eq (value : Value) (i : Nat) :
    value.part (.item i) = value.items[i]?.getD .unset := by
  cases value <;> rfl

theorem lt_of_part_slot_ne {record : Record} {i : Nat}
    (h : (Value.nested record).part (.slot i) ≠ .unset) : i < record.slots.length := by
  apply Classical.byContradiction
  intro hge
  apply h
  dsimp only [part]
  rw [List.getElem?_eq_none (Nat.le_of_not_lt hge)]
  rfl

theorem lt_of_part_item_ne {value : Value} {i : Nat} (h : value.part (.item i) ≠ .unset) :
    i < value.count := by
  apply Classical.byContradiction
  intro hge
  apply h
  rw [part_item_eq, List.getElem?_eq_none (Nat.le_of_not_lt hge)]
  rfl

@[simp]
theorem hasRoom_nil (value : Value) : value.HasRoom [] := by
  intro before i h
  simp at h

theorem hasRoom_slot_cons {value : Value} {i : Nat} {place : Place} :
    value.HasRoom (.slot i :: place) ↔ (value.part (.slot i)).HasRoom place := by
  constructor
  · intro h before j hfront
    apply h (.slot i :: before)
    rw [List.cons_append, List.cons_prefix_cons]
    exact ⟨rfl, hfront⟩
  · intro h before j hfront
    cases before with
    | nil => simp at hfront
    | cons step before =>
      rw [List.cons_append, List.cons_prefix_cons] at hfront
      rw [hfront.1, get_cons]
      exact h before j hfront.2

theorem hasRoom_item_cons {value : Value} {i : Nat} {place : Place} :
    value.HasRoom (.item i :: place) ↔
      i ≤ value.count ∧ (value.part (.item i)).HasRoom place := by
  constructor
  · intro h
    refine ⟨h [] i (by simp), ?_⟩
    intro before j hfront
    apply h (.item i :: before)
    rw [List.cons_append, List.cons_prefix_cons]
    exact ⟨rfl, hfront⟩
  · intro h before j hfront
    cases before with
    | nil =>
      have hstep : j = i := by simpa using hfront
      rw [hstep, get_nil]
      exact h.1
    | cons step before =>
      rw [List.cons_append, List.cons_prefix_cons] at hfront
      rw [hfront.1, get_cons]
      exact h.2 before j hfront.2

theorem get_ne_unset_of_front {value : Value} {before place : Place}
    (hset : value.get place ≠ .unset) (hfront : before <+: place) : value.get before ≠ .unset := by
  obtain ⟨rest, rfl⟩ := hfront
  intro hunset
  rw [get_append, hunset, get_unset] at hset
  exact hset rfl

theorem lt_count_of_front {value : Value} {before place : Place} {i : Nat}
    (hset : value.get place ≠ .unset) (hfront : before ++ [.item i] <+: place) :
    i < (value.get before).count := by
  have hitem := get_ne_unset_of_front hset hfront
  rw [get_append] at hitem
  exact lt_of_part_item_ne hitem

theorem hasRoom_of_get_ne_unset {value : Value} {place : Place} (hset : value.get place ≠ .unset) :
    value.HasRoom place :=
  fun _ _ hfront => Nat.le_of_lt (lt_count_of_front hset hfront)

theorem hasRoom_unset_iff {place : Place} :
    Value.unset.HasRoom place ↔ ∀ i, Step.item i ∈ place → i = 0 := by
  induction place with
  | nil => simp
  | cons step place ih =>
    cases step with
    | slot j => simp [hasRoom_slot_cons, ih]
    | item j => simp [hasRoom_item_cons, ih, count, items]

theorem hasRoom_empty_iff {type : RecordType} {place : Place} :
    (Value.nested (.empty type)).HasRoom place ↔ ∀ i, Step.item i ∈ place → i = 0 := by
  cases place with
  | nil => simp
  | cons step place =>
    cases step with
    | slot j => simp [hasRoom_slot_cons, hasRoom_unset_iff]
    | item j => simp [hasRoom_item_cons, hasRoom_unset_iff, count, items]

end Value

theorem Kind.at?_eq_locate? (path : Path) (kind : Kind) :
    kind.at? path = (kind.locate? path).map (·.2) := by
  induction path generalizing kind with
  | nil => cases kind <;> rfl
  | cons segment rest ih =>
    cases kind with
    | primitive p => rfl
    | nested type =>
      unfold Kind.at? Kind.locate? RecordType.kind?
      cases type.find? segment with
      | none => rfl
      | some found =>
        simp only [Option.map_some, Option.bind_some, Option.map_map, Function.comp_def, ih]
    | collection element =>
      unfold Kind.at? Kind.locate?
      cases Text.index? segment with
      | none => rfl
      | some i => simp [ih, Function.comp_def]

theorem RecordType.at?_of_locate? {type : RecordType} {path : Path} {place : Place} {kind : Kind}
    (hne : path ≠ []) (h : (Kind.nested type).locate? path = some (place, kind)) :
    type.at? path = some kind := by
  rw [RecordType.at?, if_neg hne, Kind.at?_eq_locate?, h]
  rfl

theorem Kind.eq_nested_of_locate? {kind found : Kind} {path : Path} {i : Nat} {place : Place}
    (h : kind.locate? path = some (.slot i :: place, found)) :
    ∃ type name rest inner, kind = .nested type ∧ path = name :: rest ∧
      type.find? name = some (i, inner) ∧ inner.locate? rest = some (place, found) := by
  cases path with
  | nil => simp [Kind.locate?] at h
  | cons name rest =>
    cases kind with
    | primitive p => simp [Kind.locate?] at h
    | nested type =>
      simp only [Kind.locate?, Option.bind_eq_some_iff, Option.map_eq_some_iff, Prod.exists,
        Prod.mk.injEq, List.cons.injEq, Step.slot.injEq] at h
      obtain ⟨_, inner, hfind, _, _, hinner, ⟨rfl, rfl⟩, rfl⟩ := h
      exact ⟨type, name, rest, inner, rfl, rfl, hfind, hinner⟩
    | collection element => simp [Kind.locate?, Option.bind_eq_some_iff] at h

theorem Kind.eq_collection_of_locate? {kind found : Kind} {path : Path} {i : Nat} {place : Place}
    (h : kind.locate? path = some (.item i :: place, found)) :
    ∃ element index rest, kind = .collection element ∧ path = index :: rest ∧
      Text.index? index = some i ∧ element.locate? rest = some (place, found) := by
  cases path with
  | nil => simp [Kind.locate?] at h
  | cons index rest =>
    cases kind with
    | primitive p => simp [Kind.locate?] at h
    | nested type => simp [Kind.locate?, Option.bind_eq_some_iff] at h
    | collection element =>
      simp only [Kind.locate?, Option.bind_eq_some_iff, Option.map_eq_some_iff, Prod.exists,
        Prod.mk.injEq, List.cons.injEq, Step.item.injEq] at h
      obtain ⟨_, hindex, _, _, hinner, ⟨rfl, rfl⟩, rfl⟩ := h
      exact ⟨element, index, rest, rfl, rfl, hindex, hinner⟩

theorem Kind.locate?_cons_slot {type : RecordType} {name : String} {i : Nat} {inner found : Kind}
    {rest : Path} {place : Place} (hfind : type.find? name = some (i, inner))
    (h : inner.locate? rest = some (place, found)) :
    (Kind.nested type).locate? (name :: rest) = some (.slot i :: place, found) := by
  rw [Kind.locate?, hfind, Option.bind_some]
  dsimp only
  rw [h]
  rfl

theorem Kind.locate?_cons_item {element found : Kind} {index : String} {i : Nat} {rest : Path}
    {place : Place} (hindex : Text.index? index = some i)
    (h : element.locate? rest = some (place, found)) :
    (Kind.collection element).locate? (index :: rest) = some (.item i :: place, found) := by
  rw [Kind.locate?, hindex, Option.bind_some, h]
  rfl

theorem Kind.locate?_cons_ne_nil {kind found : Kind} {segment : String} {rest : Path} :
    kind.locate? (segment :: rest) ≠ some ([], found) := by
  cases kind <;> simp [Kind.locate?, Option.bind_eq_some_iff]

theorem Kind.length_eq_of_locate? {kind found : Kind} {path : Path} {place : Place}
    (h : kind.locate? path = some (place, found)) : place.length = path.length := by
  induction place generalizing kind path with
  | nil =>
    cases path with
    | nil => rfl
    | cons segment rest => exact absurd h Kind.locate?_cons_ne_nil
  | cons step place ih =>
    cases step with
    | slot i =>
      obtain ⟨_, _, _, _, _, rfl, _, hrest⟩ := Kind.eq_nested_of_locate? h
      rw [List.length_cons, List.length_cons, ih hrest]
    | item i =>
      obtain ⟨_, _, _, _, rfl, _, hrest⟩ := Kind.eq_collection_of_locate? h
      rw [List.length_cons, List.length_cons, ih hrest]

theorem Kind.exists_front_of_locate? {kind found : Kind} {path : Path} {before rest : Place}
    (h : kind.locate? path = some (before ++ rest, found)) :
    ∃ front back inner, path = front ++ back ∧ kind.locate? front = some (before, inner) ∧
      inner.locate? back = some (rest, found) := by
  induction before generalizing kind path with
  | nil => exact ⟨[], path, kind, rfl, by cases kind <;> rfl, h⟩
  | cons step before ih =>
    cases step with
    | slot i =>
      obtain ⟨type, name, path, kind, rfl, rfl, hfind, hrest⟩ := Kind.eq_nested_of_locate? h
      obtain ⟨front, back, inner, rfl, hfront, hback⟩ := ih hrest
      exact ⟨name :: front, back, inner, rfl, Kind.locate?_cons_slot hfind hfront, hback⟩
    | item i =>
      obtain ⟨element, index, path, rfl, rfl, hindex, hrest⟩ := Kind.eq_collection_of_locate? h
      obtain ⟨front, back, inner, rfl, hfront, hback⟩ := ih hrest
      exact ⟨index :: front, back, inner, rfl, Kind.locate?_cons_item hindex hfront, hback⟩

theorem RecordType.find?_inj {type : RecordType} {name name' : String} {i : Nat} {kind kind' : Kind}
    (h : type.find? name = some (i, kind)) (h' : type.find? name' = some (i, kind')) :
    name = name' ∧ kind = kind' := by
  have hfield := Field.find?_eq_some h
  rw [Field.find?_eq_some h', Option.some.injEq, Field.mk.injEq] at hfield
  exact ⟨hfield.1.symm, hfield.2.symm⟩

/-! ## What conforming says about parts -/

theorem Value.slotsConform_iff {values : List Value} {fields : List Field} :
    Value.SlotsConform values fields ↔
      values.length = fields.length ∧
        ∀ (i : Nat) (field : Field), fields[i]? = some field →
          (values[i]?.getD .unset).Conforms field.kind := by
  induction values generalizing fields with
  | nil => cases fields <;> simp [Value.SlotsConform, Value.Conforms]
  | cons value values ih =>
    cases fields with
    | nil => simp [Value.SlotsConform]
    | cons field fields =>
      rw [Value.SlotsConform, ih]
      constructor
      · rintro ⟨hvalue, hlength, hvalues⟩
        refine ⟨by simp [hlength], ?_⟩
        intro i other h
        cases i with
        | zero =>
          rw [List.getElem?_cons_zero, Option.some.injEq] at h
          rw [← h]
          exact hvalue
        | succ i => exact hvalues i other h
      · rintro ⟨hlength, h⟩
        refine ⟨h 0 field rfl, by simpa using hlength, ?_⟩
        intro i other hother
        exact h (i + 1) other hother

theorem Value.conforms_unset (kind : Kind) : Value.unset.Conforms kind := by
  unfold Value.Conforms
  trivial

theorem Value.conforms_nested_iff {type : RecordType} {slots : List Value} {kind : Kind} :
    (Value.nested ⟨type, slots⟩).Conforms kind ↔
      kind = .nested type ∧ Value.SlotsConform slots type.fields := by
  rw [Value.Conforms, Record.Conforms]

theorem Value.conforms_collection_iff {items : List Value} {kind : Kind} :
    (Value.collection items).Conforms kind ↔
      ∃ element, kind = .collection element ∧ Value.AllConform element items := by
  rw [Value.Conforms]

def Value.slotsAs (type : RecordType) : Value → List Value
  | .nested record => record.slots
  | _ => List.replicate type.fields.length .unset

namespace Value.Conforms

variable {value : Value} {type : RecordType} {element : Kind}

theorem record?_eq (h : value.Conforms (.nested type)) :
    value.record? type = some ⟨type, value.slotsAs type⟩ := by
  cases value with
  | unset => rfl
  | scalar s => simp [Value.Conforms] at h
  | nested record =>
    rw [Value.Conforms, Kind.nested.injEq] at h
    rw [h.1]
    cases record
    rfl
  | collection items => simp [Value.Conforms] at h

theorem items?_eq (h : value.Conforms (.collection element)) :
    value.items? = some value.items := by
  cases value with
  | unset => rfl
  | scalar s => simp [Value.Conforms] at h
  | nested record => simp [Value.Conforms] at h
  | collection items => rfl

theorem slotsAs (h : value.Conforms (.nested type)) :
    Value.SlotsConform (value.slotsAs type) type.fields := by
  cases value with
  | unset => exact Record.conforms_empty type
  | scalar s => simp [Value.Conforms] at h
  | nested record =>
    cases record
    rw [Value.conforms_nested_iff, Kind.nested.injEq] at h
    rw [h.1]
    exact h.2
  | collection items => simp [Value.Conforms] at h

theorem items (h : value.Conforms (.collection element)) :
    Value.AllConform element value.items := by
  cases value with
  | unset => trivial
  | scalar s => simp [Value.Conforms] at h
  | nested record => simp [Value.Conforms] at h
  | collection items =>
    obtain ⟨_, hkind, hall⟩ := conforms_collection_iff.1 h
    rw [Kind.collection.injEq] at hkind
    rw [hkind]
    exact hall

theorem part_slot_eq (h : value.Conforms (.nested type)) (i : Nat) :
    value.part (.slot i) = (value.slotsAs type)[i]?.getD .unset := by
  cases value with
  | unset =>
    dsimp only [Value.slotsAs]
    rw [List.getElem?_replicate]
    split <;> rfl
  | scalar s => simp [Value.Conforms] at h
  | nested record => rfl
  | collection items => simp [Value.Conforms] at h

theorem part_slot {i : Nat} {field : Field} (h : value.Conforms (.nested type))
    (hfield : type.fields[i]? = some field) : (value.part (.slot i)).Conforms field.kind := by
  rw [h.part_slot_eq]
  exact (Value.slotsConform_iff.1 h.slotsAs).2 i field hfield

theorem part_item (h : value.Conforms (.collection element)) (i : Nat) :
    (value.part (.item i)).Conforms element := by
  rw [part_item_eq]
  cases hitem : value.items[i]? with
  | none => exact conforms_unset element
  | some item => exact (allConform_iff.1 h.items item (List.mem_of_getElem? hitem)).2

end Value.Conforms

theorem Value.Conforms.exists_part {value : Value} {kind : Kind} (h : value.Conforms kind)
    (step : Step) : ∃ inner, (value.part step).Conforms inner := by
  cases value with
  | unset => exact ⟨kind, by rw [part_unset]; exact conforms_unset kind⟩
  | scalar s => exact ⟨kind, by rw [part_scalar]; exact conforms_unset kind⟩
  | nested record =>
    cases step with
    | item i => exact ⟨kind, conforms_unset kind⟩
    | slot i =>
      obtain ⟨type, slots⟩ := record
      obtain ⟨rfl, _⟩ := conforms_nested_iff.1 h
      cases hfield : type.fields[i]? with
      | some field => exact ⟨field.kind, h.part_slot hfield⟩
      | none =>
        have hlength := h.slotsAs.length_eq
        rw [List.getElem?_eq_none_iff, ← hlength] at hfield
        rw [h.part_slot_eq, List.getElem?_eq_none hfield]
        exact ⟨_, conforms_unset (.nested type)⟩
  | collection items =>
    obtain ⟨element, rfl, _⟩ := conforms_collection_iff.1 h
    cases step with
    | slot i => exact ⟨element, conforms_unset element⟩
    | item i => exact ⟨element, h.part_item i⟩

theorem Value.Conforms.exists_get {value : Value} {kind : Kind} (h : value.Conforms kind)
    (place : Place) : ∃ inner, (value.get place).Conforms inner := by
  induction place generalizing value kind with
  | nil => exact ⟨kind, h⟩
  | cons step place ih =>
    obtain ⟨inner, hinner⟩ := h.exists_part step
    exact ih hinner

theorem Value.Conforms.part_item_ne {value : Value} {kind : Kind} (h : value.Conforms kind)
    {i : Nat} (hi : i < value.count) : value.part (.item i) ≠ .unset := by
  cases value with
  | collection items =>
    obtain ⟨element, _, hall⟩ := conforms_collection_iff.1 h
    rw [part_item_eq, List.getElem?_eq_getElem hi]
    exact (allConform_iff.1 hall _ (List.getElem_mem hi)).1
  | _ => exact absurd hi (Nat.not_lt_zero i)

theorem Record.Conforms.slot?_eq {record : Record} {name : String} {i : Nat} {kind : Kind}
    (h : (Value.nested record).Conforms (.nested record.type))
    (hfind : record.type.find? name = some (i, kind)) :
    record.slot? name = some ((Value.nested record).part (.slot i)) := by
  have hlength := h.slotsAs.length_eq
  have hi := (List.getElem?_eq_some_iff.1 (Field.find?_eq_some hfind)).1
  unfold Record.slot? RecordType.slot?
  rw [hfind]
  dsimp only [Option.map_some, Option.bind_some, Value.part, Value.slotsAs] at hlength ⊢
  rw [List.getElem?_eq_getElem (by omega)]
  rfl

theorem Value.none_eq_some_iff {found : Value} :
    (none : Option Value) = some found ↔ Value.unset = found ∧ found ≠ .unset := by
  constructor
  · simp
  · rintro ⟨rfl, h⟩
    exact absurd rfl h

theorem Value.read?_eq_some_iff {value found : Value} {kind inner : Kind} {path : Path}
    {place : Place} (h : value.Conforms kind)
    (hplace : kind.locate? path = some (place, inner)) :
    value.read? path = some found ↔ value.get place = found ∧ found ≠ .unset := by
  induction path generalizing value kind place with
  | nil =>
    simp only [Kind.locate?, Option.some.injEq, Prod.mk.injEq] at hplace
    rw [← hplace.1, get_nil]
    cases value <;> simp [Value.read?]
    all_goals
      rintro rfl
      simp
  | cons segment rest ih =>
    cases kind with
    | primitive p => simp [Kind.locate?] at hplace
    | nested type =>
      simp only [Kind.locate?, Option.bind_eq_some_iff, Option.map_eq_some_iff, Prod.exists,
        Prod.mk.injEq] at hplace
      obtain ⟨i, kind, hfind, place, _, hrest, rfl, rfl⟩ := hplace
      have hpart := h.part_slot (Field.find?_eq_some hfind)
      cases value with
      | nested record =>
        have htype : type = record.type := by
          rw [Value.Conforms, Kind.nested.injEq] at h
          exact h.1
        subst htype
        rw [Value.read?, Record.Conforms.slot?_eq h hfind]
        exact ih hpart hrest
      | unset =>
        rw [get_cons, part_unset, get_unset]
        exact none_eq_some_iff
      | scalar s => simp [Value.Conforms] at h
      | collection items => simp [Value.Conforms] at h
    | collection element =>
      simp only [Kind.locate?, Option.bind_eq_some_iff, Option.map_eq_some_iff, Prod.exists,
        Prod.mk.injEq] at hplace
      obtain ⟨i, hindex, place, _, hrest, rfl, rfl⟩ := hplace
      have hpart := h.part_item i
      cases value with
      | collection items =>
        rw [Value.read?, hindex, Option.bind_some, get_cons]
        cases hitem : items[i]? with
        | some item =>
          have heq : (Value.collection items).part (.item i) = item := by simp [Value.part, hitem]
          rw [heq] at hpart ⊢
          exact ih hpart hrest
        | none =>
          have heq : (Value.collection items).part (.item i) = .unset := by
            simp [Value.part, hitem]
          rw [heq, get_unset]
          exact none_eq_some_iff
      | unset =>
        rw [get_cons, part_unset, get_unset]
        exact none_eq_some_iff
      | scalar s => simp [Value.Conforms] at h
      | nested record => simp [Value.Conforms] at h

theorem Value.Conforms.get_of_locate? {value : Value} {kind inner : Kind} {path : Path}
    {place : Place} (h : value.Conforms kind) (hplace : kind.locate? path = some (place, inner)) :
    (value.get place).Conforms inner := by
  induction place generalizing value kind path with
  | nil =>
    cases path with
    | nil =>
      simp only [Kind.locate?, Option.some.injEq, Prod.mk.injEq, true_and] at hplace
      rw [← hplace]
      exact h
    | cons segment rest => cases kind <;> simp [Kind.locate?, Option.bind_eq_some_iff] at hplace
  | cons step place ih =>
    cases step with
    | slot i =>
      obtain ⟨type, name, rest, kind, rfl, rfl, hfind, hrest⟩ := Kind.eq_nested_of_locate? hplace
      exact ih (h.part_slot (Field.find?_eq_some hfind)) hrest
    | item i =>
      obtain ⟨element, index, rest, rfl, rfl, _, hrest⟩ := Kind.eq_collection_of_locate? hplace
      exact ih (h.part_item i) hrest

theorem Value.exists_locate?_of_read? {value found : Value} {kind : Kind} {path : Path}
    (h : value.Conforms kind) (hread : value.read? path = some found) :
    ∃ place inner, kind.locate? path = some (place, inner) ∧ value.get place = found := by
  suffices hplace : ∃ place inner, kind.locate? path = some (place, inner) by
    obtain ⟨place, inner, hplace⟩ := hplace
    exact ⟨place, inner, hplace, ((Value.read?_eq_some_iff h hplace).1 hread).1⟩
  induction path generalizing value kind with
  | nil => exact ⟨[], kind, rfl⟩
  | cons segment rest ih =>
    cases value with
    | unset => simp [Value.read?] at hread
    | scalar s => simp [Value.read?] at hread
    | nested record =>
      have hkind : kind = .nested record.type := by
        rw [Value.Conforms] at h
        exact h.1
      subst hkind
      simp only [Value.read?, Option.bind_eq_some_iff] at hread
      obtain ⟨slot, hslot, hrest⟩ := hread
      cases hfind : record.type.find? segment with
      | none => simp [Record.slot?, RecordType.slot?, hfind] at hslot
      | some field =>
        obtain ⟨i, inner⟩ := field
        rw [Record.Conforms.slot?_eq h hfind, Option.some.injEq] at hslot
        rw [← hslot] at hrest
        obtain ⟨place, found, hplace⟩ := ih (h.part_slot (Field.find?_eq_some hfind)) hrest
        exact ⟨_, found, Kind.locate?_cons_slot hfind hplace⟩
    | collection items =>
      obtain ⟨element, rfl, hall⟩ := conforms_collection_iff.1 h
      simp only [Value.read?, Option.bind_eq_some_iff] at hread
      obtain ⟨i, hindex, item, hitem, hrest⟩ := hread
      have hconforms := (allConform_iff.1 hall item (List.mem_of_getElem? hitem)).2
      obtain ⟨place, found, hplace⟩ := ih hconforms hrest
      exact ⟨_, found, Kind.locate?_cons_item hindex hplace⟩

theorem Record.read?_eq_some_iff {record : Record} {found : Value} {path : Path}
    (h : (Value.nested record).Conforms (.nested record.type)) :
    record.read? path = some found ↔
      path ≠ [] ∧ ∃ place inner, (Kind.nested record.type).locate? path = some (place, inner) ∧
        (Value.nested record).get place = found ∧ found ≠ .unset := by
  cases path with
  | nil => simp [Record.read?]
  | cons name rest =>
    have hread : record.read? (name :: rest) = (Value.nested record).read? (name :: rest) := rfl
    rw [hread]
    constructor
    · intro hfound
      obtain ⟨place, inner, hplace, hget⟩ := Value.exists_locate?_of_read? h hfound
      exact ⟨by simp, place, inner, hplace, hget, Value.read?_ne_unset hfound⟩
    · rintro ⟨_, place, inner, hplace, hget⟩
      exact (Value.read?_eq_some_iff h hplace).2 hget

end RowTree
