import RowTree.Proofs.Record.Place
import RowTree.Proofs.Text.Numeral

/-!
This module contains what the paths of leaves say. In types whose names can be told apart in
dotted text (`Kind.Addressable`), the leaves of a value are its scalars under the paths that lead
to their places (`Value.locate?_of_mem_leaves`, `Value.exists_mem_leaves`).
-/

namespace RowTree

/-! ## Types with addressable fields -/

mutual

/--
All fields inside the kind can be told apart by their texts in a dotted path.
-/
def Kind.Addressable : Kind → Prop
  | .primitive _ => True
  | .nested type => type.Addressable
  | .collection element => element.Addressable
termination_by structural kind => kind

/--
The fields have distinct names, and so has every type inside them.
-/
def RecordType.Addressable : RecordType → Prop
  | ⟨_, fields⟩ => (fields.map (·.name)).Nodup ∧ Field.AllAddressable fields
termination_by structural type => type

def Field.AllAddressable : List Field → Prop
  | [] => True
  | field :: fields => field.Addressable ∧ Field.AllAddressable fields
termination_by structural fields => fields

/--
The name holds no dot and no blank at its ends.
-/
def Field.Addressable : Field → Prop
  | ⟨name, kind⟩ => '.' ∉ name.toList ∧ Text.trim name = name ∧ kind.Addressable
termination_by structural field => field

end

theorem Field.allAddressable_iff {fields : List Field} :
    Field.AllAddressable fields ↔ ∀ field ∈ fields, field.Addressable := by
  induction fields with
  | nil => simp [Field.AllAddressable]
  | cons field fields ih => simp [Field.AllAddressable, ih]

theorem RecordType.find?_eq_of_nodup {type : RecordType}
    (hnodup : (type.fields.map (·.name)).Nodup) {i : Nat} {field : Field}
    (hfield : type.fields[i]? = some field) : type.find? field.name = some (i, field.kind) := by
  unfold RecordType.find?
  generalize type.fields = fields at hfield hnodup
  induction fields generalizing i with
  | nil => simp at hfield
  | cons first rest ih =>
    rw [List.map_cons, List.nodup_cons] at hnodup
    unfold Field.find?
    cases i with
    | zero =>
      rw [List.getElem?_cons_zero, Option.some.injEq] at hfield
      rw [hfield, if_pos rfl]
    | succ i =>
      rw [List.getElem?_cons_succ] at hfield
      have hmem : field.name ∈ rest.map (·.name) :=
        List.mem_map_of_mem (List.mem_of_getElem? hfield)
      rw [if_neg (fun hname => hnodup.1 (by rw [hname]; exact hmem)), ih hfield hnodup.2]
      rfl

namespace RecordType.Addressable

variable {type : RecordType}

theorem nodup (h : type.Addressable) : (type.fields.map (·.name)).Nodup := by
  cases type
  exact h.1

theorem field (h : type.Addressable) {field : Field} (hfield : field ∈ type.fields) :
    '.' ∉ field.name.toList ∧ Text.trim field.name = field.name ∧ field.kind.Addressable := by
  cases type
  have haddressable := Field.allAddressable_iff.1 h.2 field hfield
  cases field
  exact haddressable

theorem find?_eq (h : type.Addressable) {i : Nat} {field : Field}
    (hfield : type.fields[i]? = some field) : type.find? field.name = some (i, field.kind) :=
  RecordType.find?_eq_of_nodup h.nodup hfield

end RecordType.Addressable

/-! ## Indices as texts -/

theorem Text.index?_indexText {i : Nat} (h : i < 0x10000000000000000) :
    Text.index? (indexText i) = some i := by
  have hdigits : Text.digits? (Text.ofNat i) = some i := Text.digits?_ofNat i
  have hmem : ∀ c ∈ Text.ofNat i, c.isDigit = true := fun _ => Text.isDigit_of_mem_ofNat
  unfold Text.index? indexText
  rw [String.toList_ofList]
  generalize Text.ofNat i = cs at hdigits hmem
  split
  · have hplus := hmem '+' (by simp)
    exact absurd hplus (by decide)
  · dsimp only
    rw [hdigits]
    simp [h]

theorem Text.trim_indexText (i : Nat) : Text.trim (indexText i) = indexText i := by
  unfold Text.trim indexText
  rw [String.toList_ofList, Text.trimList_ofNat]

theorem Text.dot_not_mem_indexText (i : Nat) : '.' ∉ (indexText i).toList := by
  unfold indexText
  rw [String.toList_ofList]
  intro hdot
  exact absurd (Text.isDigit_of_mem_ofNat hdot) (by decide)

theorem Text.lt_of_index? {text : String} {i : Nat} (h : Text.index? text = some i) :
    i < 0x10000000000000000 := by
  unfold Text.index? at h
  rw [Option.filter_eq_some_iff] at h
  simpa using h.2

/--
Every element has an index that a path can name.
-/
def Value.Indexable (value : Value) : Prop :=
  ∀ before i, i < (value.get before).count → i < 0x10000000000000000

theorem Value.Indexable.part {value : Value} (h : value.Indexable) (step : Step) :
    (value.part step).Indexable :=
  fun before => h (step :: before)

theorem Kind.item_lt_of_locate? {kind found : Kind} {path : Path} {place before : Place} {i : Nat}
    (h : kind.locate? path = some (place, found)) (hi : before ++ [.item i] <+: place) :
    i < 0x10000000000000000 := by
  obtain ⟨rest, rfl⟩ := hi
  induction before generalizing kind path with
  | nil =>
    obtain ⟨_, _, _, _, _, hindex, _⟩ := Kind.eq_collection_of_locate? h
    exact Text.lt_of_index? hindex
  | cons step before ih =>
    cases step with
    | slot j =>
      obtain ⟨_, _, _, _, _, _, _, hrest⟩ := Kind.eq_nested_of_locate? h
      exact ih hrest
    | item j =>
      obtain ⟨_, _, _, _, _, _, hrest⟩ := Kind.eq_collection_of_locate? h
      exact ih hrest

/-! ## The segment of a step -/

/--
The segment that leads through a step of values of the kind, and the kind behind it.
-/
def Kind.segment? : Kind → Step → Option (String × Kind)
  | .nested type, .slot i => type.fields[i]?.map fun field => (field.name, field.kind)
  | .collection element, .item i => some (indexText i, element)
  | _, _ => none

theorem Kind.exists_field_of_segment? {type : RecordType} {step : Step} {segment : String}
    {inner : Kind} (h : (Kind.nested type).segment? step = some (segment, inner)) :
    ∃ i field, step = .slot i ∧ type.fields[i]? = some field ∧ segment = field.name ∧
      inner = field.kind := by
  cases step with
  | item i => cases h
  | slot i =>
    unfold Kind.segment? at h
    rw [Option.map_eq_some_iff] at h
    obtain ⟨field, hfield, hpair⟩ := h
    rw [Prod.mk.injEq] at hpair
    exact ⟨i, field, rfl, hfield, hpair.1.symm, hpair.2.symm⟩

theorem Kind.exists_item_of_segment? {element : Kind} {step : Step} {segment : String}
    {inner : Kind} (h : (Kind.collection element).segment? step = some (segment, inner)) :
    ∃ i, step = .item i ∧ segment = indexText i ∧ inner = element := by
  cases step with
  | slot i => cases h
  | item i =>
    cases h
    exact ⟨i, rfl, rfl, rfl⟩

theorem Kind.Addressable.of_segment? {kind inner : Kind} {step : Step} {segment : String}
    (h : kind.Addressable) (hstep : kind.segment? step = some (segment, inner)) :
    ('.' ∉ segment.toList ∧ Text.trim segment = segment) ∧ inner.Addressable := by
  cases kind with
  | primitive p => cases hstep
  | nested type =>
    obtain ⟨i, field, rfl, hfield, rfl, rfl⟩ := Kind.exists_field_of_segment? hstep
    have hclean := RecordType.Addressable.field h (List.mem_of_getElem? hfield)
    exact ⟨⟨hclean.1, hclean.2.1⟩, hclean.2.2⟩
  | collection element =>
    obtain ⟨i, rfl, rfl, rfl⟩ := Kind.exists_item_of_segment? hstep
    exact ⟨⟨Text.dot_not_mem_indexText i, Text.trim_indexText i⟩, h⟩

theorem Kind.locate?_cons_of_segment? {kind inner found : Kind} {step : Step} {segment : String}
    {rest : Path} {place : Place} (h : kind.Addressable)
    (hstep : kind.segment? step = some (segment, inner))
    (hindex : ∀ i, step = .item i → i < 0x10000000000000000)
    (hrest : inner.locate? rest = some (place, found)) :
    kind.locate? (segment :: rest) = some (step :: place, found) := by
  cases kind with
  | primitive p => cases hstep
  | nested type =>
    obtain ⟨i, field, rfl, hfield, rfl, rfl⟩ := Kind.exists_field_of_segment? hstep
    exact Kind.locate?_cons_slot (RecordType.Addressable.find?_eq h hfield) hrest
  | collection element =>
    obtain ⟨i, rfl, rfl, rfl⟩ := Kind.exists_item_of_segment? hstep
    exact Kind.locate?_cons_item (Text.index?_indexText (hindex i rfl)) hrest

theorem Value.Conforms.part_of_segment? {value : Value} {kind inner : Kind} {step : Step}
    {segment : String} (h : value.Conforms kind)
    (hstep : kind.segment? step = some (segment, inner)) : (value.part step).Conforms inner := by
  cases kind with
  | primitive p => cases hstep
  | nested type =>
    obtain ⟨i, field, rfl, hfield, rfl, rfl⟩ := Kind.exists_field_of_segment? hstep
    exact h.part_slot hfield
  | collection element =>
    obtain ⟨i, rfl, rfl, rfl⟩ := Kind.exists_item_of_segment? hstep
    exact h.part_item i

/-! ## Leaves and places -/

namespace Value

theorem mem_elementLeaves_iff {path : Path} {s : Scalar} {k : Nat} {items : List Value} :
    (path, s) ∈ Value.elementLeaves k items ↔
      ∃ i item rest, items[i]? = some item ∧ path = indexText (k + i) :: rest ∧
        (rest, s) ∈ item.leaves := by
  induction items generalizing k with
  | nil => simp [Value.elementLeaves]
  | cons item items ih =>
    rw [Value.elementLeaves, List.mem_append, List.mem_map, ih]
    constructor
    · rintro (⟨⟨rest, t⟩, hleaf, hpair⟩ | ⟨i, other, rest, hitem, hpath, hleaf⟩)
      · rw [Prod.mk.injEq] at hpair
        obtain ⟨rfl, rfl⟩ := hpair
        exact ⟨0, item, rest, rfl, rfl, hleaf⟩
      · exact ⟨i + 1, other, rest, hitem, by rw [hpath]; congr 2; omega, hleaf⟩
    · rintro ⟨i, other, rest, hitem, hpath, hleaf⟩
      cases i with
      | zero =>
        rw [List.getElem?_cons_zero, Option.some.injEq] at hitem
        rw [hitem]
        exact .inl ⟨(rest, s), hleaf, by rw [hpath]; rfl⟩
      | succ i => exact .inr ⟨i, other, rest, hitem, by rw [hpath]; congr 2; omega, hleaf⟩

theorem mem_slotLeaves_iff {path : Path} {s : Scalar} {names : List String} {values : List Value} :
    (path, s) ∈ Value.slotLeaves names values ↔
      ∃ (i : Nat) (name : String) (value : Value) (rest : Path), names[i]? = some name ∧
        values[i]? = some value ∧ path = name :: rest ∧ (rest, s) ∈ value.leaves := by
  induction values generalizing names with
  | nil => cases names <;> simp [Value.slotLeaves]
  | cons value values ih =>
    cases names with
    | nil => simp [Value.slotLeaves]
    | cons name names =>
      rw [Value.slotLeaves, List.mem_append, List.mem_map, ih]
      constructor
      · rintro (⟨⟨rest, t⟩, hleaf, hpair⟩ | ⟨i, other, found, rest, hname, hvalue, hpath, hleaf⟩)
        · rw [Prod.mk.injEq] at hpair
          obtain ⟨rfl, rfl⟩ := hpair
          exact ⟨0, name, value, rest, rfl, rfl, rfl, hleaf⟩
        · exact ⟨i + 1, other, found, rest, hname, hvalue, hpath, hleaf⟩
      · rintro ⟨i, other, found, rest, hname, hvalue, hpath, hleaf⟩
        cases i with
        | zero =>
          rw [List.getElem?_cons_zero, Option.some.injEq] at hname hvalue
          rw [hname, hvalue]
          exact .inl ⟨(rest, s), hleaf, by rw [hpath]⟩
        | succ i => exact .inr ⟨i, other, found, rest, hname, hvalue, hpath, hleaf⟩

theorem mem_leaves_nil_iff {value : Value} {s : Scalar} :
    ([], s) ∈ value.leaves ↔ value = .scalar s := by
  cases value with
  | unset => simp [Value.leaves]
  | scalar t => simp [Value.leaves, eq_comm]
  | nested record =>
    cases record
    simp [Value.leaves, Record.leaves, mem_slotLeaves_iff]
  | collection items => simp [Value.leaves, mem_elementLeaves_iff]

theorem mem_leaves_cons_iff {value : Value} {kind : Kind} (h : value.Conforms kind)
    {segment : String} {rest : Path} {s : Scalar} :
    (segment :: rest, s) ∈ value.leaves ↔
      ∃ step inner, kind.segment? step = some (segment, inner) ∧
        (rest, s) ∈ (value.part step).leaves := by
  cases value with
  | unset => simp [Value.leaves]
  | scalar t => simp [Value.leaves]
  | nested record =>
    obtain ⟨type, slots⟩ := record
    obtain ⟨rfl, hslots⟩ := conforms_nested_iff.1 h
    rw [Value.leaves, Record.leaves, mem_slotLeaves_iff]
    constructor
    · rintro ⟨i, name, inner, back, hname, hinner, hpath, hleaf⟩
      rw [List.cons.injEq] at hpath
      obtain ⟨rfl, rfl⟩ := hpath
      rw [List.getElem?_map, Option.map_eq_some_iff] at hname
      obtain ⟨field, hfield, rfl⟩ := hname
      refine ⟨.slot i, field.kind, ?_, ?_⟩
      · dsimp only [Kind.segment?]
        rw [hfield]
        rfl
      · dsimp only [part]
        rw [hinner]
        exact hleaf
    · rintro ⟨step, inner, hstep, hleaf⟩
      obtain ⟨i, field, rfl, hfield, rfl, rfl⟩ := Kind.exists_field_of_segment? hstep
      have hi : i < slots.length := by
        rw [hslots.length_eq]
        exact (List.getElem?_eq_some_iff.1 hfield).1
      refine ⟨i, field.name, slots[i], rest, ?_, List.getElem?_eq_getElem hi, rfl, ?_⟩
      · rw [List.getElem?_map, hfield]
        rfl
      · dsimp only [part] at hleaf
        rw [List.getElem?_eq_getElem hi] at hleaf
        exact hleaf
  | collection items =>
    obtain ⟨element, rfl, _⟩ := conforms_collection_iff.1 h
    rw [Value.leaves, mem_elementLeaves_iff]
    constructor
    · rintro ⟨i, inner, back, hinner, hpath, hleaf⟩
      rw [List.cons.injEq, Nat.zero_add] at hpath
      obtain ⟨rfl, rfl⟩ := hpath
      refine ⟨.item i, element, rfl, ?_⟩
      dsimp only [part]
      rw [hinner]
      exact hleaf
    · rintro ⟨step, inner, hstep, hleaf⟩
      obtain ⟨i, rfl, rfl, rfl⟩ := Kind.exists_item_of_segment? hstep
      have hset : (Value.collection items).part (.item i) ≠ .unset := by
        intro hunset
        rw [hunset] at hleaf
        cases hleaf
      have hi : i < items.length := lt_of_part_item_ne hset
      refine ⟨i, items[i], rest, List.getElem?_eq_getElem hi, by rw [Nat.zero_add], ?_⟩
      dsimp only [part] at hleaf
      rw [List.getElem?_eq_getElem hi] at hleaf
      exact hleaf

theorem exists_segment?_of_part_ne {value : Value} {kind : Kind} (h : value.Conforms kind)
    {step : Step} (hset : value.part step ≠ .unset) :
    ∃ segment inner, kind.segment? step = some (segment, inner) := by
  cases value with
  | unset => simp at hset
  | scalar s => simp at hset
  | nested record =>
    obtain ⟨type, slots⟩ := record
    obtain ⟨rfl, hslots⟩ := conforms_nested_iff.1 h
    cases step with
    | item i => exact absurd rfl hset
    | slot i =>
      have hi : i < slots.length := lt_of_part_slot_ne hset
      dsimp only [Kind.segment?]
      rw [List.getElem?_eq_getElem (hslots.length_eq ▸ hi)]
      exact ⟨_, _, rfl⟩
  | collection items =>
    obtain ⟨element, rfl, _⟩ := conforms_collection_iff.1 h
    cases step with
    | slot i => exact absurd rfl hset
    | item i => exact ⟨_, _, rfl⟩

theorem ne_unset_of_get_eq_scalar {value : Value} {place : Place} {s : Scalar}
    (hget : value.get place = .scalar s) : value ≠ .unset := by
  rintro rfl
  rw [get_unset] at hget
  cases hget

section Leaves

variable {value : Value} {kind : Kind} {s : Scalar}

theorem exists_mem_leaves_of_get (h : value.Conforms kind) {place : Place}
    (hget : value.get place = .scalar s) : ∃ path, (path, s) ∈ value.leaves := by
  induction place generalizing value kind with
  | nil => exact ⟨[], mem_leaves_nil_iff.2 hget⟩
  | cons step place ih =>
    rw [get_cons] at hget
    obtain ⟨segment, inner, hstep⟩ := exists_segment?_of_part_ne h (ne_unset_of_get_eq_scalar hget)
    obtain ⟨path, hleaf⟩ := ih (h.part_of_segment? hstep) hget
    exact ⟨segment :: path, (mem_leaves_cons_iff h).2 ⟨step, inner, hstep, hleaf⟩⟩

/--
The path of a leaf leads to the place of its scalar, and comes back from its dotted text.
-/
theorem locate?_of_mem_leaves (h : value.Conforms kind) (hkind : kind.Addressable)
    (hindexable : value.Indexable) {path : Path} (hleaf : (path, s) ∈ value.leaves) :
    (∃ place, kind.locate? path = some (place, .primitive s.primitive) ∧
        value.get place = .scalar s) ∧
      ∀ segment ∈ path, '.' ∉ segment.toList ∧ Text.trim segment = segment := by
  induction path generalizing value kind with
  | nil =>
    rw [mem_leaves_nil_iff] at hleaf
    subst hleaf
    rw [Value.Conforms] at h
    exact ⟨⟨[], by rw [h]; rfl, rfl⟩, by simp⟩
  | cons segment rest ih =>
    obtain ⟨step, inner, hstep, hrest⟩ := (mem_leaves_cons_iff h).1 hleaf
    obtain ⟨hsegment, hinner⟩ := hkind.of_segment? hstep
    obtain ⟨⟨place, hplace, hget⟩, hsegments⟩ := ih (h.part_of_segment? hstep) hinner
      (hindexable.part step) hrest
    refine ⟨⟨step :: place, ?_, hget⟩, ?_⟩
    · apply Kind.locate?_cons_of_segment? hkind hstep _ hplace
      rintro i rfl
      exact hindexable [] i (lt_of_part_item_ne (ne_unset_of_get_eq_scalar hget))
    · rw [List.forall_mem_cons]
      exact ⟨hsegment, hsegments⟩

theorem exists_mem_leaves (h : value.Conforms kind) (hkind : kind.Addressable)
    (hindexable : value.Indexable) {place : Place} (hget : value.get place = .scalar s) :
    ∃ path, (path, s) ∈ value.leaves ∧
      kind.locate? path = some (place, .primitive s.primitive) := by
  induction place generalizing value kind with
  | nil =>
    rw [get_nil] at hget
    subst hget
    rw [Value.Conforms] at h
    exact ⟨[], mem_leaves_nil_iff.2 rfl, by rw [h]; rfl⟩
  | cons step place ih =>
    rw [get_cons] at hget
    have hset := ne_unset_of_get_eq_scalar hget
    obtain ⟨segment, inner, hstep⟩ := exists_segment?_of_part_ne h hset
    obtain ⟨path, hleaf, hpath⟩ := ih (h.part_of_segment? hstep) (hkind.of_segment? hstep).2
      (hindexable.part step) hget
    refine ⟨segment :: path, (mem_leaves_cons_iff h).2 ⟨step, inner, hstep, hleaf⟩, ?_⟩
    apply Kind.locate?_cons_of_segment? hkind hstep _ hpath
    rintro i rfl
    exact hindexable [] i (lt_of_part_item_ne hset)

end Leaves

end Value

end RowTree
