import RowTree.Proofs.Record.Filled
import RowTree.Proofs.Record.Import
import RowTree.Proofs.Record.Indexable

/-!
This module contains the way of a record through its entries and back. A record that successful
writes built is what an import makes of its leaves, in whatever order they come
(`Record.importEntries_toEntries`).
-/

namespace RowTree

namespace Record

inductive Written (type : RecordType) : Record → Prop where
  | empty : Written type (.empty type)
  | write {record : Record} (h : Written type record) (path : Path) (scalar : Scalar)
      (hok : (record.write path scalar).error? = none) :
      Written type (record.write path scalar).value

namespace Written

variable {type : RecordType} {record : Record}

theorem type_eq (h : record.Written type) : record.type = type := by
  induction h with
  | empty => rfl
  | write _ path scalar _ ih => rw [Record.type_write, ih]

theorem conforms (h : record.Written type) : (Value.nested record).Conforms (.nested type) := by
  induction h with
  | empty => exact (Record.conforms_empty type).nested
  | @write record h path scalar hok ih =>
    rcases Record.write_effect ih.record path scalar with ⟨_, place, s, _, _, hstored⟩ | ⟨hno, _⟩
    · rw [h.type_eq] at hstored
      exact hstored.conforms ih
    · exact absurd hok hno

theorem stored (h : record.Written type) {path : Path} {scalar : Scalar}
    (hok : (record.write path scalar).error? = none) :
    ∃ place s, (Kind.nested type).locate? path = some (place, .primitive s.primitive) ∧
      Value.Stored s place (.nested type) (.nested record)
        (.nested (record.write path scalar).value) := by
  rcases Record.write_effect h.conforms.record path scalar with
    ⟨_, place, s, hplace, _, hstored⟩ | ⟨hno, _⟩
  · rw [h.type_eq] at hplace hstored
    exact ⟨place, s, hplace, hstored⟩
  · exact absurd hok hno

theorem filled_part (h : record.Written type) (step : Step) :
    ((Value.nested record).part step).Filled := by
  induction h generalizing step with
  | empty =>
    rw [Value.part_slot_empty]
    exact Value.filled_unset
  | write h path scalar hok ih =>
    obtain ⟨place, s, _, hstored⟩ := h.stored hok
    exact hstored.filled_part h.conforms ih step

theorem exists_scalar_below (h : record.Written type) {place : Place} (hne : place ≠ [])
    (hset : (Value.nested record).get place ≠ .unset) :
    ∃ rest s, (Value.nested record).get (place ++ rest) = .scalar s := by
  cases place with
  | nil => exact absurd rfl hne
  | cons step place => exact h.filled_part step place hset

theorem indexable (h : record.Written type) : (Value.nested record).Indexable := by
  induction h with
  | empty => exact Value.indexable_empty type
  | write h path scalar hok ih => exact Record.indexable_write h.conforms.record ih path scalar

theorem writeAll (h : record.Written type) {entries : List Entry}
    (hok : (record.writeAll entries).2 = []) : (record.writeAll entries).1.Written type := by
  induction entries generalizing record with
  | nil => exact h
  | cons entry rest ih =>
    obtain ⟨hentry, hrest⟩ := Record.snd_writeAll_cons_eq_nil_iff.1 hok
    rw [Record.writeAll_cons_of_ok rest hentry]
    exact ih (h.write entry.path entry.value hentry) hrest

theorem eq_of_alike {other : Record} (h : record.Written type) (h' : other.Written type)
    (halike : (Value.nested record).Alike (.nested other)) : record = other := by
  have hconforms := h.conforms
  have hconforms' := h'.conforms
  obtain ⟨t, slots⟩ := record
  obtain ⟨t', others⟩ := other
  obtain ⟨htype, hslots⟩ := Value.conforms_nested_iff.1 hconforms
  obtain ⟨htype', hslots'⟩ := Value.conforms_nested_iff.1 hconforms'
  rw [Kind.nested.injEq] at htype htype'
  subst htype
  subst htype'
  have heq : slots = others := by
    apply Value.eq_of_part_slot (hslots.length_eq.trans hslots'.length_eq.symm)
    intro i hi
    obtain ⟨field, hfield⟩ : ∃ field, type.fields[i]? = some field :=
      ⟨_, List.getElem?_eq_getElem (hslots.length_eq ▸ hi)⟩
    exact Value.eq_of_alike (hconforms.part_slot hfield) (hconforms'.part_slot hfield)
      (h.filled_part _) (h'.filled_part _) (halike.part _)
  rw [heq]

/-! ## Entries of a written record -/

theorem path_ne_nil {path : Path} {place : Place} {p : Primitive}
    (h : (Kind.nested type).locate? path = some (place, .primitive p)) : path ≠ [] := by
  rintro rfl
  simp [Kind.locate?] at h

theorem target?_of_mem (h : record.Written type) (htype : type.Addressable) {entry : Entry}
    (hentry : entry ∈ record.toEntries) :
    ∃ place s, entry.target? type = some (place, s) ∧
      (Value.nested record).get place = .scalar s := by
  unfold Record.toEntries at hentry
  rw [List.mem_map] at hentry
  obtain ⟨⟨path, s⟩, hleaf, rfl⟩ := hentry
  have hleaf' : (path, s) ∈ (Value.nested record).leaves := by
    rw [Value.leaves]
    exact hleaf
  obtain ⟨⟨place, hplace, hget⟩, hsegments⟩ :=
    Value.locate?_of_mem_leaves h.conforms htype h.indexable hleaf'
  refine ⟨place, s, Entry.target?_eq_some_iff.2 ⟨?_, Primitive.coerce?_self s⟩, hget⟩
  unfold Entry.path
  rw [Path.ofText_text (path_ne_nil hplace) hsegments]
  exact hplace

theorem exists_mem_of_get (h : record.Written type) (htype : type.Addressable) {place : Place}
    {s : Scalar} (hget : (Value.nested record).get place = .scalar s) :
    ∃ entry ∈ record.toEntries, entry.target? type = some (place, s) := by
  obtain ⟨path, hleaf, hplace⟩ :=
    Value.exists_mem_leaves h.conforms htype h.indexable hget
  have hsegments := (Value.locate?_of_mem_leaves h.conforms htype h.indexable hleaf).2
  rw [Value.leaves] at hleaf
  refine ⟨⟨path.text, s⟩, List.mem_map.2 ⟨(path, s), hleaf, rfl⟩, ?_⟩
  apply Entry.target?_eq_some_iff.2
  unfold Entry.path
  rw [Path.ofText_text (path_ne_nil hplace) hsegments]
  exact ⟨hplace, Primitive.coerce?_self s⟩

end Written

/--
The entries write the scalars of the record, each after a change, and nothing else.
-/
structure Transcribed (type : RecordType) (record : Record) (change : Scalar → Scalar)
    (entries : List Entry) : Prop where
  exists_scalar : ∀ entry ∈ entries, ∃ place s, (Value.nested record).get place = .scalar s ∧
    entry.target? type = some (place, change s)
  exists_entry : ∀ place s, (Value.nested record).get place = .scalar s →
    ∃ entry ∈ entries, entry.target? type = some (place, change s)

namespace Transcribed

variable {type : RecordType} {record : Record} {change : Scalar → Scalar} {entries : List Entry}

theorem exists_passes_iff (ht : record.Transcribed type change entries)
    (h : record.Written type) {before : Place} {i : Nat} :
    (∃ entry ∈ entries, entry.Passes type before i) ↔
      i < ((Value.nested record).get before).count := by
  constructor
  · rintro ⟨entry, hentry, place, s, htarget, hfront⟩
    obtain ⟨_, _, hget, htarget'⟩ := ht.exists_scalar entry hentry
    rw [htarget, Option.some.injEq, Prod.mk.injEq] at htarget'
    obtain ⟨rfl, rfl⟩ := htarget'
    apply Value.lt_count_of_front _ hfront
    simp [hget]
  · intro hi
    obtain ⟨inner, hinner⟩ := h.conforms.exists_get before
    have hset := hinner.part_item_ne hi
    have hget : (Value.nested record).get (before ++ [.item i]) ≠ .unset := by
      rw [Value.get_append]
      exact hset
    -- the element is filled, so that a leaf stands below it
    obtain ⟨rest, s, hs⟩ := h.exists_scalar_below (by simp) hget
    obtain ⟨entry, hentry, htarget⟩ := ht.exists_entry _ s hs
    exact ⟨entry, hentry, _, _, htarget, List.prefix_append _ rest⟩

theorem lastAt?_eq (ht : record.Transcribed type change entries) (place : Place) :
    Entry.lastAt? type entries place = ((Value.nested record).get place).scalar?.map change := by
  have hsound : ∀ s, Entry.lastAt? type entries place = some s →
      ((Value.nested record).get place).scalar?.map change = some s := by
    intro s hlast
    obtain ⟨entry, hentry, htarget⟩ := Entry.exists_mem_of_lastAt? hlast
    obtain ⟨_, _, hget, htarget'⟩ := ht.exists_scalar entry hentry
    rw [htarget, Option.some.injEq, Prod.mk.injEq] at htarget'
    rw [htarget'.1, htarget'.2, hget]
    rfl
  cases hlast : Entry.lastAt? type entries place with
  | some s => exact (hsound s hlast).symm
  | none =>
    cases hscalar : ((Value.nested record).get place).scalar? with
    | none => rfl
    | some s =>
      obtain ⟨entry, hentry, htarget⟩ :=
        ht.exists_entry place s (Value.scalar?_eq_some_iff.1 hscalar)
      obtain ⟨last, hsome⟩ := Entry.exists_lastAt?_of_mem hentry htarget
      rw [hlast] at hsome
      cases hsome

end Transcribed

namespace Written

variable {type : RecordType} {record : Record}

theorem transcribed (h : record.Written type) (htype : type.Addressable) {entries : List Entry}
    (hmem : ∀ entry, entry ∈ entries ↔ entry ∈ record.toEntries) :
    record.Transcribed type id entries where
  exists_scalar := by
    intro entry hentry
    obtain ⟨place, s, htarget, hget⟩ := h.target?_of_mem htype ((hmem entry).1 hentry)
    exact ⟨place, s, hget, htarget⟩
  exists_entry := by
    intro place s hget
    obtain ⟨entry, hentry, htarget⟩ := h.exists_mem_of_get htype hget
    exact ⟨entry, (hmem entry).2 hentry, htarget⟩

theorem exists_passes_iff (h : record.Written type) (htype : type.Addressable) {before : Place}
    {i : Nat} :
    (∃ entry ∈ record.toEntries, entry.Passes type before i) ↔
      i < ((Value.nested record).get before).count :=
  (h.transcribed htype fun _ => Iff.rfl).exists_passes_iff h

theorem lastAt?_eq (h : record.Written type) (htype : type.Addressable) {entries : List Entry}
    (hmem : ∀ entry, entry ∈ entries ↔ entry ∈ record.toEntries) (place : Place) :
    Entry.lastAt? type entries place = ((Value.nested record).get place).scalar? := by
  rw [(h.transcribed htype hmem).lastAt?_eq, Option.map_id_fun, id]

end Written

end Record

/-! ## Equality as values -/

theorem Value.sameLists_self {values : List Value}
    (h : ∀ value ∈ values, value.same value = true) : Value.sameLists values values = true := by
  induction values with
  | nil => rfl
  | cons value values ih =>
    rw [Value.sameLists, h value (by simp), ih fun other hother => h other (by simp [hother])]
    rfl

theorem Value.same_self {value : Value}
    (h : ∀ place s, value.get place = .scalar s → s.IsDefined) : value.same value = true := by
  induction value using Value.part_induction with
  | h value ih =>
    have hpart : ∀ step, (value.part step).same (value.part step) = true := by
      intro step
      by_cases hset : value.part step = .unset
      · rw [hset]
        rfl
      · exact ih step hset fun place s hget => h (step :: place) s hget
    cases value with
    | unset => rfl
    | scalar s =>
      rw [Value.same]
      exact Scalar.same_self (h [] s rfl)
    | nested record =>
      obtain ⟨type, slots⟩ := record
      rw [Value.same, Record.same, decide_eq_true rfl, Bool.true_and]
      apply Value.sameLists_self
      intro inner hinner
      obtain ⟨i, hi, rfl⟩ := List.mem_iff_getElem.1 hinner
      have hslot := hpart (.slot i)
      dsimp only [Value.part] at hslot
      rw [List.getElem?_eq_getElem hi] at hslot
      exact hslot
    | collection items =>
      rw [Value.same]
      apply Value.sameLists_self
      intro inner hinner
      obtain ⟨i, hi, rfl⟩ := List.mem_iff_getElem.1 hinner
      have hitem := hpart (.item i)
      dsimp only [Value.part] at hitem
      rw [List.getElem?_eq_getElem hi] at hitem
      exact hitem

theorem Record.Conforms.same_self {record : Record} (h : record.Conforms)
    (hdefined : ∀ leaf ∈ record.leaves, leaf.2.IsDefined) : record.same record = true := by
  have hsame : (Value.nested record).same (.nested record) = true := by
    apply Value.same_self
    intro place s hget
    obtain ⟨path, hleaf⟩ := Value.exists_mem_leaves_of_get h.nested hget
    rw [Value.leaves] at hleaf
    exact hdefined (path, s) hleaf
  rw [Value.same] at hsame
  exact hsame

/--
A record that successful writes built comes back from its leaves, in any order.
-/
theorem Record.importEntries_toEntries {type : RecordType} (htype : type.Addressable)
    {record : Record} (h : record.Written type) {entries : List Entry}
    (hperm : entries.Perm record.toEntries) :
    ((Record.empty type).importEntries entries).2 = [] ∧
      ((Record.empty type).importEntries entries).1 = record ∧
      ((∀ leaf ∈ record.leaves, leaf.2.IsDefined) →
        ((Record.empty type).importEntries entries).1.same record = true) := by
  have hmem : ∀ entry, entry ∈ entries ↔ entry ∈ record.toEntries := fun _ => hperm.mem_iff
  have htarget : ∀ entry ∈ entries, (entry.target? type).isSome := by
    intro entry hentry
    obtain ⟨place, s, hplace, _⟩ := h.target?_of_mem htype ((hmem entry).1 hentry)
    rw [hplace]
    rfl
  have hpasses : ∀ before i, (∃ entry ∈ entries, entry.Passes type before i) ↔
      i < ((Value.nested record).get before).count := by
    intro before i
    simp only [hmem]
    exact h.exists_passes_iff htype
  have hgapless : Entry.Gapless type entries := by
    intro before i
    rw [hpasses, hpasses]
    omega
  have hok := (Record.importEntries_eq_nil_iff type entries).2 ⟨htarget, hgapless⟩
  have hholds := Record.holds_importEntries_of_gapless htarget hgapless
  have horder := Entry.isPathOrder_inPathOrder entries
  have hwritten : ((Record.empty type).importEntries entries).1.Written type :=
    Written.empty.writeAll hok
  have heq : ((Record.empty type).importEntries entries).1 = record := by
    apply hwritten.eq_of_alike h
    intro place
    constructor
    · have hcount : ∀ i,
          i < ((Value.nested ((Record.empty type).importEntries entries).1).get place).count ↔
            i < ((Value.nested record).get place).count := by
        intro i
        rw [hholds.lt_count_iff, ← hpasses]
        simp only [horder.perm.mem_iff]
      exact eq_of_forall_lt_iff hcount
    · rw [hholds.scalar?_eq]
      apply h.lastAt?_eq htype
      intro entry
      rw [horder.perm.mem_iff, hmem]
  refine ⟨hok, heq, ?_⟩
  rw [heq]
  exact h.conforms.record.same_self

theorem Record.importEntries_reversed_leaves :
    let item : RecordType := ⟨"Item", [⟨"name", .primitive .string⟩, ⟨"count", .primitive .int⟩]⟩
    let type : RecordType :=
      ⟨"Row", [⟨"id", .primitive .bool⟩, ⟨"items", .collection (.nested item)⟩]⟩
    let first := ((Record.empty type).write ["items", "0", "name"] (.string "a")).value
    let record := (first.write ["items", "1", "count"] (.int 2)).value
    type.Addressable ∧ record.Written type ∧ record.toEntries.reverse.Perm record.toEntries ∧
      ((Record.empty type).importEntries record.toEntries.reverse).2 = [] ∧
      ((Record.empty type).importEntries record.toEntries.reverse).1 = record ∧
      ((Record.empty type).importEntries record.toEntries.reverse).1.same record = true := by
  intro item type first record
  have htype : type.Addressable := by
    simp [type, item, RecordType.Addressable, Field.AllAddressable, Field.Addressable,
      Kind.Addressable]
    decide
  have hrecord : record.Written type :=
    (Record.Written.empty.write ["items", "0", "name"] (.string "a") (by decide)).write
      ["items", "1", "count"] (.int 2) (by decide)
  have hback := Record.importEntries_toEntries htype hrecord (List.reverse_perm _)
  have hleaves : record.leaves =
      [(["items", "0", "name"], .string "a"), (["items", "1", "count"], .int 2)] := by rfl
  have hdefined : ∀ leaf ∈ record.leaves, leaf.2.IsDefined := by
    rw [hleaves]
    simp [Scalar.IsDefined]
  exact ⟨htype, hrecord, List.reverse_perm _, hback.1, hback.2.1, hback.2.2 hdefined⟩

end RowTree
