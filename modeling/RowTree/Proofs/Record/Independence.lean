import RowTree.Proofs.Record.Import
import RowTree.Proofs.Record.Growth

/-!
This module contains what refused entries mean for the others: nothing. Records that differ in
containers that hold nothing answer every write alike and stay alike (`Record.Agree.write`), and
an import without the entries that it refuses takes all others and ends in the same record, up to
such containers (`Record.importEntries_filter_accepted`). What is written behind an entry in path
order does not change how the entry fares (`Record.error?_write_after`).
-/

namespace RowTree

/-! ## Records that hold the same -/

/--
A write fails in the same way in two values if each collection that its path reaches has as many
elements in both, or the element that the path goes on with, or room for it.
-/
theorem Value.error?_write_congr {value other : Value} {kind : Kind} (h : value.Conforms kind)
    (h' : other.Conforms kind) (path : Path)
    (hcount : ∀ front segment back place inner, path = front ++ segment :: back →
      kind.locate? front = some (place, inner) →
        (value.get place).count = (other.get place).count ∨
          ∃ i, Text.index? segment = some i ∧ i ≤ (value.get place).count ∧
            i ≤ (other.get place).count) (scalar : Scalar) (label : String) :
    (value.write scalar path kind label).error? = (other.write scalar path kind label).error? := by
  induction path generalizing value other kind label with
  | nil =>
    cases kind with
    | primitive p =>
      unfold Value.write
      cases p.coerce? scalar with
      | none => rfl
      | some s => rfl
    | nested type => rfl
    | collection element => rfl
  | cons segment rest ih =>
    cases kind with
    | primitive p => rfl
    | nested type =>
      rw [error?_write_slot h, error?_write_slot h']
      cases hfind : type.find? segment with
      | none => rfl
      | some found =>
        obtain ⟨i, inner⟩ := found
        have hfield := Field.find?_eq_some hfind
        apply ih (h.part_slot hfield) (h'.part_slot hfield)
        rintro front next back place last rfl hfront
        exact hcount (segment :: front) next back _ last rfl (Kind.locate?_cons_slot hfind hfront)
    | collection element =>
      rw [error?_write_item h, error?_write_item h']
      have hhere := hcount [] segment rest [] (.collection element) rfl rfl
      rw [get_nil, get_nil] at hhere
      cases hindex : Text.index? segment with
      | none =>
        rw [hindex] at hhere
        simp only [reduceCtorEq, false_and, exists_false, or_false] at hhere
        dsimp only
        rw [hhere]
      | some i =>
        dsimp only
        rw [ih (h.part_item i) (h'.part_item i)]
        · rcases hhere with hlength | ⟨j, hj, hroom, hroom'⟩
          · rw [hlength]
          · rw [hindex, Option.some.injEq] at hj
            subst hj
            rw [if_pos hroom, if_pos hroom']
        · rintro front next back place last rfl hfront
          exact hcount (segment :: front) next back _ last rfl
            (Kind.locate?_cons_item hindex hfront)

theorem Record.error?_write_congr {record other : Record} (h : record.Conforms)
    (h' : other.Conforms) (htype : other.type = record.type) (path : Path)
    (hcount : ∀ front segment back place inner, path = front ++ segment :: back →
      (Kind.nested record.type).locate? front = some (place, inner) →
        ((Value.nested other).get place).count = ((Value.nested record).get place).count ∨
          ∃ i, Text.index? segment = some i ∧ i ≤ ((Value.nested other).get place).count ∧
            i ≤ ((Value.nested record).get place).count) (scalar : Scalar) :
    (other.write path scalar).error? = (record.write path scalar).error? := by
  cases path with
  | nil => rfl
  | cons name rest =>
    have hother := h'.nested
    rw [htype] at hother
    have herror := Value.error?_write_congr hother h.nested (name :: rest) hcount scalar ""
    rw [Value.write_nested_self, ← htype, Value.write_nested_self] at herror
    exact herror

theorem Record.error?_write_of_count {record other : Record} (h : record.Conforms)
    (h' : other.Conforms) (htype : other.type = record.type)
    (hcount : ∀ place, ((Value.nested other).get place).count =
      ((Value.nested record).get place).count) (path : Path) (scalar : Scalar) :
    (other.write path scalar).error? = (record.write path scalar).error? :=
  error?_write_congr h h' htype path (fun _ _ _ place _ _ _ => .inl (hcount place)) scalar

namespace Record

/--
Both records follow one type, hold the same scalars, and have as many elements in each collection.
-/
structure Agree (record other : Record) : Prop where
  type_eq : other.type = record.type
  conforms : record.Conforms
  conforms' : other.Conforms
  alike : (Value.nested record).Alike (.nested other)

namespace Agree

variable {record other : Record}

theorem refl (h : record.Conforms) : record.Agree record :=
  ⟨rfl, h, h, .rfl⟩

theorem pruned_eq (h : record.Agree other) : record.pruned = other.pruned :=
  (Record.pruned_eq_iff h.conforms h.conforms' h.type_eq.symm).2 h.alike

theorem error?_write (h : record.Agree other) (path : Path) (scalar : Scalar) :
    (record.write path scalar).error? = (other.write path scalar).error? :=
  (error?_write_of_count h.conforms h.conforms' h.type_eq (fun place => (h.alike place).1.symm) path
    scalar).symm

theorem of_refused (h : record.Agree other) {path : Path} {scalar : Scalar}
    (hno : (record.write path scalar).error? ≠ none) :
    (record.write path scalar).value.Agree other where
  type_eq := by rw [Record.type_write, h.type_eq]
  conforms := h.conforms.write path scalar
  conforms' := h.conforms'
  alike :=
    ((touched_write h.conforms hno).alike h.conforms.nested).symm.trans h.alike

theorem symm (h : record.Agree other) : other.Agree record :=
  ⟨h.type_eq.symm, h.conforms', h.conforms, h.alike.symm⟩

theorem write (h : record.Agree other) (path : Path) (scalar : Scalar) :
    (record.write path scalar).value.Agree (other.write path scalar).value := by
  have herror := h.error?_write path scalar
  by_cases hok : (record.write path scalar).error? = none
  · obtain ⟨place, s, hplace, hs, hstored⟩ := stored_write h.conforms hok
    rw [herror] at hok
    obtain ⟨place', s', hplace', hs', hstored'⟩ := stored_write h.conforms' hok
    -- both writes store the same scalar at the same place
    rw [h.type_eq, hplace, Option.some.injEq, Prod.mk.injEq, Kind.primitive.injEq] at hplace'
    obtain ⟨rfl, hprimitive⟩ := hplace'
    rw [← hprimitive, hs, Option.some.injEq] at hs'
    subst hs'
    refine ⟨?_, h.conforms.write path scalar, h.conforms'.write path scalar, ?_⟩
    · rw [Record.type_write, Record.type_write, h.type_eq]
    · intro before
      constructor
      · apply eq_of_forall_lt_iff
        intro i
        rw [hstored.lt_count_get_iff h.conforms.nested,
          hstored'.lt_count_get_iff h.conforms'.nested, (h.alike before).1]
      · rw [hstored.scalar?_get h.conforms.nested, hstored'.scalar?_get h.conforms'.nested,
          (h.alike before).2]
  · have hno := hok
    rw [herror] at hno
    exact ((h.of_refused hok).symm.of_refused hno).symm

end Agree

theorem agree_of_pruned_eq {type : RecordType} {record other : Record} (h : record.Reached type)
    (h' : other.Reached type) (hpruned : record.pruned = other.pruned) : record.Agree other := by
  have htype := h.type_eq.trans h'.type_eq.symm
  exact ⟨htype.symm, h.conforms, h'.conforms,
    (Record.pruned_eq_iff h.conforms h'.conforms htype).1 hpruned⟩

/-! ## Outcomes of entries -/

/--
The entries of a list, each with the error that writing it after those in front of it gives.
-/
def outcomes (record : Record) : List Entry → List (Entry × Option WriteError)
  | [] => []
  | entry :: rest =>
    let attempt := record.write entry.path entry.value
    (entry, attempt.error?) :: attempt.value.outcomes rest

def refused (record : Record) (entries : List Entry) : List Entry :=
  ((record.outcomes (Entry.inPathOrder entries)).filter (·.2.isSome)).map (·.1)

theorem map_fst_outcomes (record : Record) (entries : List Entry) :
    (record.outcomes entries).map (·.1) = entries := by
  induction entries generalizing record with
  | nil => rfl
  | cons entry rest ih =>
    rw [outcomes]
    rw [List.map_cons, ih]

theorem fst_writeAll_cons (record : Record) (entry : Entry) (rest : List Entry) :
    (record.writeAll (entry :: rest)).1 =
      ((record.write entry.path entry.value).value.writeAll rest).1 := by
  rw [writeAll]
  dsimp only
  split <;> rfl

theorem snd_writeAll (record : Record) (entries : List Entry) :
    (record.writeAll entries).2 =
      (record.outcomes entries).filterMap fun (entry, error?) =>
        error?.map (EntryError.mk entry.key) := by
  induction entries generalizing record with
  | nil => rfl
  | cons entry rest ih =>
    rw [outcomes]
    cases herror : (record.write entry.path entry.value).error? with
    | none => rw [writeAll_cons_of_ok rest herror, ih, List.filterMap_cons_none rfl]
    | some error =>
      rw [writeAll_cons_of_refused rest herror, ih]
      rfl

theorem map_key_writeAll (record : Record) (entries : List Entry) :
    (record.writeAll entries).2.map (·.key) =
      ((record.outcomes entries).filter (·.2.isSome)).map (·.1.key) := by
  rw [snd_writeAll]
  induction record.outcomes entries with
  | nil => rfl
  | cons outcome rest ih =>
    obtain ⟨entry, error?⟩ := outcome
    cases error? with
    | none => exact ih
    | some error => exact congrArg (List.cons entry.key) ih

def accepted (record : Record) (entries : List Entry) : List Entry :=
  ((record.outcomes entries).filter (·.2.isNone)).map (·.1)

theorem accepted_cons_of_ok {record : Record} {entry : Entry} (rest : List Entry)
    (hok : (record.write entry.path entry.value).error? = none) :
    record.accepted (entry :: rest) =
      entry :: (record.write entry.path entry.value).value.accepted rest := by
  unfold accepted
  rw [outcomes, List.filter_cons_of_pos (by simp [hok]), List.map_cons]

theorem accepted_cons_of_refused {record : Record} {entry : Entry} (rest : List Entry)
    (hno : (record.write entry.path entry.value).error? ≠ none) :
    record.accepted (entry :: rest) =
      (record.write entry.path entry.value).value.accepted rest := by
  unfold accepted
  rw [outcomes, List.filter_cons_of_neg (by simpa using hno)]

/--
The accepted entries alone are accepted by any record that holds the same, and make of it a record
that holds the same.
-/
theorem Agree.writeAll_accepted {record other : Record} (h : record.Agree other)
    (entries : List Entry) :
    (other.writeAll (record.accepted entries)).2 = [] ∧
      (record.writeAll entries).1.Agree (other.writeAll (record.accepted entries)).1 := by
  induction entries generalizing record other with
  | nil => exact ⟨rfl, h⟩
  | cons entry rest ih =>
    rw [fst_writeAll_cons]
    by_cases hok : (record.write entry.path entry.value).error? = none
    · have hok' := hok
      rw [h.error?_write] at hok'
      rw [accepted_cons_of_ok rest hok, writeAll_cons_of_ok _ hok']
      exact ih (h.write entry.path entry.value)
    · rw [accepted_cons_of_refused rest hok]
      exact ih (h.of_refused hok)

/-! ## Writes behind an entry -/

/--
How a write fares does not depend on a write behind it in path order.
-/
theorem error?_write_after {record : Record} (h : record.Conforms) {path other : Path}
    (hle : (Path.order path.ranks other.ranks).isLE) (scalar value : Scalar) :
    ((record.write other value).value.write path scalar).error? =
      (record.write path scalar).error? := by
  have hnew := h.write other value
  have htype := record.type_write other value
  rcases Record.write_effect h other value with ⟨_, place, t, hplace, _, hstored⟩ | ⟨_, htouched⟩
  · apply error?_write_congr h hnew htype
    intro front segment back before inner hpath hfront
    by_cases hgrown : ∃ j, before ++ [.item j] <+: place
    · -- the write behind goes on with an index, which had room before
      obtain ⟨j, hj⟩ := hgrown
      rw [hpath] at hle
      obtain ⟨i, hindex, hij⟩ := Path.exists_index?_le hfront hplace hj hle
      have hroom := hstored.hasRoom before j hj
      have hcount := hstored.count_get h.nested before
      refine .inr ⟨i, hindex, ?_, ?_⟩
      · rw [hcount]
        split <;> omega
      · omega
    · left
      rw [hstored.count_get h.nested, if_neg fun hfront => hgrown ⟨_, hfront⟩]
  · have halike := htouched.alike h.nested
    exact error?_write_of_count h hnew htype (fun before => (halike before).1.symm) path scalar

theorem error?_write_after_writeAll {record : Record} (h : record.Conforms) {entry : Entry}
    {entries : List Entry}
    (hle : ∀ other ∈ entries, (Path.order entry.path.ranks other.path.ranks).isLE) :
    ((record.writeAll entries).1.write entry.path entry.value).error? =
      (record.write entry.path entry.value).error? := by
  induction entries generalizing record with
  | nil => rfl
  | cons other rest ih =>
    rw [List.forall_mem_cons] at hle
    rw [fst_writeAll_cons, ih (h.write other.path other.value) hle.2, error?_write_after h hle.1]

/--
Of entries in path order, each fares in the final record as it did when it was written.
-/
theorem outcomes_eq_map {record : Record} (h : record.Conforms) {entries : List Entry}
    (hsorted : entries.Pairwise fun a b => (Path.order a.path.ranks b.path.ranks).isLE) :
    record.outcomes entries = entries.map fun entry =>
      (entry, ((record.writeAll entries).1.write entry.path entry.value).error?) := by
  induction entries generalizing record with
  | nil => rfl
  | cons entry rest ih =>
    rw [List.pairwise_cons] at hsorted
    have hself : (Path.order entry.path.ranks entry.path.ranks).isLE := by
      rw [Path.order_self]
      rfl
    have hle : ∀ next ∈ entry :: rest, (Path.order entry.path.ranks next.path.ranks).isLE :=
      List.forall_mem_cons.2 ⟨hself, hsorted.1⟩
    rw [List.map_cons, error?_write_after_writeAll h hle, fst_writeAll_cons, outcomes,
      ih (h.write entry.path entry.value) hsorted.2]

theorem mem_refused_iff {record : Record} (h : record.Conforms) {entries : List Entry}
    {entry : Entry} {error? : Option WriteError}
    (hmem : (entry, error?) ∈ record.outcomes (Entry.inPathOrder entries)) :
    entry ∈ record.refused entries ↔ error?.isSome := by
  unfold refused
  rw [outcomes_eq_map h (Entry.pairwise_inPathOrder entries)] at hmem ⊢
  obtain ⟨_, hentry, heq⟩ := List.mem_map.1 hmem
  obtain ⟨rfl, rfl⟩ := Prod.mk.inj heq
  rw [List.mem_map]
  constructor
  · rintro ⟨found, hfound, rfl⟩
    obtain ⟨hfound, hsome⟩ := List.mem_filter.1 hfound
    obtain ⟨_, _, rfl⟩ := List.mem_map.1 hfound
    exact hsome
  · intro hsome
    exact ⟨_, List.mem_filter.2 ⟨hmem, hsome⟩, rfl⟩

/--
What is said of refused and accepted entries is said of the outcomes, occurrence by occurrence.
-/
theorem filter_inPathOrder_eq {record : Record} (h : record.Conforms) (entries : List Entry)
    {p : Entry → Bool} {q : Entry × Option WriteError → Bool}
    (hpq : ∀ entry error?, (entry ∈ record.refused entries ↔ error?.isSome) →
      p entry = q (entry, error?)) :
    (Entry.inPathOrder entries).filter p =
      ((record.outcomes (Entry.inPathOrder entries)).filter q).map (·.1) := by
  conv => lhs; rw [← record.map_fst_outcomes (Entry.inPathOrder entries)]
  rw [List.filter_map]
  congr 1
  apply List.filter_congr
  rintro ⟨entry, error?⟩ hmem
  exact hpq entry error? (mem_refused_iff h hmem)

/--
An import reports every entry that it refuses. Without these entries it reports nothing and ends
in the same record, up to containers that hold nothing. More generally, records of one type that
are equal up to such containers answer every write alike, and stay equal up to them.
-/
theorem importEntries_filter_accepted {type : RecordType} {record : Record}
    (h : record.Reached type) :
    (∀ entries : List Entry,
      (record.importEntries entries).2.map (·.key) =
          ((Entry.inPathOrder entries).filter (· ∈ record.refused entries)).map (·.key) ∧
        (record.importEntries (entries.filter (· ∉ record.refused entries))).2 = [] ∧
        (record.importEntries (entries.filter (· ∉ record.refused entries))).1.pruned =
          (record.importEntries entries).1.pruned) ∧
      ∀ other : Record, other.Reached type → other.pruned = record.pruned →
        ∀ (segments : List String) (scalar : Scalar),
          (other.write (Path.ofSegments segments) scalar).error? =
              (record.write (Path.ofSegments segments) scalar).error? ∧
            (other.write (Path.ofSegments segments) scalar).value.pruned =
              (record.write (Path.ofSegments segments) scalar).value.pruned := by
  constructor
  · intro entries
    have hrefused : (Entry.inPathOrder entries).filter (· ∈ record.refused entries) =
        ((record.outcomes (Entry.inPathOrder entries)).filter (·.2.isSome)).map (·.1) := by
      apply filter_inPathOrder_eq h.conforms
      intro entry error? hiff
      rw [Bool.eq_iff_iff, decide_eq_true_iff]
      exact hiff
    have haccepted : (Entry.inPathOrder entries).filter (· ∉ record.refused entries) =
        record.accepted (Entry.inPathOrder entries) := by
      apply filter_inPathOrder_eq h.conforms
      intro entry error? hiff
      rw [Bool.eq_iff_iff, decide_eq_true_iff, hiff]
      cases error? <;> simp
    obtain ⟨hok, hagree⟩ := (Agree.refl h.conforms).writeAll_accepted (Entry.inPathOrder entries)
    unfold importEntries
    rw [Entry.inPathOrder_filter, haccepted, hrefused, map_key_writeAll, List.map_map]
    exact ⟨rfl, hok, hagree.pruned_eq.symm⟩
  · intro other hother hpruned segments scalar
    have hagree := agree_of_pruned_eq hother h hpruned
    exact ⟨hagree.error?_write _ scalar, (hagree.write _ scalar).pruned_eq⟩

theorem importEntries_filter_accepted_marks :
    let item : RecordType :=
      ⟨"Item", [⟨"name", .primitive .string⟩, ⟨"marks", .collection (.primitive .int)⟩]⟩
    let type : RecordType := ⟨"Row", [⟨"items", .collection (.nested item)⟩]⟩
    let record := (Record.empty type).run [.write ["items", "0", "name"] (.string "a")]
    let other := record.run [.write ["items", "0", "marks", "0", "x"] (.int 1)]
    let entries : List Entry :=
      [⟨"items.1.marks.0", .string "x"⟩, ⟨"items.1.name", .string "b"⟩,
        ⟨"items.2.name", .string "c"⟩]
    record.Reached type ∧ other.Reached type ∧ other.pruned = record.pruned ∧
      (record.importEntries entries).2 =
        [⟨"items.1.marks.0", .invalidValue "marks.0" "int" "x"⟩] ∧
      (record.importEntries (entries.filter (· ∉ record.refused entries))).2 = [] ∧
      (record.importEntries (entries.filter (· ∉ record.refused entries))).1.pruned =
        (record.importEntries entries).1.pruned ∧
      (other.write (Path.ofSegments ["items", "0", "marks", "1"]) (.int 1)).error? =
        some (.invalidIndex "marks" "1" 0) := by
  intro item type record other entries
  have hreached : record.Reached type := ⟨_, rfl⟩
  have hother : other.Reached type := hreached.run _
  have hpruned : other.pruned = record.pruned := rfl
  obtain ⟨himport, hwrite⟩ := importEntries_filter_accepted hreached
  have herror : (record.write (Path.ofSegments ["items", "0", "marks", "1"]) (.int 1)).error? =
      some (.invalidIndex "marks" "1" 0) := by decide
  have hrefused : (record.importEntries entries).2 =
      [⟨"items.1.marks.0", .invalidValue "marks.0" "int" "x"⟩] := by
    unfold importEntries
    rw [Entry.inPathOrder_of_sorted (by decide)]
    decide
  refine ⟨hreached, hother, hpruned, hrefused, (himport entries).2.1, (himport entries).2.2, ?_⟩
  exact (hwrite other hother hpruned _ _).1.trans herror

end Record

end RowTree
