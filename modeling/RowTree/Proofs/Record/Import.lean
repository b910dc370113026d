import Mathlib.Order.FixedPoints
import Mathlib.Order.CompletePartialOrder
import RowTree.Proofs.Record.Effect
import RowTree.Proofs.Record.Order

/-!
This module contains what an import into a new record does. The entries that are applied are the
least set that a rule for single entries closes (`Entry.admissible`): an entry needs a path to a
primitive that takes its scalar, and in front of each element that it passes an applied entry that
passes the element before. `Record.importEntries_empty` says that exactly these are applied, and
that the others are reported.
-/

namespace RowTree

namespace Entry

/--
The place and the scalar that an entry writes, if its path leads to a primitive that takes its
scalar.
-/
def target? (type : RecordType) (entry : Entry) : Option (Place × Scalar) :=
  match (Kind.nested type).locate? entry.path with
  | some (place, .primitive p) => (p.coerce? entry.value).map (place, ·)
  | _ => none

def Passes (type : RecordType) (entry : Entry) (before : Place) (i : Nat) : Prop :=
  ∃ place s, entry.target? type = some (place, s) ∧ before ++ [.item i] <+: place

/--
The entries that may be written where some are: those that have a target, and that pass elements
of collections only at the front or behind an element that one of the others passes.
-/
def admissible (type : RecordType) (entries : List Entry) : Set Entry →o Set Entry where
  toFun others :=
    {entry | entry ∈ entries ∧ (entry.target? type).isSome ∧
      ∀ before i, entry.Passes type before (i + 1) → ∃ other ∈ others, other.Passes type before i}
  monotone' := by
    intro front back hsubset entry hentry
    refine ⟨hentry.1, hentry.2.1, ?_⟩
    intro before i hpasses
    obtain ⟨other, hother, hback⟩ := hentry.2.2 before i hpasses
    exact ⟨other, hsubset hother, hback⟩

def lastAt? (type : RecordType) (entries : List Entry) (place : Place) : Option Scalar :=
  (entries.filterMap (target? type)).reverse.lookup place

theorem target?_eq_some_iff {type : RecordType} {entry : Entry} {place : Place} {s : Scalar} :
    entry.target? type = some (place, s) ↔
      (Kind.nested type).locate? entry.path = some (place, .primitive s.primitive) ∧
        s.primitive.coerce? entry.value = some s := by
  unfold target?
  constructor
  · intro h
    split at h
    · next found p hplace =>
      rw [Option.map_eq_some_iff] at h
      obtain ⟨_, hs, hpair⟩ := h
      rw [Prod.mk.injEq] at hpair
      obtain ⟨rfl, rfl⟩ := hpair
      rw [Primitive.primitive_of_coerce? hs]
      exact ⟨hplace, hs⟩
    · simp at h
  · rintro ⟨hplace, hs⟩
    rw [hplace]
    dsimp only
    rw [hs]
    rfl

theorem exists_mem_of_lastAt? {type : RecordType} {entries : List Entry} {place : Place}
    {s : Scalar} (h : lastAt? type entries place = some s) :
    ∃ entry ∈ entries, entry.target? type = some (place, s) := by
  unfold lastAt? at h
  rw [List.lookup_eq_some_iff] at h
  obtain ⟨front, back, hsplit, _⟩ := h
  apply List.mem_filterMap.1
  rw [← List.mem_reverse, hsplit]
  simp

theorem exists_lastAt?_of_mem {type : RecordType} {entries : List Entry} {entry : Entry}
    {place : Place} {s : Scalar} (hentry : entry ∈ entries)
    (htarget : entry.target? type = some (place, s)) :
    ∃ last, lastAt? type entries place = some last := by
  apply Option.ne_none_iff_exists'.1
  unfold lastAt?
  rw [ne_eq, List.lookup_eq_none_iff]
  intro hnone
  have hne := hnone (place, s) (List.mem_reverse.2 (List.mem_filterMap.2 ⟨entry, hentry, htarget⟩))
  simp at hne

theorem lastAt?_singleton {type : RecordType} {entry : Entry} {place : Place} {s : Scalar} :
    lastAt? type [entry] place = some s ↔ entry.target? type = some (place, s) := by
  constructor
  · intro h
    obtain ⟨other, hother, htarget⟩ := exists_mem_of_lastAt? h
    rw [List.mem_singleton.1 hother] at htarget
    exact htarget
  · intro h
    unfold lastAt?
    simp [h]

theorem lastAt?_append (type : RecordType) (front back : List Entry) (place : Place) :
    lastAt? type (front ++ back) place =
      (lastAt? type back place).or (lastAt? type front place) := by
  unfold lastAt?
  rw [List.filterMap_append, List.reverse_append, List.lookup_append]

theorem order_eq_lt_of_passes {type : RecordType} {a b : Entry} {before : Place} {i j : Nat}
    (ha : a.Passes type before i) (hb : b.Passes type before j) (hij : i < j) :
    Path.order a.path.ranks b.path.ranks = .lt := by
  obtain ⟨place, s, htarget, hi⟩ := ha
  obtain ⟨place', s', htarget', hj⟩ := hb
  exact Path.order_eq_lt_of_item_lt (target?_eq_some_iff.1 htarget).1
    (target?_eq_some_iff.1 htarget').1 hi hj hij

theorem mem_of_passes {type : RecordType} {front back : List Entry} {entry other : Entry}
    {before : Place} {i : Nat}
    (hsorted : (front ++ entry :: back).Pairwise fun a b =>
      (Path.order a.path.ranks b.path.ranks).isLE = true)
    (hmem : other ∈ front ++ entry :: back) (hentry : entry.Passes type before (i + 1))
    (hother : other.Passes type before i) : other ∈ front := by
  have hlt := order_eq_lt_of_passes hother hentry (Nat.lt_succ_self i)
  have hgt : Path.order entry.path.ranks other.path.ranks = .gt := Std.OrientedCmp.gt_of_lt hlt
  rw [List.mem_append, List.mem_cons] at hmem
  rcases hmem with hmem | rfl | hmem
  · exact hmem
  · have hself : Path.order other.path.ranks other.path.ranks = .eq := Std.ReflCmp.compare_self
    rw [hself] at hlt
    cases hlt
  · have hle := (List.pairwise_cons.1 (List.pairwise_append.1 hsorted).2.1).1 other hmem
    rw [hgt] at hle
    cases hle

end Entry

namespace Value

/-! ## Applying entries -/

/--
The second value holds what the entries write in their order, and else what the first one holds.
-/
structure Extends (type : RecordType) (entries : List Entry) (value new : Value) : Prop where
  lt_count_get_iff : ∀ before i, i < (new.get before).count ↔
    i < (value.get before).count ∨ ∃ entry ∈ entries, entry.Passes type before i
  scalar?_get : ∀ place, (new.get place).scalar? =
    (Entry.lastAt? type entries place).or (value.get place).scalar?

namespace Extends

variable {type : RecordType} {entries others : List Entry} {a b c : Value}

theorem of_alike (h : a.Alike b) : a.Extends type [] b where
  lt_count_get_iff before i := by
    rw [(h before).1]
    simp
  scalar?_get place := (h place).2.symm

theorem of_stored {entry : Entry} {place : Place} {s : Scalar}
    (htarget : entry.target? type = some (place, s)) (ha : a.Conforms (.nested type))
    (h : Stored s place (.nested type) a b) : a.Extends type [entry] b where
  lt_count_get_iff before i := by
    rw [h.lt_count_get_iff ha]
    simp [Entry.Passes, htarget]
  scalar?_get other := by
    rw [h.scalar?_get ha]
    by_cases hother : other = place
    · rw [if_pos hother, hother, Entry.lastAt?_singleton.2 htarget, Option.some_or]
    · have hnone : Entry.lastAt? type [entry] other = none := by
        rw [Option.eq_none_iff_forall_ne_some]
        intro t ht
        rw [Entry.lastAt?_singleton, htarget, Option.some.injEq, Prod.mk.injEq] at ht
        exact hother ht.1.symm
      rw [if_neg hother, hnone, Option.none_or]

theorem append (hab : a.Extends type entries b) (hbc : b.Extends type others c) :
    a.Extends type (entries ++ others) c where
  lt_count_get_iff before i := by
    rw [hbc.lt_count_get_iff, hab.lt_count_get_iff, or_assoc]
    simp only [List.mem_append, or_and_right, exists_or]
  scalar?_get place := by
    rw [hbc.scalar?_get, hab.scalar?_get, Entry.lastAt?_append, Option.or_assoc]

end Extends

end Value

theorem Record.stored_target {record : Record} (h : record.Conforms) {entry : Entry}
    (hok : (record.write entry.path entry.value).error? = none) :
    ∃ place s, entry.target? record.type = some (place, s) ∧
      Value.Stored s place (.nested record.type) (.nested record)
        (.nested (record.write entry.path entry.value).value) := by
  obtain ⟨place, s, hplace, hs, hstored⟩ := stored_write h hok
  exact ⟨place, s, Entry.target?_eq_some_iff.2 ⟨hplace, hs⟩, hstored⟩

/-! ## What is in a record after some entries were applied -/

/--
The record holds what the applied entries wrote, in their order.
-/
structure Record.Holds (type : RecordType) (applied : List Entry) (record : Record) : Prop where
  type_eq : record.type = type
  conforms : record.Conforms
  lt_count_iff : ∀ before i, i < ((Value.nested record).get before).count ↔
    ∃ entry ∈ applied, entry.Passes type before i
  scalar?_eq : ∀ place, ((Value.nested record).get place).scalar? = Entry.lastAt? type applied place

namespace Record.Holds

variable {type : RecordType} {applied : List Entry} {record : Record}

theorem empty (type : RecordType) : Record.Holds type [] (.empty type) where
  type_eq := rfl
  conforms := conforms_empty type
  lt_count_iff := by
    intro before i
    cases before with
    | nil => simp [Value.count, Value.items]
    | cons step before =>
      rw [Value.get_cons, Value.part_slot_empty, Value.get_unset]
      simp [Value.count, Value.items]
  scalar?_eq := by
    intro place
    cases place with
    | nil => rfl
    | cons step place =>
      rw [Value.get_cons, Value.part_slot_empty, Value.get_unset]
      rfl

theorem hasRoom_iff (h : record.Holds type applied) {place : Place} :
    (Value.nested record).HasRoom place ↔
      ∀ before i, before ++ [.item (i + 1)] <+: place →
        ∃ entry ∈ applied, entry.Passes type before i := by
  constructor
  · intro hroom before i hfront
    rw [← h.lt_count_iff]
    exact hroom before (i + 1) hfront
  · intro hpasses before i hfront
    cases i with
    | zero => exact Nat.zero_le _
    | succ i => exact (h.lt_count_iff before i).2 (hpasses before i hfront)

theorem error?_write_eq_none_iff (h : record.Holds type applied) (entry : Entry) :
    (record.write entry.path entry.value).error? = none ↔
      (entry.target? type).isSome ∧
        ∀ before i, entry.Passes type before (i + 1) →
          ∃ other ∈ applied, other.Passes type before i := by
  rw [Record.error?_write_eq_none_iff h.conforms, h.type_eq]
  constructor
  · rintro ⟨place, s, hplace, hs, hroom⟩
    have htarget := Entry.target?_eq_some_iff.2 ⟨hplace, hs⟩
    refine ⟨by rw [htarget]; rfl, ?_⟩
    rintro before i ⟨_, _, htarget', hfront⟩
    rw [htarget, Option.some.injEq, Prod.mk.injEq] at htarget'
    rw [← htarget'.1] at hfront
    exact h.hasRoom_iff.1 hroom before i hfront
  · rintro ⟨hsome, hpasses⟩
    obtain ⟨⟨place, s⟩, htarget⟩ := Option.isSome_iff_exists.1 hsome
    obtain ⟨hplace, hs⟩ := Entry.target?_eq_some_iff.1 htarget
    refine ⟨place, s, hplace, hs, h.hasRoom_iff.2 ?_⟩
    intro before i hfront
    exact hpasses before i ⟨place, s, htarget, hfront⟩

theorem append {entries : List Entry} {other : Record} (h : record.Holds type applied)
    (hother : other.Conforms) (htype : other.type = record.type)
    (hextends : (Value.nested record).Extends type entries (.nested other)) :
    other.Holds type (applied ++ entries) where
  type_eq := htype.trans h.type_eq
  conforms := hother
  lt_count_iff := by
    intro before i
    rw [hextends.lt_count_get_iff, h.lt_count_iff]
    simp only [List.mem_append, or_and_right, exists_or]
  scalar?_eq := by
    intro place
    rw [hextends.scalar?_get, h.scalar?_eq, Entry.lastAt?_append]

theorem write_ok (h : record.Holds type applied) (entry : Entry)
    (hok : (record.write entry.path entry.value).error? = none) :
    (record.write entry.path entry.value).value.Holds type (applied ++ [entry]) := by
  have hnested := h.conforms.nested
  obtain ⟨place, s, htarget, hstored⟩ := Record.stored_target h.conforms hok
  rw [h.type_eq] at hnested htarget hstored
  exact h.append (hstored.conforms hnested).record (Record.type_write ..)
    (.of_stored htarget hnested hstored)

theorem write_refused (h : record.Holds type applied) (entry : Entry)
    (hno : (record.write entry.path entry.value).error? ≠ none) :
    (record.write entry.path entry.value).value.Holds type applied := by
  have htouched := Record.touched_write h.conforms hno
  rw [← List.append_nil applied]
  exact h.append (htouched.conforms h.conforms.nested).record (Record.type_write ..)
    (.of_alike (htouched.alike h.conforms.nested))

theorem read?_eq_scalar_iff (h : record.Holds type applied) {path : Path} {place : Place}
    {p : Primitive} (hplace : (Kind.nested type).locate? path = some (place, .primitive p))
    (s : Scalar) :
    record.read? path = some (.scalar s) ↔ Entry.lastAt? type applied place = some s := by
  rw [← h.type_eq] at hplace
  rw [← h.scalar?_eq, Value.scalar?_eq_some_iff]
  cases path with
  | nil => simp [Kind.locate?] at hplace
  | cons name rest =>
    have hread : record.read? (name :: rest) = (Value.nested record).read? (name :: rest) := rfl
    rw [hread, Value.read?_eq_some_iff h.conforms.nested hplace]
    simp

end Record.Holds

/-! ## A whole import -/

theorem Record.writeAll_cons_of_ok {record : Record} {entry : Entry} (rest : List Entry)
    (hok : (record.write entry.path entry.value).error? = none) :
    record.writeAll (entry :: rest) =
      (record.write entry.path entry.value).value.writeAll rest := by
  rw [Record.writeAll]
  dsimp only
  rw [hok]

theorem Record.writeAll_cons_of_refused {record : Record} {entry : Entry} {error : WriteError}
    (rest : List Entry) (hno : (record.write entry.path entry.value).error? = some error) :
    record.writeAll (entry :: rest) =
      (((record.write entry.path entry.value).value.writeAll rest).1,
        ⟨entry.key, error⟩ :: ((record.write entry.path entry.value).value.writeAll rest).2) := by
  rw [Record.writeAll]
  dsimp only
  rw [hno]

theorem Record.snd_writeAll_cons_eq_nil_iff {record : Record} {entry : Entry} {rest : List Entry} :
    (record.writeAll (entry :: rest)).2 = [] ↔
      (record.write entry.path entry.value).error? = none ∧
        ((record.write entry.path entry.value).value.writeAll rest).2 = [] := by
  cases herror : (record.write entry.path entry.value).error? with
  | none => simp [Record.writeAll_cons_of_ok rest herror]
  | some error => simp [Record.writeAll_cons_of_refused rest herror]

open Classical in
/--
Writing the rest of a list in path order applies the entries of the least admissible set, and
reports the others in their order.
-/
theorem Record.Holds.writeAll {type : RecordType} {entries front back : List Entry}
    {applied : Set Entry} {record : Record}
    (h : record.Holds type (front.filter (· ∈ applied)))
    (hfixed : Entry.admissible type entries applied = applied)
    (hsorted : (front ++ back).Pairwise fun a b =>
      (Path.order a.path.ranks b.path.ranks).isLE = true)
    (hmem : ∀ entry, entry ∈ front ++ back ↔ entry ∈ entries) :
    (record.writeAll back).1.Holds type ((front ++ back).filter (· ∈ applied)) ∧
      (record.writeAll back).2.map (·.key) = (back.filter (· ∉ applied)).map (·.key) := by
  induction back generalizing front record with
  | nil => simpa [Record.writeAll] using h
  | cons entry rest ih =>
    -- what the entry needs was applied before it, since the list is in path order
    have hok : (record.write entry.path entry.value).error? = none ↔ entry ∈ applied := by
      rw [h.error?_write_eq_none_iff]
      conv => rhs; rw [← hfixed]
      constructor
      · rintro ⟨hsome, hpasses⟩
        refine ⟨(hmem entry).1 (by simp), hsome, ?_⟩
        intro before i hentry
        obtain ⟨other, hother, hfront⟩ := hpasses before i hentry
        rw [List.mem_filter, decide_eq_true_eq] at hother
        exact ⟨other, hother.2, hfront⟩
      · rintro ⟨_, hsome, hpasses⟩
        refine ⟨hsome, ?_⟩
        intro before i hentry
        obtain ⟨other, hother, hpass⟩ := hpasses before i hentry
        have hentries : other ∈ entries := by
          rw [← hfixed] at hother
          exact hother.1
        have hfront := Entry.mem_of_passes hsorted ((hmem other).2 hentries) hentry hpass
        exact ⟨other, by simp [hfront, hother], hpass⟩
    have hsorted' : ((front ++ [entry]) ++ rest).Pairwise fun a b =>
        (Path.order a.path.ranks b.path.ranks).isLE = true := by simpa using hsorted
    have hmem' : ∀ other, other ∈ (front ++ [entry]) ++ rest ↔ other ∈ entries := by
      simpa using hmem
    rw [List.append_cons]
    by_cases happlied : entry ∈ applied
    · have hwritten := h.write_ok entry (hok.2 happlied)
      rw [Record.writeAll_cons_of_ok rest (hok.2 happlied), List.filter_cons_of_neg (by simpa)]
      refine ih ?_ hsorted' hmem'
      rw [List.filter_append, List.filter_cons_of_pos (by simpa)]
      exact hwritten
    · have hno : (record.write entry.path entry.value).error? ≠ none := mt hok.1 happlied
      obtain ⟨error, herror⟩ := Option.ne_none_iff_exists'.1 hno
      have hwritten : (record.write entry.path entry.value).value.Holds type
          ((front ++ [entry]).filter (· ∈ applied)) := by
        rw [List.filter_append, List.filter_cons_of_neg (by simpa)]
        simpa using h.write_refused entry hno
      obtain ⟨hholds, hkeys⟩ := ih hwritten hsorted' hmem'
      rw [Record.writeAll_cons_of_refused rest herror, List.filter_cons_of_pos (by simpa)]
      exact ⟨hholds, by rw [List.map_cons, List.map_cons, hkeys]⟩

/--
A list in the order of its paths, with entries of equal paths as they came.
-/
structure Entry.IsPathOrder (entries ordered : List Entry) : Prop where
  perm : ordered.Perm entries
  sorted : ordered.Pairwise fun a b => (Path.order a.path.ranks b.path.ranks).isLE
  stable : ∀ ranks, (ordered.filter fun e => Path.order e.path.ranks ranks = .eq) =
    entries.filter fun e => Path.order e.path.ranks ranks = .eq

theorem Entry.isPathOrder_inPathOrder (entries : List Entry) :
    Entry.IsPathOrder entries (Entry.inPathOrder entries) where
  perm := Entry.inPathOrder_perm entries
  sorted := Entry.pairwise_inPathOrder entries
  stable := Entry.filter_inPathOrder entries

/--
The elements that entries pass have no gaps.
-/
def Entry.Gapless (type : RecordType) (entries : List Entry) : Prop :=
  ∀ before i, (∃ entry ∈ entries, entry.Passes type before (i + 1)) →
    ∃ entry ∈ entries, entry.Passes type before i

theorem Entry.subset_of_gapless {type : RecordType} {entries front back : List Entry}
    {applied : Set Entry} (hfixed : Entry.admissible type entries applied = applied)
    (hsorted : (front ++ back).Pairwise fun a b =>
      (Path.order a.path.ranks b.path.ranks).isLE = true)
    (hmem : ∀ entry, entry ∈ front ++ back ↔ entry ∈ entries)
    (htarget : ∀ entry ∈ entries, (entry.target? type).isSome)
    (hgapless : Entry.Gapless type entries) (hfront : ∀ entry ∈ front, entry ∈ applied) :
    ∀ entry ∈ back, entry ∈ applied := by
  induction back generalizing front with
  | nil => simp
  | cons next rest ih =>
    -- in path order, the elements before stand in front and are applied
    have hnext : next ∈ applied := by
      rw [← hfixed]
      have hentries := (hmem next).1 (by simp)
      refine ⟨hentries, htarget next hentries, ?_⟩
      intro before i hpasses
      obtain ⟨other, hother, hpass⟩ := hgapless before i ⟨next, hentries, hpasses⟩
      have hbefore := Entry.mem_of_passes hsorted ((hmem other).2 hother) hpasses hpass
      exact ⟨other, hfront other hbefore, hpass⟩
    intro entry hentry
    rw [List.mem_cons] at hentry
    rcases hentry with rfl | hentry
    · exact hnext
    · refine @ih (front ++ [next]) (by simpa using hsorted) (by simpa using hmem) ?_ entry hentry
      intro other hother
      rw [List.mem_append, List.mem_singleton] at hother
      rcases hother with hother | rfl
      · exact hfront other hother
      · exact hnext

theorem Entry.forall_mem_applied_iff {type : RecordType} {entries : List Entry}
    {applied : Set Entry} (hfixed : Entry.admissible type entries applied = applied) :
    (∀ entry ∈ entries, entry ∈ applied) ↔
      (∀ entry ∈ entries, (entry.target? type).isSome) ∧ Entry.Gapless type entries := by
  constructor
  · intro hall
    constructor
    · intro entry hentry
      have happlied := hall entry hentry
      rw [← hfixed] at happlied
      exact happlied.2.1
    · rintro before i ⟨entry, hentry, hpasses⟩
      have happlied := hall entry hentry
      rw [← hfixed] at happlied
      obtain ⟨other, hother, hpass⟩ := happlied.2.2 before i hpasses
      rw [← hfixed] at hother
      exact ⟨other, hother.1, hpass⟩
  · rintro ⟨htarget, hgapless⟩ entry hentry
    have horder := Entry.isPathOrder_inPathOrder entries
    have hmem : ∀ other, other ∈ [] ++ Entry.inPathOrder entries ↔ other ∈ entries :=
      fun _ => horder.perm.mem_iff
    exact Entry.subset_of_gapless hfixed horder.sorted hmem htarget hgapless (by simp) entry
      (horder.perm.mem_iff.2 hentry)

open Classical in
theorem Record.holds_importEntries {type : RecordType} {entries : List Entry}
    {applied : Set Entry} (hfixed : Entry.admissible type entries applied = applied) :
    ((Record.empty type).importEntries entries).1.Holds type
        ((Entry.inPathOrder entries).filter (· ∈ applied)) ∧
      ((Record.empty type).importEntries entries).2.map (·.key) =
        ((Entry.inPathOrder entries).filter (· ∉ applied)).map (·.key) := by
  have horder := Entry.isPathOrder_inPathOrder entries
  have hempty : Record.Holds type (([] : List Entry).filter (· ∈ applied)) (.empty type) :=
    .empty type
  exact hempty.writeAll hfixed horder.sorted fun _ => horder.perm.mem_iff

theorem Record.importEntries_eq_nil_iff (type : RecordType) (entries : List Entry) :
    ((Record.empty type).importEntries entries).2 = [] ↔
      (∀ entry ∈ entries, (entry.target? type).isSome) ∧ Entry.Gapless type entries := by
  have hfixed := (Entry.admissible type entries).map_lfp
  have horder := Entry.isPathOrder_inPathOrder entries
  rw [← Entry.forall_mem_applied_iff hfixed, ← List.map_eq_nil_iff,
    (Record.holds_importEntries hfixed).2, List.map_eq_nil_iff, List.filter_eq_nil_iff]
  simp [horder.perm.mem_iff]

theorem Record.holds_importEntries_of_gapless {type : RecordType} {entries : List Entry}
    (htarget : ∀ entry ∈ entries, (entry.target? type).isSome)
    (hgapless : Entry.Gapless type entries) :
    ((Record.empty type).importEntries entries).1.Holds type (Entry.inPathOrder entries) := by
  have hfixed := (Entry.admissible type entries).map_lfp
  have horder := Entry.isPathOrder_inPathOrder entries
  have hall := (Entry.forall_mem_applied_iff hfixed).2 ⟨htarget, hgapless⟩
  have hholds := (Record.holds_importEntries hfixed).1
  rw [List.filter_eq_self.2] at hholds
  · exact hholds
  · intro entry hentry
    simp [hall entry (horder.perm.mem_iff.1 hentry)]

open Classical in
/--
An import into a new record applies the least set of entries that may be written next to each
other, in path order, and reports all others in that order. It reports none exactly if all
entries have targets and no collection has a gap.
-/
theorem Record.importEntries_empty (type : RecordType) (entries : List Entry) :
    ∃ applied : Set Entry,
      IsLeast {others | Entry.admissible type entries others ⊆ others} applied ∧
        ∃ ordered, Entry.IsPathOrder entries ordered ∧
          ((Record.empty type).importEntries entries).1.Holds type
            (ordered.filter (· ∈ applied)) ∧
          (∀ path place p, (Kind.nested type).locate? path = some (place, .primitive p) → ∀ s,
            ((Record.empty type).importEntries entries).1.read? path = some (.scalar s) ↔
              Entry.lastAt? type (ordered.filter (· ∈ applied)) place = some s) ∧
          ((Record.empty type).importEntries entries).2.map (·.key) =
            (ordered.filter (· ∉ applied)).map (·.key) ∧
          (((Record.empty type).importEntries entries).2 = [] ↔
            (∀ entry ∈ entries, (entry.target? type).isSome) ∧ Entry.Gapless type entries) := by
  have hleast := (Entry.admissible type entries).isLeast_lfp_le
  have hholds := Record.holds_importEntries (Entry.admissible type entries).map_lfp
  refine ⟨_, hleast, _, Entry.isPathOrder_inPathOrder entries, hholds.1, ?_, hholds.2,
    Record.importEntries_eq_nil_iff type entries⟩
  intro path place p hplace s
  exact hholds.1.read?_eq_scalar_iff hplace s

end RowTree
