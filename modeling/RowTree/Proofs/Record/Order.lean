import RowTree.Proofs.Record.Place

/-!
This module contains the laws of the order in which entries are written. The order is stable
(`Entry.filter_inPathOrder`), does not depend on entries that are left out
(`Entry.inPathOrder_filter`), and an entry that passes an element of a collection stands behind
all entries that pass an earlier element of it (`Path.order_eq_lt_of_item_lt`), and behind none
that goes on from the collection with a later index or a name (`Path.exists_index?_le`). Lists of
entries are imported alike if they differ in the order of entries with different paths only
(`Record.importEntries_eq_of_reordered`).
-/

namespace RowTree

theorem Path.order_self (ranks : List Path.Rank) : Path.order ranks ranks = .eq :=
  Std.ReflCmp.compare_self

namespace Entry

theorem inPathOrder_eq_mergeSort (entries : List Entry) :
    Entry.inPathOrder entries =
      entries.mergeSort fun a b => (Path.order a.path.ranks b.path.ranks).isLE := by
  unfold Entry.inPathOrder
  rw [List.map_mergeSort (s := fun a b => (Path.order a.path.ranks b.path.ranks).isLE)]
  · simp [Function.comp_def]
  · intro a ha b hb
    rw [List.mem_map] at ha hb
    obtain ⟨_, _, rfl⟩ := ha
    obtain ⟨_, _, rfl⟩ := hb
    rfl

theorem inPathOrder_of_sorted {entries : List Entry}
    (h : entries.Pairwise fun a b => (Path.order a.path.ranks b.path.ranks).isLE) :
    Entry.inPathOrder entries = entries := by
  rw [inPathOrder_eq_mergeSort]
  exact List.mergeSort_of_pairwise h

theorem filter_inPathOrder (entries : List Entry) (ranks : List Path.Rank) :
    (Entry.inPathOrder entries).filter (fun e => Path.order e.path.ranks ranks = .eq) =
      entries.filter fun e => Path.order e.path.ranks ranks = .eq := by
  have hsorted : (entries.filter fun e => Path.order e.path.ranks ranks = .eq).Pairwise
      fun a b => (Path.order a.path.ranks b.path.ranks).isLE := by
    rw [List.pairwise_filter]
    apply List.pairwise_of_forall
    intro a b ha hb
    simp only [decide_eq_true_eq] at ha hb
    have heq : Path.order a.path.ranks b.path.ranks = .eq :=
      Std.TransCmp.eq_trans ha (Std.OrientedCmp.eq_symm hb)
    rw [heq]
    rfl
  have hsublist : (entries.filter fun e => Path.order e.path.ranks ranks = .eq).Sublist
      (Entry.inPathOrder entries) := by
    rw [inPathOrder_eq_mergeSort]
    apply List.sublist_mergeSort _ _ hsorted List.filter_sublist
    · intro a b c hab hbc
      exact Std.TransCmp.isLE_trans hab hbc
    · intro a b
      have hswap : Path.order b.path.ranks a.path.ranks =
          (Path.order a.path.ranks b.path.ranks).swap := Std.OrientedCmp.eq_swap
      rw [hswap]
      cases Path.order a.path.ranks b.path.ranks <;> rfl
  have hfilter := hsublist.filter fun e => Path.order e.path.ranks ranks = .eq
  rw [List.filter_filter] at hfilter
  simp only [Bool.and_self] at hfilter
  apply (hfilter.eq_of_length _).symm
  exact ((Entry.inPathOrder_perm entries).filter _).length_eq.symm

theorem eq_of_sorted {front back : List Entry} (hperm : front.Perm back)
    (hfront : front.Pairwise fun a b => (Path.order a.path.ranks b.path.ranks).isLE)
    (hback : back.Pairwise fun a b => (Path.order a.path.ranks b.path.ranks).isLE)
    (hstable : ∀ ranks, (front.filter fun e => Path.order e.path.ranks ranks = .eq) =
      back.filter fun e => Path.order e.path.ranks ranks = .eq) : front = back := by
  induction front generalizing back with
  | nil => exact hperm.nil_eq
  | cons a front ih =>
    cases back with
    | nil => exact hperm.eq_nil
    | cons b back =>
      rw [List.pairwise_cons] at hfront hback
      -- the two first entries come before each other, so that their paths are equal
      have hab : (Path.order a.path.ranks b.path.ranks).isLE := by
        rcases List.mem_cons.1 (hperm.mem_iff.2 List.mem_cons_self) with rfl | hmem
        · rw [Path.order_self]
          rfl
        · exact hfront.1 b hmem
      have hba : (Path.order b.path.ranks a.path.ranks).isLE := by
        rcases List.mem_cons.1 (hperm.mem_iff.1 List.mem_cons_self) with rfl | hmem
        · rw [Path.order_self]
          rfl
        · exact hback.1 a hmem
      have hequal : Path.order b.path.ranks a.path.ranks = .eq :=
        Std.OrientedCmp.isLE_antisymm hba hab
      have hfirst := hstable a.path.ranks
      rw [List.filter_cons_of_pos (by simp [Path.order_self]),
        List.filter_cons_of_pos (by simp [hequal]), List.cons.injEq] at hfirst
      obtain ⟨rfl, _⟩ := hfirst
      rw [ih hperm.cons_inv hfront.2 hback.2]
      intro ranks
      have hranks := hstable ranks
      by_cases ha : Path.order a.path.ranks ranks = .eq
      · rw [List.filter_cons_of_pos (by simpa using ha),
          List.filter_cons_of_pos (by simpa using ha), List.cons.injEq] at hranks
        exact hranks.2
      · rwa [List.filter_cons_of_neg (by simpa using ha),
          List.filter_cons_of_neg (by simpa using ha)] at hranks

theorem inPathOrder_filter (entries : List Entry) (p : Entry → Bool) :
    Entry.inPathOrder (entries.filter p) = (Entry.inPathOrder entries).filter p := by
  apply eq_of_sorted
  · exact (inPathOrder_perm _).trans ((inPathOrder_perm entries).filter p).symm
  · exact pairwise_inPathOrder _
  · exact (pairwise_inPathOrder entries).filter p
  · intro ranks
    have hcomm : ∀ others : List Entry,
        (others.filter p).filter (fun e => Path.order e.path.ranks ranks = .eq) =
          (others.filter fun e => Path.order e.path.ranks ranks = .eq).filter p := by
      intro others
      rw [List.filter_filter, List.filter_filter]
      exact List.filter_congr fun e _ => Bool.and_comm _ _
    rw [filter_inPathOrder, hcomm, hcomm, filter_inPathOrder]

/--
The lists hold the same entries, and those with equal paths in the same order.
-/
structure Reordered (front back : List Entry) : Prop where
  perm : front.Perm back
  ties : ∀ entry ∈ front, (front.filter fun e => Path.order e.path.ranks entry.path.ranks = .eq) =
    back.filter fun e => Path.order e.path.ranks entry.path.ranks = .eq

theorem Reordered.filter_eq {front back : List Entry} (h : Reordered front back)
    (ranks : List Path.Rank) :
    (front.filter fun e => Path.order e.path.ranks ranks = .eq) =
      back.filter fun e => Path.order e.path.ranks ranks = .eq := by
  by_cases htie : ∃ entry ∈ front, Path.order entry.path.ranks ranks = .eq
  · obtain ⟨entry, hentry, hranks⟩ := htie
    have hcongr : ∀ e : Entry, Path.order e.path.ranks entry.path.ranks =
        Path.order e.path.ranks ranks := fun e => Std.TransCmp.congr_right hranks
    have hties := h.ties entry hentry
    simp only [hcongr] at hties
    exact hties
  · have hfront : ∀ entry ∈ front, ¬Path.order entry.path.ranks ranks = .eq :=
      fun entry hentry hranks => htie ⟨entry, hentry, hranks⟩
    rw [List.filter_eq_nil_iff.2 (by simpa using hfront), List.filter_eq_nil_iff.2]
    intro entry hentry
    simpa using hfront entry (h.perm.mem_iff.2 hentry)

theorem inPathOrder_eq_iff {front back : List Entry} :
    Entry.inPathOrder front = Entry.inPathOrder back ↔ Reordered front back := by
  constructor
  · intro h
    constructor
    · have hfront := inPathOrder_perm front
      rw [h] at hfront
      exact hfront.symm.trans (inPathOrder_perm back)
    · intro entry _
      rw [← filter_inPathOrder front, h, filter_inPathOrder]
  · intro h
    apply eq_of_sorted
    · exact ((inPathOrder_perm front).trans h.perm).trans (inPathOrder_perm back).symm
    · exact pairwise_inPathOrder front
    · exact pairwise_inPathOrder back
    · intro ranks
      rw [filter_inPathOrder, filter_inPathOrder, h.filter_eq]

end Entry

/--
An import makes the same record and reports the same errors in the same order, however the entries
with different paths are ordered.
-/
theorem Record.importEntries_eq_of_reordered {front back : List Entry}
    (h : Entry.Reordered front back) (record : Record) :
    record.importEntries front = record.importEntries back := by
  unfold importEntries
  rw [Entry.inPathOrder_eq_iff.2 h]

theorem Record.importEntries_reordered_tags :
    let type : RecordType :=
      ⟨"Row", [⟨"id", .primitive .int⟩, ⟨"tags", .collection (.primitive .int)⟩]⟩
    let record := ((Record.empty type).write ["tags", "0"] (.int 1)).value
    let front : List Entry := [⟨"tags.2", .int 3⟩, ⟨"tags.1", .int 4⟩, ⟨"id", .string "x"⟩,
      ⟨"tags. +1", .int 2⟩, ⟨"tags.10", .int 5⟩]
    let back : List Entry := [⟨"tags.10", .int 5⟩, ⟨"tags.1", .int 4⟩, ⟨"tags. +1", .int 2⟩,
      ⟨"tags.2", .int 3⟩, ⟨"id", .string "x"⟩]
    let filled : Record :=
      ⟨type, [.unset, .collection [.scalar (.int 1), .scalar (.int 2), .scalar (.int 3)]]⟩
    let errors : List EntryError := [⟨"id", .invalidValue "id" "int" "x"⟩,
      ⟨"tags.10", .invalidIndex "tags" "10" 3⟩]
    Entry.Reordered front back ∧ record.importEntries front = (filled, errors) ∧
      record.importEntries back = (filled, errors) := by
  intro type record front back filled errors
  let sorted : List Entry := [⟨"id", .string "x"⟩, ⟨"tags.1", .int 4⟩, ⟨"tags. +1", .int 2⟩,
    ⟨"tags.2", .int 3⟩, ⟨"tags.10", .int 5⟩]
  have h : Entry.Reordered front back := ⟨by decide, by decide⟩
  have hsorted : Entry.Reordered front sorted := ⟨by decide, by decide⟩
  have hfront : record.importEntries front = (filled, errors) := by
    rw [importEntries_eq_of_reordered hsorted, importEntries,
      Entry.inPathOrder_of_sorted (by decide)]
    rfl
  exact ⟨h, hfront, (importEntries_eq_of_reordered h record).symm.trans hfront⟩

namespace Path

theorem order_cons_self (rank : Rank) (as bs : List Rank) :
    order (rank :: as) (rank :: bs) = order as bs := by
  have hself : Rank.order rank rank = .eq := Std.ReflCmp.compare_self
  rw [order, hself]
  rfl

theorem Rank.ofSegment_of_index? {segment : String} {i : Nat} (h : Text.index? segment = some i) :
    Rank.ofSegment segment = .index i := by
  unfold Rank.ofSegment
  rw [h]

theorem order_append_self (ranks as bs : List Rank) :
    order (ranks ++ as) (ranks ++ bs) = order as bs := by
  induction ranks with
  | nil => rfl
  | cons rank ranks ih => rw [List.cons_append, List.cons_append, order_cons_self, ih]

/--
Paths to one place differ in the spelling of indices at most, which the order does not see.
-/
theorem ranks_eq_of_locate? {kind a b : Kind} {front other : Path} {place : Place}
    (h : kind.locate? front = some (place, a)) (h' : kind.locate? other = some (place, b)) :
    front.ranks = other.ranks := by
  induction place generalizing kind front other with
  | nil =>
    cases front with
    | cons segment rest => exact absurd h Kind.locate?_cons_ne_nil
    | nil =>
      cases other with
      | cons segment rest => exact absurd h' Kind.locate?_cons_ne_nil
      | nil => rfl
  | cons step place ih =>
    cases step with
    | slot i =>
      -- one slot has one name, whichever path leads through it
      obtain ⟨type, name, rest, inner, rfl, rfl, hfind, hrest⟩ := Kind.eq_nested_of_locate? h
      obtain ⟨_, name', rest', inner', htype, rfl, hfind', hrest'⟩ := Kind.eq_nested_of_locate? h'
      rw [Kind.nested.injEq] at htype
      subst htype
      obtain ⟨rfl, rfl⟩ := RecordType.find?_inj hfind hfind'
      exact congrArg (Rank.ofSegment name :: ·) (ih hrest hrest')
    | item i =>
      obtain ⟨element, index, rest, rfl, rfl, hindex, hrest⟩ := Kind.eq_collection_of_locate? h
      obtain ⟨_, index', rest', helement, rfl, hindex', hrest'⟩ := Kind.eq_collection_of_locate? h'
      rw [Kind.collection.injEq] at helement
      subst helement
      unfold ranks at ih ⊢
      rw [List.map_cons, List.map_cons, Rank.ofSegment_of_index? hindex,
        Rank.ofSegment_of_index? hindex', ih hrest hrest']

/--
A path that reaches a collection on the way of a path behind it goes on with an index, and not
with a later one.
-/
theorem exists_index?_le {kind inner found : Kind} {front back path : Path} {segment : String}
    {before place : Place} {j : Nat} (hfront : kind.locate? front = some (before, inner))
    (hpath : kind.locate? path = some (place, found)) (hj : before ++ [.item j] <+: place)
    (hle : (order (ranks (front ++ segment :: back)) path.ranks).isLE) :
    ∃ i, Text.index? segment = some i ∧ i ≤ j := by
  obtain ⟨rest, rfl⟩ := hj
  rw [List.append_assoc] at hpath
  obtain ⟨front', tail, inner', rfl, hfront', htail⟩ := Kind.exists_front_of_locate? hpath
  obtain ⟨element, index, tail', -, rfl, hindex, -⟩ := Kind.eq_collection_of_locate? htail
  have hranks := ranks_eq_of_locate? hfront hfront'
  unfold ranks at hle hranks
  rw [List.map_append, List.map_append, hranks, order_append_self, List.map_cons, List.map_cons,
    Rank.ofSegment_of_index? hindex] at hle
  cases hsegment : Text.index? segment with
  | none =>
    -- names stand behind all indices
    unfold Rank.ofSegment at hle
    rw [hsegment] at hle
    cases hle
  | some i =>
    refine ⟨i, rfl, ?_⟩
    rw [Rank.ofSegment_of_index? hsegment, order, Rank.order] at hle
    apply Nat.le_of_not_lt
    intro hlt
    rw [Nat.compare_eq_gt.2 hlt] at hle
    cases hle

/--
Paths that part at a collection are in the order of the elements that they pass.
-/
theorem order_eq_lt_of_item_lt {kind a b : Kind} {path path' : Path} {place place' before : Place}
    {i j : Nat} (h : kind.locate? path = some (place, a))
    (h' : kind.locate? path' = some (place', b)) (hi : before ++ [.item i] <+: place)
    (hj : before ++ [.item j] <+: place') (hij : i < j) :
    order path.ranks path'.ranks = .lt := by
  obtain ⟨rest, rfl⟩ := hi
  obtain ⟨rest', rfl⟩ := hj
  rw [List.append_assoc] at h h'
  obtain ⟨front, tail, inner, rfl, hfront, htail⟩ := Kind.exists_front_of_locate? h
  obtain ⟨front', tail', inner', rfl, hfront', htail'⟩ := Kind.exists_front_of_locate? h'
  obtain ⟨_, index, _, -, rfl, hindex, -⟩ := Kind.eq_collection_of_locate? htail
  obtain ⟨_, index', _, -, rfl, hindex', -⟩ := Kind.eq_collection_of_locate? htail'
  have hranks := ranks_eq_of_locate? hfront hfront'
  unfold ranks at hranks ⊢
  rw [List.map_append, List.map_append, hranks, order_append_self, List.map_cons, List.map_cons,
    Rank.ofSegment_of_index? hindex, Rank.ofSegment_of_index? hindex', order, Rank.order,
    Nat.compare_eq_lt.2 hij]
  rfl

end Path

end RowTree
