import RowTree.Proofs.Record.Independence
import RowTree.Proofs.Record.Overwrite

/-!
This module contains what an import does to the record that it made. An entry fares there as it did
before, and one that was accepted finds its elements (`Record.outcomes_writeAll`). What a list of
entries leaves depends on the start and on the accepted entries alone (`Value.Extends`), so that
applying these once more changes nothing (`Record.importEntries_importEntries`).
-/

namespace RowTree

/--
What the entries wrote may be written again.
-/
theorem Value.Extends.alike {type : RecordType} {entries : List Entry} {a b c : Value}
    (hab : a.Extends type entries b) (hbc : b.Extends type entries c) : b.Alike c := by
  intro place
  constructor
  · apply eq_of_forall_lt_iff
    intro i
    rw [hbc.lt_count_get_iff, hab.lt_count_get_iff, or_assoc, or_self]
  · rw [hbc.scalar?_get, hab.scalar?_get, ← Option.or_assoc, Option.or_self]

namespace Record

variable {record : Record}

theorem extends_writeAll (h : record.Conforms) (entries : List Entry) :
    (Value.nested record).Extends record.type (record.accepted entries)
      (.nested (record.writeAll entries).1) := by
  induction entries generalizing record with
  | nil => exact .of_alike .rfl
  | cons entry rest ih =>
    have hrest := ih (h.write entry.path entry.value)
    rw [type_write] at hrest
    rw [fst_writeAll_cons]
    by_cases hok : (record.write entry.path entry.value).error? = none
    · obtain ⟨place, s, htarget, hstored⟩ := stored_target h hok
      rw [accepted_cons_of_ok rest hok]
      exact (Value.Extends.of_stored htarget h.nested hstored).append hrest
    · rw [accepted_cons_of_refused rest hok]
      exact (Value.Extends.of_alike ((touched_write h hok).alike h.nested)).append hrest

theorem get_writeAll_eq_unset_iff (h : record.Conforms) {entries : List Entry}
    (hok : (record.writeAll entries).2 = []) {before : Place} :
    (Value.nested (record.writeAll entries).1).get before = .unset ↔
      (Value.nested record).get before = .unset ∧
        ∀ entry ∈ entries, ∀ place s, entry.target? record.type = some (place, s) →
          ¬before <+: place := by
  induction entries generalizing record with
  | nil => simp [writeAll]
  | cons entry rest ih =>
    obtain ⟨hentry, hrest⟩ := snd_writeAll_cons_eq_nil_iff.1 hok
    obtain ⟨place, s, htarget, hstored⟩ := stored_target h hentry
    rw [fst_writeAll_cons, ih (h.write entry.path entry.value) hrest,
      hstored.get_eq_unset_iff h.nested, type_write, List.forall_mem_cons, and_assoc]
    simp [htarget]

/-! ## Entries that find their elements -/

/--
If the entry can be written, all elements are there that it leads through.
-/
def Settled (record : Record) (entry : Entry) : Prop :=
  (record.write entry.path entry.value).error? = none →
    ∀ before i, entry.Passes record.type before i → i < ((Value.nested record).get before).count

theorem Settled.count_get_write (h : record.Conforms) {entry : Entry}
    (hsettled : record.Settled entry) (before : Place) :
    ((Value.nested (record.write entry.path entry.value).value).get before).count =
      ((Value.nested record).get before).count := by
  by_cases hok : (record.write entry.path entry.value).error? = none
  · obtain ⟨place, s, htarget, hstored⟩ := stored_target h hok
    rw [hstored.count_get h.nested, if_neg]
    intro hfront
    exact Nat.lt_irrefl _ (hsettled hok before _ ⟨place, s, htarget, hfront⟩)
  · exact ((touched_write h hok).alike h.nested before).1.symm

theorem outcomes_eq_of_settled {other : Record} {entries : List Entry} (h : record.Conforms)
    (h' : other.Conforms) (htype : other.type = record.type)
    (hcount : ∀ place, ((Value.nested other).get place).count =
      ((Value.nested record).get place).count)
    (hsettled : ∀ entry ∈ entries, record.Settled entry) :
    other.outcomes entries = entries.map fun entry =>
      (entry, (record.write entry.path entry.value).error?) := by
  induction entries generalizing other with
  | nil => rfl
  | cons entry rest ih =>
    rw [List.forall_mem_cons] at hsettled
    have herror := error?_write_of_count h h' htype hcount entry.path entry.value
    -- the record is as settled as the one that has as many elements
    have hentry : other.Settled entry := by
      intro hok before i hpasses
      rw [herror] at hok
      rw [htype] at hpasses
      rw [hcount]
      exact hsettled.1 hok before i hpasses
    rw [outcomes, List.map_cons, herror]
    congr 1
    apply ih (h'.write entry.path entry.value) ((other.type_write _ _).trans htype) _ hsettled.2
    intro place
    rw [hentry.count_get_write h', hcount]

/-! ## Writing the same entries again -/

section

variable {entries : List Entry} (h : record.Conforms)
  (hsorted : entries.Pairwise fun a b => (Path.order a.path.ranks b.path.ranks).isLE)

include h hsorted

theorem mem_accepted_of_ok {entry : Entry} (hentry : entry ∈ entries)
    (hok : ((record.writeAll entries).1.write entry.path entry.value).error? = none) :
    entry ∈ record.accepted entries := by
  unfold accepted
  rw [outcomes_eq_map h hsorted]
  refine List.mem_map.2 ⟨(entry, none), List.mem_filter.2 ⟨?_, rfl⟩, rfl⟩
  rw [← hok]
  exact List.mem_map_of_mem hentry

theorem settled_writeAll {entry : Entry} (hentry : entry ∈ entries) :
    (record.writeAll entries).1.Settled entry := by
  intro hok before i hpasses
  rw [type_writeAll] at hpasses
  have haccepted := mem_accepted_of_ok h hsorted hentry hok
  have hcount := (extends_writeAll h entries).lt_count_get_iff before i
  exact hcount.2 (.inr ⟨entry, haccepted, hpasses⟩)

theorem outcomes_writeAll :
    (record.writeAll entries).1.outcomes entries = record.outcomes entries := by
  have hfinal := h.writeAll entries
  have hsettled : ∀ entry ∈ entries, (record.writeAll entries).1.Settled entry :=
    fun _ => settled_writeAll h hsorted
  rw [outcomes_eq_map h hsorted]
  exact outcomes_eq_of_settled hfinal hfinal rfl (fun _ => rfl) hsettled

theorem snd_writeAll_writeAll :
    ((record.writeAll entries).1.writeAll entries).2 = (record.writeAll entries).2 := by
  rw [snd_writeAll, outcomes_writeAll h hsorted, ← snd_writeAll]

theorem alike_writeAll :
    (Value.nested (record.writeAll entries).1).Alike
      (.nested ((record.writeAll entries).1.writeAll entries).1) := by
  have htwice := extends_writeAll (h.writeAll entries) entries
  unfold accepted at htwice
  rw [outcomes_writeAll h hsorted, type_writeAll] at htwice
  exact (extends_writeAll h entries).alike htwice

theorem writeAll_writeAll_eq (hok : (record.writeAll entries).2 = []) :
    ((record.writeAll entries).1.writeAll entries).1 = (record.writeAll entries).1 := by
  have hfinal := h.writeAll entries
  have hagain := hfinal.writeAll entries
  have hnil := (snd_writeAll_writeAll h hsorted).trans hok
  have hnested := hagain.nested
  rw [type_writeAll] at hnested
  apply Value.nested.inj
  apply Value.eq_of_places hnested hfinal.nested (alike_writeAll h hsorted).symm
  intro before
  rw [get_writeAll_eq_unset_iff hfinal hnil, type_writeAll]
  exact and_iff_left_of_imp fun hunset => ((get_writeAll_eq_unset_iff h hok).1 hunset).2

end

/--
An import may be repeated. The second time the same entries are refused for the same reasons, every
path reads the scalar that it read before, and no collection changes its length. What is new are
containers that hold nothing at most, and not even these if the first import refused nothing.
-/
theorem importEntries_importEntries {type : RecordType} (h : record.Reached type)
    (entries : List Entry) :
    let once := record.importEntries entries
    let twice := once.1.importEntries entries
    twice.2 = once.2 ∧
      (∀ path s, twice.1.read? path = some (.scalar s) ↔ once.1.read? path = some (.scalar s)) ∧
      (∀ path items, once.1.read? path = some (.collection items) →
        ∃ others, twice.1.read? path = some (.collection others) ∧
          others.length = items.length) ∧
      (∀ place, ((Value.nested twice.1).get place).count =
        ((Value.nested once.1).get place).count) ∧
      twice.1.pruned = once.1.pruned ∧
      (once.2 = [] → twice.1 = once.1 ∧
        ((∀ leaf ∈ once.1.leaves, leaf.2.IsDefined) → twice.1.same once.1 = true)) := by
  intro once twice
  have hsorted := Entry.pairwise_inPathOrder entries
  have honce : once.1.Conforms := h.conforms.writeAll _
  have htwice : twice.1.Conforms := honce.writeAll _
  have htype : twice.1.type = once.1.type := once.1.type_importEntries entries
  have halike : (Value.nested once.1).Alike (.nested twice.1) := alike_writeAll h.conforms hsorted
  refine ⟨?_, ?_, ?_, ?_, ?_, ?_⟩
  · exact snd_writeAll_writeAll h.conforms hsorted
  · exact read?_eq_scalar_iff_of_alike honce htwice htype halike
  · intro path items hread
    obtain ⟨hne, place, kind, hplace, hget, _⟩ := (read?_eq_some_iff honce.nested).1 hread
    have hgrows : (Value.nested once.1).GrowsTo (.nested twice.1) :=
      growsTo_run honce [.importEntries entries]
    obtain ⟨others, hothers, _⟩ := hgrows.exists_collection hget
    have hcount := (halike place).1
    rw [hget, hothers] at hcount
    rw [← htype] at hplace
    refine ⟨others, ?_, hcount.symm⟩
    exact (read?_eq_some_iff htwice.nested).2 ⟨hne, place, kind, hplace, hothers, by simp⟩
  · intro place
    exact (halike place).1.symm
  · exact ((pruned_eq_iff honce htwice htype.symm).2 halike).symm
  · intro hok
    have heq : twice.1 = once.1 := writeAll_writeAll_eq h.conforms hsorted hok
    refine ⟨heq, ?_⟩
    rw [heq]
    exact honce.same_self

/--
The first entry is refused together with the item that it would have begun, and finds that item the
second time.
-/
theorem importEntries_importEntries_marks :
    let item : RecordType :=
      ⟨"Item", [⟨"name", .primitive .string⟩, ⟨"marks", .collection (.primitive .int)⟩]⟩
    let type : RecordType :=
      ⟨"Row", [⟨"id", .primitive .int⟩, ⟨"items", .collection (.nested item)⟩]⟩
    let row : Value → Record := fun marks =>
      ⟨type, [.scalar (.int 1), .collection [.nested ⟨item, [.scalar (.string "b"), marks]⟩]]⟩
    let record := (Record.empty type).run [.write ["id"] (.int 1)]
    let names : List Entry :=
      [⟨"items.0.name", .string "a"⟩, ⟨"items.+0.name", .string "b"⟩]
    let entries : List Entry :=
      ⟨"items.0.marks.x", .int 1⟩ :: names ++ [⟨"items.2.name", .string "c"⟩]
    let errors : List EntryError :=
      [⟨"items.0.marks.x", .invalidIndex "marks" "x" 0⟩,
        ⟨"items.2.name", .invalidIndex "items" "2" 1⟩]
    record.Reached type ∧
      record.importEntries entries = (row .unset, errors) ∧
      (row .unset).importEntries entries = (row (.collection []), errors) ∧
      (row (.collection [])).pruned = (row .unset).pruned ∧
      record.importEntries names = (row .unset, []) ∧
      (row .unset).importEntries names = (row .unset, []) := by
  intro item type row record names entries errors
  have hreached : record.Reached type := ⟨_, rfl⟩
  have hentries : Entry.inPathOrder entries = entries := Entry.inPathOrder_of_sorted (by decide)
  have honce : record.importEntries entries = (row .unset, errors) := by
    unfold Record.importEntries
    rw [hentries]
    rfl
  have hnames : record.importEntries names = (row .unset, []) := by
    unfold Record.importEntries
    rw [Entry.inPathOrder_of_sorted (by decide)]
    rfl
  have htwice : ((row .unset).importEntries entries).1 = row (.collection []) := by
    unfold Record.importEntries
    rw [hentries]
    rfl
  obtain ⟨herrors, _, _, _, hpruned, _⟩ := importEntries_importEntries hreached entries
  obtain ⟨hnone, _, _, _, _, hequal⟩ := importEntries_importEntries hreached names
  rw [honce] at herrors hpruned
  rw [hnames] at hnone hequal
  rw [htwice] at hpruned
  exact ⟨hreached, honce, Prod.ext htwice herrors, hpruned, hnames, Prod.ext (hequal rfl).1 hnone⟩

end Record

end RowTree
