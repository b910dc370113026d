import RowTree.Proofs.Record.Frame
import RowTree.Proofs.Record.RoundTrip
import RowTree.Proofs.Rule.Completion
import RowTree.Proofs.Store.History

/-!
This module contains where the contents of stored rows come from. A row that was taken holds a
scalar in each of its containers, since refused rows are dropped as a whole, and what a header or
the target of a rule finds in it was written by one of its entries (`Store.populated_of_mem_rows`).
-/

namespace RowTree

/--
The entry wrote a scalar that the record holds, at the end of the path or inside what stands there.
-/
def Entry.WroteInside (record : Record) (path : Path) (entry : Entry) : Prop :=
  (Kind.nested record.type).onWay path entry.path = true ∧
    ∃ p s, record.type.at? entry.path = some (.primitive p) ∧ p.coerce? entry.value = some s ∧
      record.read? entry.path = some (.scalar s)

namespace Record

variable {type : RecordType} {record : Record}

theorem Written.leaves_get_ne_nil (h : record.Written type) {place : Place} (hne : place ≠ [])
    (hset : (Value.nested record).get place ≠ .unset) :
    ((Value.nested record).get place).leaves ≠ [] := by
  obtain ⟨rest, s, hs⟩ := h.exists_scalar_below hne hset
  obtain ⟨kind, hkind⟩ := h.conforms.exists_get place
  rw [Value.get_append] at hs
  obtain ⟨path, hleaf⟩ := Value.exists_mem_leaves_of_get hkind hs
  exact List.ne_nil_of_mem hleaf

theorem Written.leaves_item_ne_nil (h : record.Written type) {place : Place} {items : List Value}
    (hitems : (Value.nested record).get place = .collection items) {item : Value}
    (hitem : item ∈ items) : item.leaves ≠ [] := by
  obtain ⟨i, hi, rfl⟩ := List.mem_iff_getElem.1 hitem
  have hget : (Value.nested record).get (place ++ [.item i]) = items[i] := by
    rw [Value.get_append, hitems, Value.get_cons, Value.get_nil, Value.part_item_eq, Value.items,
      List.getElem?_eq_getElem hi]
    rfl
  obtain ⟨kind, hkind⟩ := h.conforms.exists_get place
  rw [hitems] at hkind
  obtain ⟨element, _, hall⟩ := Value.conforms_collection_iff.1 hkind
  have hset := (Value.allConform_iff.1 hall _ hitem).1
  rw [← hget] at hset ⊢
  exact h.leaves_get_ne_nil (by simp) hset

/--
What is read in a written record has a scalar at its end or inside, which the last entry for its
place wrote.
-/
theorem Written.exists_wroteInside (h : record.Written type) {applied : List Entry}
    (hholds : record.Holds type applied) {path : Path} {found : Value}
    (hread : record.read? path = some found) :
    ∃ entry ∈ applied, entry.WroteInside record path := by
  obtain rfl := h.type_eq
  obtain ⟨hne, place, kind, hplace, rfl, hset⟩ := (read?_eq_some_iff h.conforms).1 hread
  have hsteps : place ≠ [] := by
    rintro rfl
    exact hne (List.eq_nil_of_length_eq_zero (Kind.length_eq_of_locate? hplace).symm)
  obtain ⟨rest, s, hs⟩ := h.exists_scalar_below hsteps hset
  have hlast : Entry.lastAt? record.type applied (place ++ rest) = some s := by
    rw [← hholds.scalar?_eq, hs]
    rfl
  obtain ⟨entry, hentry, htarget⟩ := Entry.exists_mem_of_lastAt? hlast
  obtain ⟨hend, hcoerce⟩ := Entry.target?_eq_some_iff.1 htarget
  refine ⟨entry, hentry, ?_, s.primitive, s, ?_, hcoerce, ?_⟩
  · exact (Kind.onWay_iff hend).2 ⟨place, kind, hplace, List.prefix_append place rest⟩
  · exact RecordType.at?_of_locate? (Path.ofText_ne_nil _) hend
  · exact (hholds.read?_eq_scalar_iff hend s).2 hlast

theorem written_of_importEntries {entries : List Entry}
    (h : (Record.empty type).importEntries entries = (record, [])) :
    record.Written type ∧ record.Holds type (Entry.inPathOrder entries) := by
  have hnil : ((Record.empty type).importEntries entries).2 = [] := by rw [h]
  have hwritten : ((Record.empty type).importEntries entries).1.Written type :=
    Written.empty.writeAll hnil
  obtain ⟨htarget, hgapless⟩ := (importEntries_eq_nil_iff type entries).1 hnil
  have hholds := holds_importEntries_of_gapless htarget hgapless
  rw [h] at hwritten hholds
  exact ⟨hwritten, hholds⟩

theorem exists_read?_of_mem_reach (hindexable : (Value.nested record).Indexable) {target : Target}
    {value : Value} (hvalue : value ∈ record.reach target.segments) :
    ∃ inserted path, (Value.nested record).Completes target.segments inserted path ∧
      record.read? path = some value := by
  have hne := target.segments_ne_nil
  obtain ⟨readings, hreadings, hfound⟩ := Value.exists_readings hindexable target.segments
  rw [record.reach_eq hne, ← hfound, List.mem_map] at hvalue
  obtain ⟨reading, hreading, rfl⟩ := hvalue
  obtain ⟨hcompletes, hread, _⟩ := (hreadings.mem_iff reading).1 hreading
  rw [← record.read?_eq (hcompletes.ne_nil hne)] at hread
  exact ⟨reading.inserted, reading.path, hcompletes, hread⟩

end Record

/-! ## Stored rows -/

namespace Store

theorem Call.entriesFor?_eq_some_iff {call : Call} {name : String} {entries : List Entry} :
    call.entriesFor? name = some entries ↔ call = .add name entries := by
  cases call with
  | create schema => simp [entriesFor?]
  | add other added =>
    by_cases hname : other = name <;> simp [entriesFor?, hname]

theorem exists_call_of_mem_rows (calls : List Call) {name : String} {rows : List Record}
    (h : (empty.run calls).rows name = some rows) {row : Record} (hrow : row ∈ rows) :
    ∃ entries, Call.add name entries ∈ empty.accepted calls ∧
      (Record.empty row.type).importEntries entries = (row, []) := by
  obtain ⟨table, htable, rfl⟩ := Option.map_eq_some_iff.1 h
  have himports := (MadeBy.empty.run calls).imports_eq name table htable
  have hmem : (row, []) ∈ table.rows.map fun row => (row, ([] : List EntryError)) :=
    List.mem_map_of_mem hrow
  rw [← himports, List.mem_map] at hmem
  obtain ⟨entries, hentries, himport⟩ := hmem
  obtain ⟨call, hcall, hadds⟩ := List.mem_filterMap.1 hentries
  rw [Call.entriesFor?_eq_some_iff] at hadds
  subst hadds
  have htype := (Record.empty table.type).type_importEntries entries
  rw [himport] at htype
  exact ⟨entries, hcall, by rw [htype]; exact himport⟩

/--
In a stored row every record holds a scalar, and every collection has elements that all hold one.
The row was made by an accepted call, and what a header shows of it, or the target of a rule finds
in it, is or contains a scalar that an entry of this call wrote.
-/
theorem populated_of_mem_rows (calls : List Call) {name : String} {rows : List Record}
    (h : (empty.run calls).rows name = some rows) {row : Record} (hrow : row ∈ rows) :
    (∀ place inner, place ≠ [] → (Value.nested row).get place = .nested inner →
        inner.leaves ≠ []) ∧
      (∀ place items, (Value.nested row).get place = .collection items →
        items ≠ [] ∧ ∀ item ∈ items, item.leaves ≠ []) ∧
      ∃ entries, Call.add name entries ∈ empty.accepted calls ∧
        (Record.empty row.type).importEntries entries = (row, []) ∧
        (∀ header text, row.readText? (Path.ofText header) = some text →
          ∃ entry ∈ entries, entry.WroteInside row (Path.ofText header)) ∧
        ∀ (target : Target) (value : Value), value ∈ row.reach target.segments →
          ∃ inserted path, (Value.nested row).Completes target.segments inserted path ∧
            row.read? path = some value ∧ ∃ entry ∈ entries, entry.WroteInside row path := by
  obtain ⟨entries, hcall, himport⟩ := exists_call_of_mem_rows calls h hrow
  obtain ⟨hwritten, hholds⟩ := Record.written_of_importEntries himport
  have hwrote {path : Path} {found : Value} (hread : row.read? path = some found) :
      ∃ entry ∈ entries, entry.WroteInside row path := by
    obtain ⟨entry, hentry, hinside⟩ := hwritten.exists_wroteInside hholds hread
    exact ⟨entry, (Entry.inPathOrder_perm entries).mem_iff.1 hentry, hinside⟩
  refine ⟨?_, ?_, entries, hcall, himport, ?_, ?_⟩
  · intro place inner hne hinner
    have hleaves := hwritten.leaves_get_ne_nil hne (by rw [hinner]; simp)
    rw [hinner, Value.leaves] at hleaves
    exact hleaves
  · intro place items hitems
    refine ⟨?_, fun item hitem => hwritten.leaves_item_ne_nil hitems hitem⟩
    rintro rfl
    have hne : place ≠ [] := by
      rintro rfl
      cases hitems
    have hleaves := hwritten.leaves_get_ne_nil hne (by rw [hitems]; simp)
    rw [hitems] at hleaves
    exact hleaves rfl
  · intro header text htext
    obtain ⟨found, hread, _⟩ := Option.map_eq_some_iff.1 htext
    exact hwrote hread
  · intro target value hvalue
    obtain ⟨inserted, path, hcompletes, hread⟩ :=
      Record.exists_read?_of_mem_reach hwritten.indexable hvalue
    exact ⟨inserted, path, hcompletes, hread, hwrote hread⟩

theorem populated_of_mem_rows_bag :
    let schema : Schema :=
      ⟨"bag", [⟨"owner", "string", false⟩, ⟨"items", "Item", true⟩],
        [⟨"Item.name", "string", false⟩, ⟨"Item.marks", "int", true⟩],
        [⟨"Item", ["name", "marks"]⟩]⟩
    let item : RecordType :=
      ⟨"Item", [⟨"name", .primitive .string⟩, ⟨"marks", .collection (.primitive .int)⟩]⟩
    let type : RecordType :=
      ⟨"bag", [⟨"owner", .primitive .string⟩, ⟨"items", .collection (.nested item)⟩]⟩
    let refused : List Entry := [⟨"items.0.marks.0", .string "x"⟩]
    let entries : List Entry := [⟨"items.0.name", .string "a"⟩]
    let row : Record :=
      ⟨type, [.unset, .collection [.nested ⟨item, [.scalar (.string "a"), .unset]⟩]]⟩
    let calls := [Call.create schema, .add "bag" refused, .add "bag" entries]
    ((Record.empty type).importEntries refused).1.slots = [.unset, .collection []] ∧
      (empty.run calls).rows "bag" = some [row] ∧
      (∃ inner, (Value.nested row).get [.slot 1, .item 0] = .nested inner ∧ inner.leaves ≠ []) ∧
      (∃ items, (Value.nested row).get [.slot 1] = .collection items ∧ items ≠ []) ∧
      ∃ added, Call.add "bag" added ∈ empty.accepted calls ∧
        (∃ entry ∈ added, entry.WroteInside row ["items"]) ∧
        ∃ inserted path, (Value.nested row).Completes ["items"] inserted path ∧
          ∃ entry ∈ added, entry.WroteInside row path := by
  intro schema item type refused entries row calls
  have hrefused : (Record.empty type).importEntries refused =
      (⟨type, [.unset, .collection []]⟩,
        [⟨"items.0.marks.0", .invalidValue "marks.0" "int" "x"⟩]) := by
    unfold Record.importEntries
    rw [Entry.inPathOrder_of_sorted (by decide)]
    rfl
  have himport : (Record.empty type).importEntries entries = (row, []) := by
    unfold Record.importEntries
    rw [Entry.inPathOrder_of_sorted (by decide)]
    rfl
  have hfind : (empty.apply (.create schema)).table? "bag" = some ⟨type, []⟩ := by
    with_unfolding_all rfl
  have hkept : (empty.apply (.create schema)).apply (.add "bag" refused) =
      empty.apply (.create schema) := by
    rw [apply, attempt, add_eq_error hfind hrefused (by simp)]
    rfl
  have hadded : (empty.apply (.create schema)).apply (.add "bag" entries) =
      (empty.apply (.create schema)).appendRow "bag" row := by
    rw [apply, attempt, add_eq_appendRow hfind himport]
    rfl
  have hrows : (empty.run calls).rows "bag" = some [row] := by
    simp only [calls, run, List.foldl_cons, List.foldl_nil, hkept, hadded, rows]
    rw [table?_appendRow, if_pos rfl, hfind]
    rfl
  obtain ⟨hnested, hcollection, added, hcall, _, hheader, htarget⟩ :=
    populated_of_mem_rows calls hrows (List.mem_singleton_self row)
  have hitems : Path.ofText "items" = ["items"] := by decide
  refine ⟨by rw [hrefused], hrows, ⟨_, rfl, hnested [.slot 1, .item 0] _ (by simp) rfl⟩,
    ⟨_, rfl, (hcollection [.slot 1] _ rfl).1⟩, added, hcall, ?_, ?_⟩
  · rw [← hitems]
    exact hheader "items" _ (by rw [hitems]; rfl)
  · have hsegments : (⟨"bag", "items", ["items"], rfl⟩ : Target).segments = ["items"] := hitems
    have hvalue : Value.nested ⟨item, [.scalar (.string "a"), .unset]⟩ ∈
        row.reach (⟨"bag", "items", ["items"], rfl⟩ : Target).segments := by
      rw [hsegments]
      exact List.mem_singleton_self _
    obtain ⟨inserted, path, hcompletes, _, hwrote⟩ := htarget _ _ hvalue
    rw [hsegments] at hcompletes
    exact ⟨inserted, path, hcompletes, hwrote⟩

end Store

end RowTree
