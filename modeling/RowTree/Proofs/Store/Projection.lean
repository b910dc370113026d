import Mathlib.Data.List.Pairwise
import RowTree.Proofs.Record.Import
import RowTree.Proofs.Record.Run
import RowTree.Proofs.Store.Run

/-!
This module contains what a projection shows of a row. A row that was added shows the entries that
it was made of, and nothing else: no entry disturbs another one, whatever their order
(`Store.project_add`).
-/

namespace RowTree

theorem RecordType.exists_locate?_of_at? {type : RecordType} {path : Path} {kind : Kind}
    (h : type.at? path = some kind) :
    ∃ place, (Kind.nested type).locate? path = some (place, kind) := by
  rw [RecordType.at?] at h
  split at h
  · cases h
  · rw [Kind.at?_eq_locate?, Option.map_eq_some_iff] at h
    obtain ⟨⟨place, _⟩, hplace, rfl⟩ := h
    exact ⟨place, hplace⟩

def RecordType.SamePosition (type : RecordType) (path other : Path) : Prop :=
  ∃ position, (Kind.nested type).locate? path = some position ∧
    (Kind.nested type).locate? other = some position

theorem RecordType.samePosition_iff {type : RecordType} {path other : Path} :
    type.SamePosition path other ↔
      ((Kind.nested type).locate? path).isSome ∧
        (Kind.nested type).locate? path = (Kind.nested type).locate? other := by
  unfold RecordType.SamePosition
  rw [Option.isSome_iff_exists]
  constructor
  · rintro ⟨position, hpath, hother⟩
    exact ⟨⟨position, hpath⟩, hpath.trans hother.symm⟩
  · rintro ⟨⟨position, hpath⟩, heq⟩
    exact ⟨position, hpath, heq.symm.trans hpath⟩

instance (type : RecordType) (path other : Path) : Decidable (type.SamePosition path other) :=
  decidable_of_iff _ RecordType.samePosition_iff.symm

/--
The entries denote no common position of a type.
-/
def Entry.Apart (type : RecordType) (entry other : Entry) : Prop :=
  ¬type.SamePosition entry.path other.path

instance (type : RecordType) (entry other : Entry) : Decidable (Entry.Apart type entry other) :=
  inferInstanceAs (Decidable (¬type.SamePosition entry.path other.path))

instance (type : RecordType) : Std.Symm (Entry.Apart type) where
  symm _ _ h := by
    rintro ⟨position, hother, hentry⟩
    exact h ⟨position, hentry, hother⟩

/-! ## Cells of an imported row -/

namespace Record.Holds

variable {type : RecordType} {applied : List Entry} {record : Record} {path : Path} {place : Place}
  {p : Primitive}

theorem samePosition_of_lastAt? (h : record.Holds type applied)
    (hplace : (Kind.nested type).locate? path = some (place, .primitive p)) {s : Scalar}
    (hlast : Entry.lastAt? type applied place = some s) :
    ∃ entry ∈ applied, entry.target? type = some (place, s) ∧
      type.SamePosition path entry.path := by
  obtain ⟨entry, hentry, htarget⟩ := Entry.exists_mem_of_lastAt? hlast
  refine ⟨entry, hentry, htarget, _, hplace, ?_⟩
  -- the scalar that stands at the place follows the kind that the path gives to it
  have hnested := h.conforms.nested
  rw [h.type_eq] at hnested
  have hconforms := hnested.get_of_locate? hplace
  rw [← h.scalar?_eq, Value.scalar?_eq_some_iff] at hlast
  rw [hlast, Value.Conforms] at hconforms
  rw [hconforms]
  exact (Entry.target?_eq_some_iff.1 htarget).1

theorem readText?_of_mem (h : record.Holds type applied)
    (hapart : applied.Pairwise (Entry.Apart type)) {entry : Entry} (hentry : entry ∈ applied)
    (htarget : (entry.target? type).isSome) (hsame : type.SamePosition path entry.path) :
    ∃ p s, type.at? entry.path = some (.primitive p) ∧ p.coerce? entry.value = some s ∧
      record.readText? path = some s.text := by
  obtain ⟨⟨place, s⟩, htarget⟩ := Option.isSome_iff_exists.1 htarget
  obtain ⟨hplace, hs⟩ := Entry.target?_eq_some_iff.1 htarget
  obtain ⟨position, hpath, hposition⟩ := hsame
  rw [hplace, Option.some.injEq] at hposition
  subst hposition
  -- no other entry has the place, so that the last one for it is the entry itself
  obtain ⟨last, hlast⟩ := Entry.exists_lastAt?_of_mem hentry htarget
  obtain ⟨other, hother, htarget', hsame⟩ := h.samePosition_of_lastAt? hplace hlast
  have hself : entry = other := by
    apply Classical.byContradiction
    intro hne
    exact hapart.forall hentry hother hne hsame
  rw [← hself, htarget, Option.some.injEq, Prod.mk.injEq] at htarget'
  rw [← htarget'.2] at hlast
  have hread := (h.read?_eq_scalar_iff hpath s).2 hlast
  refine ⟨s.primitive, s, RecordType.at?_of_locate? (Path.ofText_ne_nil _) hplace, hs, ?_⟩
  rw [readText?, hread]
  rfl

theorem readText?_eq_none_of_free (h : record.Holds type applied)
    (hkind : type.at? path = some (.primitive p))
    (hfree : ∀ entry ∈ applied, ¬type.SamePosition path entry.path) :
    record.readText? path = none := by
  rw [readText?, Option.map_eq_none_iff]
  apply Option.eq_none_iff_forall_ne_some.2
  intro found hread
  obtain ⟨place, hplace⟩ := RecordType.exists_locate?_of_at? hkind
  obtain ⟨kind, hfound, hset, hconforms⟩ := h.conforms.of_read? hread
  rw [h.type_eq, hkind, Option.some.injEq] at hfound
  subst hfound
  -- what stands at a primitive position is a scalar, which some entry wrote
  cases found with
  | unset => exact hset rfl
  | scalar s =>
    have hlast := (h.read?_eq_scalar_iff hplace s).1 hread
    obtain ⟨entry, hentry, _, hsame⟩ := h.samePosition_of_lastAt? hplace hlast
    exact hfree entry hentry hsame
  | nested record => simp [Value.Conforms] at hconforms
  | collection items => simp [Value.Conforms] at hconforms

theorem readText?_eq_none_of_at? (h : record.Holds type applied) (hnone : type.at? path = none) :
    record.readText? path = none := by
  rw [readText?, Option.map_eq_none_iff]
  apply Option.eq_none_iff_forall_ne_some.2
  intro found hread
  obtain ⟨kind, hkind, _⟩ := h.conforms.of_read? hread
  rw [h.type_eq, hnone] at hkind
  cases hkind

end Record.Holds

/-! ## Projections -/

namespace Store

def cell (row : Record) (header : String) : Option String :=
  row.readText? (Path.ofText header)

theorem project_eq {store : Store} {name : String} {table : Table}
    (h : store.table? name = some table) (headers : List String) :
    store.project name headers = .ok (table.rows.map fun row => headers.map (cell row)) := by
  rw [project, Store.table, h]
  rfl

/--
A row that is added appears behind the rows that a projection showed before, with one cell for each
header. Where an entry stands for the position of a header the cell has the text of its scalar,
taken as the kind of the position; it is empty at a primitive position that no entry stands for,
and at an undeclared one.
-/
theorem project_add {store larger : Store} {name : String} {table : Table} {entries : List Entry}
    (hfind : store.table? name = some table)
    (hapart : entries.Pairwise (Entry.Apart table.type))
    (hadd : store.add name entries = .ok larger) :
    ∃ (cells : List (String → Option String)) (new : String → Option String),
      (∀ headers : List String,
        store.project name headers = .ok (cells.map headers.map) ∧
          larger.project name headers = .ok (cells.map headers.map ++ [headers.map new])) ∧
      (∀ header, ∀ entry ∈ entries, table.type.SamePosition (Path.ofText header) entry.path →
        ∃ p s, table.type.at? entry.path = some (.primitive p) ∧
          p.coerce? entry.value = some s ∧ new header = some s.text) ∧
      (∀ header p, table.type.at? (Path.ofText header) = some (.primitive p) →
        (∀ entry ∈ entries, ¬table.type.SamePosition (Path.ofText header) entry.path) →
          new header = none) ∧
      ∀ header, table.type.at? (Path.ofText header) = none → new header = none := by
  obtain ⟨row, himport, hlarger⟩ := exists_row_of_add hfind hadd
  have hnil : ((Record.empty table.type).importEntries entries).2 = [] := by rw [himport]
  obtain ⟨htarget, hgapless⟩ := (Record.importEntries_eq_nil_iff table.type entries).1 hnil
  have hholds := Record.holds_importEntries_of_gapless htarget hgapless
  rw [himport] at hholds
  have hperm := Entry.inPathOrder_perm entries
  have hordered := hperm.symm.pairwise hapart (Std.Symm.symm _ _)
  refine ⟨table.rows.map cell, cell row, ?_, ?_, ?_, ?_⟩
  · intro headers
    rw [project_eq hfind, project_eq hlarger, Table.append, List.map_append, List.map_map]
    exact ⟨rfl, rfl⟩
  · intro header entry hentry hsame
    exact hholds.readText?_of_mem hordered (hperm.mem_iff.2 hentry)
      (htarget entry hentry) hsame
  · intro header p hkind hfree
    apply hholds.readText?_eq_none_of_free hkind
    intro entry hentry
    exact hfree entry (hperm.mem_iff.1 hentry)
  · intro header hnone
    exact hholds.readText?_eq_none_of_at? hnone

theorem project_add_bag :
    let schema : Schema :=
      ⟨"bag", [⟨"owner", "string", false⟩, ⟨"items", "Item", true⟩],
        [⟨"Item.name", "string", false⟩, ⟨"Item.count", "int", false⟩],
        [⟨"Item", ["name", "count"]⟩]⟩
    let item : RecordType := ⟨"Item", [⟨"name", .primitive .string⟩, ⟨"count", .primitive .int⟩]⟩
    let type : RecordType :=
      ⟨"bag", [⟨"owner", .primitive .string⟩, ⟨"items", .collection (.nested item)⟩]⟩
    let entries : List Entry := [⟨"items.00.name", .string "a"⟩, ⟨"items.+1.count", .string " 7 "⟩]
    let store := empty.run [Call.create schema]
    store.table? "bag" = some ⟨type, []⟩ ∧ entries.Pairwise (Entry.Apart type) ∧
      ∃ larger, store.add "bag" entries = .ok larger ∧
        ∃ (cells : List (String → Option String)) (new : String → Option String),
          (∀ headers : List String,
            store.project "bag" headers = .ok (cells.map headers.map) ∧
              larger.project "bag" headers = .ok (cells.map headers.map ++ [headers.map new])) ∧
          new " items . 1 . count" = some "7" ∧ new "items.1.name" = none ∧
          new "items.2.count" = none ∧ new "color" = none := by
  intro schema item type entries store
  have hfind : store.table? "bag" = some ⟨type, []⟩ := by with_unfolding_all rfl
  have hapart : entries.Pairwise (Entry.Apart type) := by decide
  have himport : ((Record.empty type).importEntries entries).2 = [] := by
    unfold Record.importEntries
    rw [Entry.inPathOrder_of_sorted (by decide)]
    decide
  have hadd := add_eq_appendRow hfind (Prod.ext rfl himport)
  obtain ⟨cells, new, hproject, hset, hfree, hundeclared⟩ := project_add hfind hapart hadd
  have hseven : new " items . 1 . count" = some "7" := by
    obtain ⟨p, s, hkind, hs, htext⟩ :=
      hset " items . 1 . count" ⟨"items.+1.count", .string " 7 "⟩ (by simp [entries]) (by decide)
    have hint : some (Kind.primitive p) = some (.primitive .int) := by
      rw [← hkind]
      decide
    rw [Option.some.injEq, Kind.primitive.injEq] at hint
    subst hint
    have hvalue : some s = some (.int 7) := by
      rw [← hs]
      decide
    rw [htext, Option.some.inj hvalue]
    decide
  refine ⟨hfind, hapart, _, hadd, cells, new, hproject, hseven, ?_, ?_, ?_⟩
  · exact hfree "items.1.name" .string (by decide) (by decide)
  · exact hfree "items.2.count" .int (by decide) (by decide)
  · exact hundeclared "color" (by decide)

end Store

end RowTree
