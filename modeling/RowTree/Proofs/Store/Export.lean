import RowTree.Proofs.Scalar.Text
import RowTree.Proofs.Store.Projection
import RowTree.Proofs.Store.Provenance

/-!
This module contains the way of a stored row through a projection and back. The line of a
projection is read as one text for each filled cell (`Store.lineEntries`), and these texts can be
added as a row. `Store.add_projected` says what the new row holds: the scalars of the old one, but
for the fractions of seconds, which no text shows.
-/

namespace RowTree

/-! ## Import of changed scalars -/

namespace Record.Transcribed

variable {type : RecordType} {record : Record} {change : Scalar → Scalar} {entries : List Entry}

theorem of_mem_iff (ht : record.Transcribed type change entries) {others : List Entry}
    (hmem : ∀ entry, entry ∈ others ↔ entry ∈ entries) :
    record.Transcribed type change others where
  exists_scalar := by
    intro entry hentry
    exact ht.exists_scalar entry ((hmem entry).1 hentry)
  exists_entry := by
    intro place s hget
    obtain ⟨entry, hentry, htarget⟩ := ht.exists_entry place s hget
    exact ⟨entry, (hmem entry).2 hentry, htarget⟩

/--
Entries that write the scalars of a record after a change make a record that differs in this
change alone.
-/
theorem exists_importEntries (ht : record.Transcribed type change entries)
    (h : record.Written type) :
    ∃ back, (Record.empty type).importEntries entries = (back, []) ∧ back.Written type ∧
      ∀ place,
        ((Value.nested back).get place).count = ((Value.nested record).get place).count ∧
          ((Value.nested back).get place).scalar? =
            ((Value.nested record).get place).scalar?.map change := by
  have htarget : ∀ entry ∈ entries, (entry.target? type).isSome := by
    intro entry hentry
    obtain ⟨place, s, _, htarget⟩ := ht.exists_scalar entry hentry
    rw [htarget]
    rfl
  have hgapless : Entry.Gapless type entries := by
    intro before i
    rw [ht.exists_passes_iff h, ht.exists_passes_iff h]
    omega
  have hnil := (importEntries_eq_nil_iff type entries).2 ⟨htarget, hgapless⟩
  have himport : (Record.empty type).importEntries entries =
      (((Record.empty type).importEntries entries).1, []) := Prod.ext rfl hnil
  obtain ⟨hwritten, hholds⟩ := written_of_importEntries himport
  have hordered := ht.of_mem_iff fun _ => (Entry.inPathOrder_perm entries).mem_iff
  refine ⟨_, himport, hwritten, ?_⟩
  intro place
  constructor
  · apply eq_of_forall_lt_iff
    intro i
    rw [hholds.lt_count_iff, hordered.exists_passes_iff h]
  · rw [hholds.scalar?_eq, hordered.lastAt?_eq]

end Record.Transcribed

namespace Record.Written

variable {type : RecordType} {record back : Record} {change : Scalar → Scalar}

theorem forall_scalar_iff (h : record.Written type) (htype : type.Addressable)
    {P : Scalar → Prop} :
    (∀ place s, (Value.nested record).get place = .scalar s → P s) ↔
      ∀ leaf ∈ record.leaves, P leaf.2 := by
  constructor
  · rintro hall ⟨path, s⟩ hleaf
    rw [← Value.leaves] at hleaf
    obtain ⟨⟨place, _, hget⟩, _⟩ :=
      Value.locate?_of_mem_leaves h.conforms htype h.indexable hleaf
    exact hall place s hget
  · intro hall place s hget
    obtain ⟨path, hleaf, _⟩ := Value.exists_mem_leaves h.conforms htype h.indexable hget
    rw [Value.leaves] at hleaf
    exact hall (path, s) hleaf

theorem eq_iff_of_changed (h : record.Written type) (h' : back.Written type)
    (hchanged : ∀ place,
      ((Value.nested back).get place).count = ((Value.nested record).get place).count ∧
        ((Value.nested back).get place).scalar? =
          ((Value.nested record).get place).scalar?.map change) :
    back = record ↔
      ∀ place s, (Value.nested record).get place = .scalar s → change s = s := by
  constructor
  · rintro rfl place s hget
    have hscalar := (hchanged place).2
    rw [hget] at hscalar
    exact (Option.some.inj hscalar).symm
  · intro hsame
    apply h'.eq_of_alike h
    intro place
    refine ⟨(hchanged place).1, ?_⟩
    rw [(hchanged place).2]
    cases hscalar : ((Value.nested record).get place).scalar? with
    | none => rfl
    | some s => rw [Option.map_some, hsame place s (Value.scalar?_eq_some_iff.1 hscalar)]

end Record.Written

/-! ## The line of a projection as entries -/

namespace Store

/--
The entries that the line of a projection is read as: a text for each filled cell, under its
header.
-/
def lineEntries (headers : List String) (line : List (Option String)) : List Entry :=
  (headers.zip line).filterMap fun (header, shown) =>
    shown.map fun text => ⟨header, .string text⟩

theorem mem_lineEntries_iff {headers : List String} {row : Record} {entry : Entry} :
    entry ∈ lineEntries headers (headers.map (cell row)) ↔
      ∃ header ∈ headers, ∃ text, cell row header = some text ∧ entry = ⟨header, .string text⟩ := by
  unfold lineEntries
  rw [← List.map_prod_left_eq_zip, List.mem_filterMap]
  simp only [List.mem_map, Prod.exists, Prod.mk.injEq, Option.map_eq_some_iff]
  grind

section Row

variable {type : RecordType} {row : Record}

theorem cell_eq_some_iff (h : row.Written type) {header text : String} {place : Place}
    {p : Primitive}
    (hplace : (Kind.nested type).locate? (Path.ofText header) = some (place, .primitive p)) :
    cell row header = some text ↔
      ∃ s, (Value.nested row).get place = .scalar s ∧ s.primitive = p ∧ s.text = text := by
  have hread : ∀ found, row.read? (Path.ofText header) = some found ↔
      (Value.nested row).get place = found ∧ found ≠ .unset := by
    intro found
    rw [Record.read?_eq _ (Path.ofText_ne_nil header),
      Value.read?_eq_some_iff h.conforms hplace]
  have hconforms := h.conforms.get_of_locate? hplace
  unfold cell Record.readText?
  simp only [Option.map_eq_some_iff, hread]
  constructor
  · rintro ⟨found, ⟨hget, hset⟩, rfl⟩
    rw [hget] at hconforms
    cases found with
    | unset => exact absurd rfl hset
    | scalar s =>
      rw [Value.Conforms, Kind.primitive.injEq] at hconforms
      exact ⟨s, hget, hconforms.symm, rfl⟩
    | nested record => simp [Value.Conforms] at hconforms
    | collection items => simp [Value.Conforms] at hconforms
  · rintro ⟨s, hget, _, rfl⟩
    exact ⟨.scalar s, ⟨hget, by simp⟩, rfl⟩

/--
The line of a row writes the scalars of the row without the fractions of their seconds, if the
headers lead to primitive positions and name all leaves.
-/
theorem transcribed_lineEntries (h : row.Written type) (htype : type.Addressable)
    (hexact : ∀ leaf ∈ row.leaves, leaf.2.primitive.IsExact) {headers : List String}
    (hprimitive : ∀ header ∈ headers, ∃ p, type.at? (Path.ofText header) = some (.primitive p))
    (hall : ∀ entry ∈ row.toEntries, entry.key ∈ headers) :
    row.Transcribed type Scalar.wholeSecond (lineEntries headers (headers.map (cell row))) := by
  have hscalars := (h.forall_scalar_iff htype (P := fun s => s.primitive.IsExact)).2 hexact
  have htarget : ∀ header place s,
      (Kind.nested type).locate? (Path.ofText header) = some (place, .primitive s.primitive) →
        (Value.nested row).get place = .scalar s →
          (Entry.mk header (.string s.text)).target? type = some (place, s.wholeSecond) := by
    intro header place s hplace hget
    rw [Entry.target?_eq_some_iff, Scalar.primitive_wholeSecond]
    exact ⟨hplace, Scalar.coerce?_text (hscalars place s hget)⟩
  constructor
  · intro entry hentry
    obtain ⟨header, hheader, text, hcell, rfl⟩ := mem_lineEntries_iff.1 hentry
    obtain ⟨p, hkind⟩ := hprimitive header hheader
    obtain ⟨place, hplace⟩ := RecordType.exists_locate?_of_at? hkind
    obtain ⟨s, hget, rfl, rfl⟩ := (cell_eq_some_iff h hplace).1 hcell
    exact ⟨place, s, hget, htarget header place s hplace hget⟩
  · intro place s hget
    obtain ⟨entry, hentry, htarget'⟩ := h.exists_mem_of_get htype hget
    have hplace := (Entry.target?_eq_some_iff.1 htarget').1
    refine ⟨⟨entry.key, .string s.text⟩, mem_lineEntries_iff.2 ?_,
      htarget entry.key place s hplace hget⟩
    exact ⟨entry.key, hall entry hentry, s.text,
      (cell_eq_some_iff h hplace).2 ⟨s, hget, rfl, rfl⟩, rfl⟩

end Row

theorem written_of_mem_rows (calls : List Call) {name : String} {table : Table}
    (hfind : (empty.run calls).table? name = some table) {row : Record} (hrow : row ∈ table.rows) :
    row.Written table.type := by
  have himports := (MadeBy.empty.run calls).imports_eq name table hfind
  have hmem : (row, []) ∈ table.rows.map fun row => (row, ([] : List EntryError)) :=
    List.mem_map_of_mem hrow
  rw [← himports, List.mem_map] at hmem
  obtain ⟨entries, _, himport⟩ := hmem
  exact (Record.written_of_importEntries himport).1

/-! ## There and back -/

/--
A scalar whose kind does not round comes back from its text without the fraction of its second, and
the text says that much: scalars of one kind share it exactly if they differ in such a fraction at
most. So a stored row that is shown under headers for all its leaves is taken back as a row with
the same scalars but for these fractions. It is the same row exactly if it has none.
-/
theorem add_projected {p : Primitive} {value s : Scalar} (hp : p.IsExact)
    (hs : p.coerce? value = some s) :
    p.coerce? (.string s.text) = some s.wholeSecond ∧
      (p.coerce? (.string s.text) = some s ↔ s.wholeSecond = s) ∧
      (∀ other t, p.coerce? other = some t → (s.text = t.text ↔ s.wholeSecond = t.wholeSecond)) ∧
      ∀ (calls : List Call) (name : String) (table : Table) (i : Nat) (row : Record)
        (headers : List String), (empty.run calls).table? name = some table →
        table.rows[i]? = some row → table.type.Addressable →
        (∀ leaf ∈ row.leaves, leaf.2.primitive.IsExact) →
        (∀ header ∈ headers, ∃ kind, table.type.at? (Path.ofText header) = some (.primitive kind)) →
        (∀ entry ∈ row.toEntries, entry.key ∈ headers) →
        ∃ lines line back larger,
          (empty.run calls).project name headers = .ok lines ∧ lines[i]? = some line ∧
            (empty.run calls).add name (lineEntries headers line) = .ok larger ∧
            larger.table? name = some (table.append back) ∧
            (∀ leaf ∈ row.leaves, back.read? leaf.1 = some (.scalar leaf.2.wholeSecond)) ∧
            (back = row ↔ ∀ leaf ∈ row.leaves, leaf.2.wholeSecond = leaf.2) := by
  obtain rfl := Primitive.primitive_of_coerce? hs
  have htext := Scalar.coerce?_text hp
  refine ⟨htext, by rw [htext, Option.some.injEq], ?_, ?_⟩
  · intro other t ht
    exact Scalar.text_eq_text_iff hp (Primitive.primitive_of_coerce? ht).symm
  · intro calls name table i row headers hfind hrow htype hexact hprimitive hall
    have h := written_of_mem_rows calls hfind (List.mem_of_getElem? hrow)
    obtain ⟨back, himport, hback, hchanged⟩ :=
      (transcribed_lineEntries h htype hexact hprimitive hall).exists_importEntries h
    refine ⟨_, _, back, _, project_eq hfind headers, ?_, add_eq_appendRow hfind himport, ?_, ?_, ?_⟩
    · rw [List.getElem?_map, hrow]
      rfl
    · rw [table?_appendRow, if_pos rfl, hfind]
      rfl
    · rintro ⟨path, s⟩ hleaf
      rw [← Value.leaves] at hleaf
      obtain ⟨⟨place, hplace, hget⟩, _⟩ :=
        Value.locate?_of_mem_leaves h.conforms htype h.indexable hleaf
      rw [Record.read?_eq _ (Record.Written.path_ne_nil hplace),
        Value.read?_eq_some_iff hback.conforms hplace, ← Value.scalar?_eq_some_iff,
        (hchanged place).2, hget]
      exact ⟨rfl, by simp⟩
    · rw [h.eq_iff_of_changed hback hchanged]
      exact h.forall_scalar_iff htype

theorem add_projected_log :
    let schema : Schema := ⟨"log", [⟨"at", "datetime", false⟩, ⟨"count", "uint", false⟩], [], []⟩
    let type : RecordType := ⟨"log", [⟨"at", .primitive .datetime⟩, ⟨"count", .primitive .uint⟩]⟩
    let moment : Timestamp := ⟨⟨2021, 3, 4, by decide, by decide, by decide⟩,
      ⟨5, 6, 7, 250000000, by decide, by decide, by decide, by decide⟩⟩
    let entries : List Entry :=
      [⟨"at", .string "2021-03-04 05:06:07.25"⟩, ⟨"count", .string " 7 "⟩]
    let row : Record := ⟨type, [.scalar (.datetime moment), .scalar (.uint 7)]⟩
    let store := empty.run [Call.create schema, .add "log" entries]
    Primitive.datetime.coerce? (.string "2021-03-04 05:06:07.25") = some (.datetime moment) ∧
      Primitive.datetime.coerce? (.string moment.toText) = some (.datetime moment.wholeSecond) ∧
      moment.toText = moment.wholeSecond.toText ∧
      ∃ lines line back larger,
        store.project "log" ["count", "at"] = .ok lines ∧ lines[0]? = some line ∧
          store.add "log" (lineEntries ["count", "at"] line) = .ok larger ∧
          larger.table? "log" = some ⟨type, [row, back]⟩ ∧
          back.read? ["count"] = some (.scalar (.uint 7)) ∧
          back.read? ["at"] = some (.scalar (.datetime moment.wholeSecond)) ∧ back ≠ row := by
  intro schema type moment entries row store
  have hcreated : (empty.apply (.create schema)).table? "log" = some ⟨type, []⟩ := by
    with_unfolding_all rfl
  have himport : (Record.empty type).importEntries entries = (row, []) := by
    unfold Record.importEntries
    rw [Entry.inPathOrder_of_sorted (by decide)]
    rfl
  have hadded : (empty.apply (.create schema)).apply (.add "log" entries) =
      (empty.apply (.create schema)).appendRow "log" row := by
    rw [apply, attempt, add_eq_appendRow hcreated himport]
    rfl
  have hfind : store.table? "log" = some ⟨type, [row]⟩ := by
    simp only [store, run, List.foldl_cons, List.foldl_nil, hadded]
    rw [table?_appendRow, if_pos rfl, hcreated]
    rfl
  have htype : type.Addressable := by
    simp [type, RecordType.Addressable, Field.AllAddressable, Field.Addressable,
      Kind.Addressable]
    decide
  have hleaves : row.leaves = [(["at"], .datetime moment), (["count"], .uint 7)] := by rfl
  have hexact : ∀ leaf ∈ row.leaves, leaf.2.primitive.IsExact := by
    rw [hleaves]
    decide
  have hprimitive : ∀ header ∈ ["count", "at"],
      ∃ p, type.at? (Path.ofText header) = some (.primitive p) := by
    simp only [List.forall_mem_cons]
    exact ⟨⟨.uint, by decide⟩, ⟨.datetime, by decide⟩, by simp⟩
  have hall : ∀ entry ∈ row.toEntries, entry.key ∈ ["count", "at"] := by
    unfold Record.toEntries
    rw [hleaves]
    decide
  have hmoment : Primitive.datetime.coerce? (.string "2021-03-04 05:06:07.25") =
      some (.datetime moment) := by decide
  obtain ⟨htext, _, hequal, hrows⟩ := add_projected (by decide) hmoment
  obtain ⟨lines, line, back, larger, hproject, hline, hadd, hlarger, hread, hsame⟩ :=
    hrows _ "log" _ 0 row ["count", "at"] hfind rfl htype hexact hprimitive hall
  refine ⟨hmoment, htext, (hequal (.string moment.toText) _ htext).2 rfl, lines, line, back, larger,
    hproject, hline, hadd, hlarger, ?_, ?_, ?_⟩
  · exact hread (["count"], .uint 7) (by rw [hleaves]; simp)
  · exact hread (["at"], .datetime moment) (by rw [hleaves]; simp)
  · intro heq
    have hwhole := hsame.1 heq (["at"], .datetime moment) (by rw [hleaves]; simp)
    exact absurd hwhole (by decide)

end Store

end RowTree
