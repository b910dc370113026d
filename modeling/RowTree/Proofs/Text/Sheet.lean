import Mathlib.Data.List.Forall2
import RowTree.Proofs.Text.Blank
import RowTree.Text.Lines

/-!
This module contains which rows of cells stand in comma-separated text. Rows that are written with
blanks around their cells, with blank lines between them and with either line end are read back
(`Text.map_cells_of_isSheet`), and commas behind a line are empty cells behind its own
(`Text.map_cells_of_pads`).
-/

namespace RowTree

namespace Text

/-! ## Cells of a line -/

theorem exists_pieces_append (sep : Char) (cs : List Char) :
    ∃ front last, pieces sep cs = front ++ [last] ∧
      ∀ {more first rest}, pieces sep more = first :: rest →
        pieces sep (cs ++ more) = front ++ (last ++ first) :: rest := by
  induction cs with
  | nil => exact ⟨[], [], rfl, fun h => h⟩
  | cons c cs ih =>
    obtain ⟨front, last, hcs, happend⟩ := ih
    by_cases hc : c = sep
    · subst hc
      refine ⟨[] :: front, last, by rw [pieces_sep_cons, hcs]; rfl, fun h => ?_⟩
      rw [List.cons_append, pieces_sep_cons, happend h]
      rfl
    · cases front with
      | nil =>
        refine ⟨[], c :: last, by simp [pieces, hc, hcs], fun h => ?_⟩
        simp [pieces, hc, happend h]
      | cons piece front =>
        refine ⟨(c :: piece) :: front, last, by simp [pieces, hc, hcs], fun h => ?_⟩
        simp [pieces, hc, happend h]

theorem cells_ofList (cs : List Char) :
    cells (String.ofList cs) = (pieces ',' cs).map fun cell => String.ofList (trimList cell) := by
  rw [cells, String.toList_ofList]

theorem cells_ne_nil (line : String) : cells line ≠ [] := by
  rw [cells, ne_eq, List.map_eq_nil_iff]
  exact pieces_ne_nil ',' line.toList

theorem comma_not_mem_of_blank {cs : List Char} (h : ∀ c ∈ cs, isBlank c = true) : ',' ∉ cs := by
  intro hmem
  exact absurd (h ',' hmem) (by decide)

theorem cells_append_of_blank {back : List Char} (h : ∀ c ∈ back, isBlank c = true)
    (cs : List Char) : cells (String.ofList (cs ++ back)) = cells (String.ofList cs) := by
  obtain ⟨front, last, hcs, happend⟩ := exists_pieces_append ',' cs
  rw [cells_ofList, cells_ofList, hcs, happend (pieces_of_not_mem (comma_not_mem_of_blank h)),
    List.map_append, List.map_append, List.map_singleton, List.map_singleton,
    trimList_append_of_blank h]

theorem cells_append_comma (cs : List Char) :
    cells (String.ofList (cs ++ [','])) = cells (String.ofList cs) ++ [""] := by
  obtain ⟨front, last, hcs, happend⟩ := exists_pieces_append ',' cs
  rw [cells_ofList, cells_ofList, hcs, happend (pieces_sep_cons ',' []), List.append_nil]
  simp [pieces, trimList, trimFront, trimBack]

theorem cells_append_commas (cs : List Char) (n : Nat) :
    cells (String.ofList (cs ++ List.replicate n ',')) =
      cells (String.ofList cs) ++ List.replicate n "" := by
  induction n with
  | zero => simp
  | succ n ih =>
    rw [List.replicate_succ', List.replicate_succ', ← List.append_assoc, ← List.append_assoc,
      cells_append_comma, ih]

theorem cells_of_blank {cs : List Char} (h : ∀ c ∈ cs, isBlank c = true) :
    cells (String.ofList cs) = [""] := by
  rw [← List.nil_append cs, cells_append_of_blank h]
  rfl

/-! ## Rows of a text -/

def rowsOf (lines : List (List Char)) : List (List String) :=
  (lines.filter fun line => !line.all isBlank).map fun line => cells (String.ofList line)

theorem rowsOf_append (front back : List (List Char)) :
    rowsOf (front ++ back) = rowsOf front ++ rowsOf back := by
  simp [rowsOf]

theorem rowsOf_cons (line : List Char) (lines : List (List Char)) :
    rowsOf (line :: lines) = rowsOf [line] ++ rowsOf lines :=
  rowsOf_append [line] lines

theorem rowsOf_blank {line : List Char} (h : ∀ c ∈ line, isBlank c = true) :
    rowsOf [line] = [] := by
  simp [rowsOf, List.all_eq_true.2 h]

theorem rowsOf_row {line : List Char} (h : ¬∀ c ∈ line, isBlank c = true) :
    rowsOf [line] = [cells (String.ofList line)] := by
  rw [← List.all_eq_true, Bool.not_eq_true] at h
  simp [rowsOf, h]

theorem rowsOf_append_of_blank {back : List Char} (h : ∀ c ∈ back, isBlank c = true)
    (line : List Char) : rowsOf [line ++ back] = rowsOf [line] := by
  by_cases hline : ∀ c ∈ line, isBlank c = true
  · rw [rowsOf_blank hline, rowsOf_blank]
    exact fun c hc => (List.mem_append.1 hc).elim (hline c) (h c)
  · rw [rowsOf_row hline, rowsOf_row, cells_append_of_blank h]
    exact fun hall => hline fun c hc => hall c (List.mem_append_left _ hc)

theorem rowsOf_dropReturn (line : List Char) : rowsOf [dropReturn line] = rowsOf [line] := by
  unfold dropReturn
  split
  · next hlast =>
    conv => rhs; rw [← List.dropLast_append_getLast? '\r' hlast]
    rw [rowsOf_append_of_blank (List.all_eq_true.1 rfl)]
  · rfl

theorem rowsOf_map_dropReturn (lines : List (List Char)) :
    rowsOf (lines.map dropReturn) = rowsOf lines := by
  induction lines with
  | nil => rfl
  | cons line lines ih => rw [List.map_cons, rowsOf_cons, rowsOf_dropReturn, ih, ← rowsOf_cons]

theorem map_cells_filter (lines : List (List Char)) :
    ((lines.filter fun line => !line.all isBlank).map String.ofList).map cells = rowsOf lines :=
  List.map_map

theorem map_cells_dataLines (hasHeader : Bool) (text : String) :
    (dataLines hasHeader text).map cells =
      rowsOf ((pieces '\n' text.toList).drop (if hasHeader then 1 else 0)) := by
  obtain ⟨front, last, hpieces, _⟩ := exists_pieces_append '\n' text.toList
  have hlast : rowsOf (if last = [] then [] else [last]) = rowsOf [last] := by
    split
    · next hnil =>
      rw [hnil]
      rfl
    · rfl
  unfold dataLines lines
  dsimp only
  rw [hpieces, List.dropLast_concat, List.getLast?_concat, Option.getD_some, map_cells_filter]
  cases hasHeader with
  | false =>
    simp only [Bool.false_eq_true, if_false, List.drop_zero]
    rw [rowsOf_append, rowsOf_append, rowsOf_map_dropReturn, hlast]
  | true =>
    simp only [if_true]
    cases front with
    | nil => split <;> rfl
    | cons header front =>
      rw [List.map_cons, List.cons_append, List.cons_append, List.drop_succ_cons,
        List.drop_succ_cons, List.drop_zero, List.drop_zero, rowsOf_append, rowsOf_append,
        rowsOf_map_dropReturn, hlast]

/-! ## Written rows -/

/--
A text that can stand between commas: it is stripped and holds neither a comma nor a line feed.
-/
structure IsCell (cell : String) : Prop where
  comma : ',' ∉ cell.toList
  lineFeed : '\n' ∉ cell.toList
  trim : trim cell = cell

instance (cell : String) : Decidable (IsCell cell) :=
  decidable_of_iff (',' ∉ cell.toList ∧ '\n' ∉ cell.toList ∧ trim cell = cell)
    ⟨fun ⟨comma, lineFeed, trim⟩ => ⟨comma, lineFeed, trim⟩,
      fun ⟨comma, lineFeed, trim⟩ => ⟨comma, lineFeed, trim⟩⟩

/--
Blanks that do not end a line, such as spaces and tabs.
-/
def IsGap (cs : List Char) : Prop :=
  ∀ c ∈ cs, isBlank c = true ∧ c ≠ '\n'

instance (cs : List Char) : Decidable (IsGap cs) :=
  List.decidableBAll (fun c => isBlank c = true ∧ c ≠ '\n') cs

inductive WritesCell (cell : String) : List Char → Prop where
  | mk {front back : List Char} (hfront : IsGap front) (hback : IsGap back) :
      WritesCell cell (front ++ cell.toList ++ back)

inductive WritesRow (cells : List String) : List Char → Prop where
  | mk {texts : List (List Char)} (h : List.Forall₂ WritesCell cells texts) :
      WritesRow cells (join ',' texts)

inductive IsLineEnd : List Char → Prop where
  | lineFeed : IsLineEnd ['\n']
  | carriageReturn : IsLineEnd ['\r', '\n']

/--
The rows, each on a line of its own, with any number of blank lines in front of each and at the
end. The last line may go without its end.
-/
inductive WritesRows : List (List String) → List Char → Prop where
  | nil {line : List Char} (hline : IsGap line) : WritesRows [] line
  | last {cells : List String} {line : List Char} (hline : WritesRow cells line) :
      WritesRows [cells] line
  | blank {rows : List (List String)} {line ending rest : List Char} (hline : IsGap line)
      (hending : IsLineEnd ending) (hrest : WritesRows rows rest) :
      WritesRows rows (line ++ ending ++ rest)
  | row {cells : List String} {rows : List (List String)} {line ending rest : List Char}
      (hline : WritesRow cells line) (hending : IsLineEnd ending) (hrest : WritesRows rows rest) :
      WritesRows (cells :: rows) (line ++ ending ++ rest)

/--
The text of the rows, below any line at all if there is a header.
-/
def IsSheet (hasHeader : Bool) (rows : List (List String)) (text : String) : Prop :=
  if hasHeader then
    ∃ header ending body, '\n' ∉ header ∧ IsLineEnd ending ∧ WritesRows rows body ∧
      text.toList = header ++ ending ++ body
  else
    WritesRows rows text.toList

theorem pieces_append_ending {line ending : List Char} (hline : '\n' ∉ line)
    (hending : IsLineEnd ending) (rest : List Char) :
    ∃ back, (∀ c ∈ back, isBlank c = true) ∧
      pieces '\n' (line ++ ending ++ rest) = (line ++ back) :: pieces '\n' rest := by
  cases hending with
  | lineFeed =>
    refine ⟨[], by simp, ?_⟩
    rw [List.append_nil, List.append_assoc]
    exact pieces_append_sep hline rest
  | carriageReturn =>
    refine ⟨['\r'], List.all_eq_true.1 rfl, ?_⟩
    rw [← pieces_append_sep (by simpa using hline) rest]
    simp

theorem rowsOf_pieces_append {line ending : List Char} (hline : '\n' ∉ line)
    (hending : IsLineEnd ending) (rest : List Char) :
    rowsOf (pieces '\n' (line ++ ending ++ rest)) = rowsOf [line] ++ rowsOf (pieces '\n' rest) := by
  obtain ⟨back, hback, hpieces⟩ := pieces_append_ending hline hending rest
  rw [hpieces, rowsOf_cons, rowsOf_append_of_blank hback]

theorem IsGap.lineFeed_not_mem {cs : List Char} (h : IsGap cs) : '\n' ∉ cs :=
  fun hmem => (h _ hmem).2 rfl

section

variable {cell : String} {row : List String} {text line : List Char}

theorem WritesCell.lineFeed_not_mem (h : WritesCell cell text) (hcell : IsCell cell) :
    '\n' ∉ text := by
  obtain ⟨hfront, hback⟩ := h
  simp [hfront.lineFeed_not_mem, hcell.lineFeed, hback.lineFeed_not_mem]

theorem WritesCell.comma_not_mem (h : WritesCell cell text) (hcell : IsCell cell) :
    ',' ∉ text := by
  obtain ⟨hfront, hback⟩ := h
  simp [comma_not_mem_of_blank fun c hc => (hfront c hc).1, hcell.comma,
    comma_not_mem_of_blank fun c hc => (hback c hc).1]

theorem WritesCell.ofList_trimList (h : WritesCell cell text) (hcell : IsCell cell) :
    String.ofList (trimList text) = cell := by
  obtain ⟨hfront, hback⟩ := h
  rw [trimList_surrounded (fun c hc => (hfront c hc).1) fun c hc => (hback c hc).1]
  exact hcell.trim

theorem exists_of_mem_texts {texts : List (List Char)} (h : List.Forall₂ WritesCell row texts)
    (hrow : ∀ cell ∈ row, IsCell cell) (htext : text ∈ texts) :
    ∃ cell, IsCell cell ∧ WritesCell cell text := by
  induction h with
  | nil => cases htext
  | @cons cell first row texts hcell _ ih =>
    obtain ⟨hfirst, hrest⟩ := List.forall_mem_cons.1 hrow
    rcases List.mem_cons.1 htext with rfl | htext
    · exact ⟨cell, hfirst, hcell⟩
    · exact ih hrest htext

theorem not_mem_join {c sep : Char} (hsep : c ≠ sep) {ps : List (List Char)}
    (h : ∀ piece ∈ ps, c ∉ piece) : c ∉ join sep ps := by
  induction ps with
  | nil => simp [join]
  | cons piece rest ih =>
    obtain ⟨hpiece, hrest⟩ := List.forall_mem_cons.1 h
    cases rest with
    | nil => exact hpiece
    | cons next rest =>
      rw [join, List.mem_append, List.mem_cons]
      rintro (hmem | rfl | hmem)
      · exact hpiece hmem
      · exact hsep rfl
      · exact ih hrest hmem

theorem WritesRow.lineFeed_not_mem (h : WritesRow row line) (hrow : ∀ cell ∈ row, IsCell cell) :
    '\n' ∉ line := by
  obtain ⟨htexts⟩ := h
  refine not_mem_join (by decide) fun text htext => ?_
  obtain ⟨cell, hcell, hwrites⟩ := exists_of_mem_texts htexts hrow htext
  exact hwrites.lineFeed_not_mem hcell

theorem WritesRow.cells_eq (h : WritesRow row line) (hrow : ∀ cell ∈ row, IsCell cell)
    (hne : row ≠ []) : cells (String.ofList line) = row := by
  obtain ⟨htexts⟩ := h
  rw [cells_ofList, pieces_join]
  · clear hne
    induction htexts with
    | nil => rfl
    | cons hcell _ ih =>
      obtain ⟨hfirst, hrest⟩ := List.forall_mem_cons.1 hrow
      rw [List.map_cons, hcell.ofList_trimList hfirst, ih hrest]
  · rintro rfl
    cases htexts
    exact hne rfl
  · intro text htext
    obtain ⟨cell, hcell, hwrites⟩ := exists_of_mem_texts htexts hrow htext
    exact hwrites.comma_not_mem hcell

theorem WritesRow.rowsOf_eq (h : WritesRow row line) (hrow : ∀ cell ∈ row, IsCell cell)
    (hne : row ≠ []) (hempty : row ≠ [""]) : rowsOf [line] = [row] := by
  rw [rowsOf_row, h.cells_eq hrow hne]
  intro hblank
  have hcells := h.cells_eq hrow hne
  rw [cells_of_blank hblank] at hcells
  exact hempty hcells.symm

/--
Rows that can be told from blank lines, of texts that can be cells.
-/
def AreRows (rows : List (List String)) : Prop :=
  ∀ row ∈ rows, (∀ cell ∈ row, IsCell cell) ∧ row ≠ [] ∧ row ≠ [""]

theorem WritesRows.rowsOf_eq {rows : List (List String)} {text : List Char}
    (h : WritesRows rows text) (hrows : AreRows rows) : rowsOf (pieces '\n' text) = rows := by
  induction h with
  | nil hline =>
    rw [pieces_of_not_mem hline.lineFeed_not_mem, rowsOf_blank fun c hc => (hline c hc).1]
  | last hline =>
    obtain ⟨⟨hcells, hne, hempty⟩, _⟩ := List.forall_mem_cons.1 hrows
    rw [pieces_of_not_mem (hline.lineFeed_not_mem hcells), hline.rowsOf_eq hcells hne hempty]
  | blank hline hending _ ih =>
    rw [rowsOf_pieces_append hline.lineFeed_not_mem hending,
      rowsOf_blank fun c hc => (hline c hc).1, ih hrows]
    rfl
  | row hline hending _ ih =>
    obtain ⟨⟨hcells, hne, hempty⟩, hrest⟩ := List.forall_mem_cons.1 hrows
    rw [rowsOf_pieces_append (hline.lineFeed_not_mem hcells) hending,
      hline.rowsOf_eq hcells hne hempty, ih hrest]
    rfl

theorem map_cells_of_isSheet {hasHeader : Bool} {rows : List (List String)} {text : String}
    (h : IsSheet hasHeader rows text) (hrows : AreRows rows) :
    (dataLines hasHeader text).map cells = rows := by
  rw [map_cells_dataLines]
  cases hasHeader with
  | false => exact WritesRows.rowsOf_eq h hrows
  | true =>
    obtain ⟨header, ending, body, hheader, hending, hbody, htext⟩ := h
    obtain ⟨back, _, hpieces⟩ := pieces_append_ending hheader hending body
    rw [htext, hpieces]
    exact hbody.rowsOf_eq hrows

end

/-! ## Commas behind lines -/

/--
The line with `n` commas behind what stands on it. Blanks at the end of the line, such as the
carriage return of its end, stand behind them.
-/
inductive PadsLine (n : Nat) : List Char → List Char → Prop where
  | mk {front back : List Char} (hback : ∀ c ∈ back, isBlank c = true) :
      PadsLine n (front ++ back) (front ++ List.replicate n ',' ++ back)

theorem padsLine_append (n : Nat) (line : List Char) :
    PadsLine n line (line ++ List.replicate n ',') := by
  have h : PadsLine n (line ++ []) (line ++ List.replicate n ',' ++ []) := .mk nofun
  rwa [List.append_nil, List.append_nil] at h

/--
The lines with commas behind them, as many as `counts` says for each line that is not blank.
-/
inductive PadsLines : List Nat → List (List Char) → List (List Char) → Prop where
  | nil : PadsLines [] [] []
  | blank {counts : List Nat} {line : List Char} {lines padded : List (List Char)}
      (hline : ∀ c ∈ line, isBlank c = true) (h : PadsLines counts lines padded) :
      PadsLines counts (line :: lines) (line :: padded)
  | row {n : Nat} {counts : List Nat} {line paddedLine : List Char}
      {lines padded : List (List Char)} (hline : ¬∀ c ∈ line, isBlank c = true)
      (hpads : PadsLine n line paddedLine) (h : PadsLines counts lines padded) :
      PadsLines (n :: counts) (line :: lines) (paddedLine :: padded)

/--
The text with commas behind the lines below its header.
-/
def Pads (counts : List Nat) (text padded : String) : Prop :=
  ∃ header lines paddedLines, '\n' ∉ header ∧ (∀ line ∈ lines, '\n' ∉ line) ∧
    PadsLines counts lines paddedLines ∧ text.toList = join '\n' (header :: lines) ∧
      padded.toList = join '\n' (header :: paddedLines)

theorem PadsLine.lineFeed_not_mem {n : Nat} {line padded : List Char} (h : PadsLine n line padded)
    (hline : '\n' ∉ line) : '\n' ∉ padded := by
  obtain ⟨_⟩ := h
  simp_all

theorem PadsLine.rowsOf_eq {n : Nat} {line padded : List Char} (h : PadsLine n line padded)
    (hline : ¬∀ c ∈ line, isBlank c = true) :
    rowsOf [padded] = [cells (String.ofList line) ++ List.replicate n ""] := by
  obtain ⟨hback⟩ := h
  rw [rowsOf_append_of_blank hback, rowsOf_row, cells_append_commas, cells_append_of_blank hback]
  intro hall
  apply hline
  intro c hc
  rcases List.mem_append.1 hc with hc | hc
  · exact hall c (List.mem_append_left _ hc)
  · exact hback c hc

def padRows (counts : List Nat) (rows : List (List String)) : List (List String) :=
  List.zipWith (fun n row => row ++ List.replicate n "") counts rows

theorem PadsLines.rowsOf_eq {counts : List Nat} {lines padded : List (List Char)}
    (h : PadsLines counts lines padded) :
    counts.length = (rowsOf lines).length ∧ rowsOf padded = padRows counts (rowsOf lines) := by
  induction h with
  | nil => exact ⟨rfl, rfl⟩
  | @blank counts line lines padded hline _ ih =>
    rw [rowsOf_cons, rowsOf_cons line padded, rowsOf_blank hline]
    exact ih
  | @row n counts line paddedLine lines padded hline hpads _ ih =>
    rw [rowsOf_cons, rowsOf_cons paddedLine, rowsOf_row hline, hpads.rowsOf_eq hline, ih.2]
    exact ⟨congrArg (· + 1) ih.1, rfl⟩

theorem PadsLines.lineFeed_not_mem {counts : List Nat} {lines padded : List (List Char)}
    (h : PadsLines counts lines padded) (hlines : ∀ line ∈ lines, '\n' ∉ line) :
    ∀ line ∈ padded, '\n' ∉ line := by
  induction h with
  | nil => exact hlines
  | blank _ _ ih =>
    obtain ⟨hline, hrest⟩ := List.forall_mem_cons.1 hlines
    exact List.forall_mem_cons.2 ⟨hline, ih hrest⟩
  | row _ hpads _ ih =>
    obtain ⟨hline, hrest⟩ := List.forall_mem_cons.1 hlines
    exact List.forall_mem_cons.2 ⟨hpads.lineFeed_not_mem hline, ih hrest⟩

theorem map_cells_of_toList_eq {header : List Char} {lines : List (List Char)} {text : String}
    (hheader : '\n' ∉ header) (hlines : ∀ line ∈ lines, '\n' ∉ line)
    (h : text.toList = join '\n' (header :: lines)) :
    (dataLines true text).map cells = rowsOf lines := by
  rw [map_cells_dataLines, h, pieces_join (by simp) (List.forall_mem_cons.2 ⟨hheader, hlines⟩)]
  rfl

/--
Commas behind the lines of a text are empty cells behind those of its rows.
-/
theorem map_cells_of_pads {counts : List Nat} {text padded : String} (h : Pads counts text padded) :
    counts.length = (dataLines true text).length ∧
      (dataLines true padded).map cells = padRows counts ((dataLines true text).map cells) := by
  obtain ⟨header, lines, paddedLines, hheader, hlines, hpads, htext, hpadded⟩ := h
  obtain ⟨hlength, hrows⟩ := hpads.rowsOf_eq
  have hcells := map_cells_of_toList_eq hheader hlines htext
  rw [map_cells_of_toList_eq hheader (hpads.lineFeed_not_mem hlines) hpadded, hcells]
  refine ⟨?_, hrows⟩
  rw [hlength, ← hcells, List.length_map]

end Text

end RowTree
