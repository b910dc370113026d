import RowTree.Project.Layout
import RowTree.Project.Manifest
import RowTree.Project.Rules
import RowTree.Proofs.Text.Sheet

/-!
This module contains that declarations come back from comma-separated text. A layout and a list of
rules stand below a header, a manifest has none; blanks around cells, blank lines and the kind of
line end make no difference (`declarations_of_isSheet`).
-/

namespace RowTree

/-! ## Cells of declarations -/

def LayoutRow.cells (row : LayoutRow) : List String :=
  row.kind :: row.name :: row.typeName :: row.extra

def RuleDecl.cells (decl : RuleDecl) : List String :=
  decl.kind :: decl.args

def ManifestEntry.cells (entry : ManifestEntry) : List String :=
  [entry.name, entry.index, entry.indexField]

theorem LayoutRow.ofCells_cells (row : LayoutRow) : ofCells row.cells = row := rfl

theorem RuleDecl.ofCells_cells (decl : RuleDecl) : ofCells decl.cells = decl := rfl

theorem ManifestEntry.ofCells_cells (entry : ManifestEntry) : ofCells entry.cells = entry := rfl

theorem RuleDecl.cells_ne_singleton_iff {decl : RuleDecl} :
    decl.cells ≠ [""] ↔ decl.kind ≠ "" ∨ decl.args ≠ [] := by
  rw [cells, ne_eq, List.cons.injEq, not_and_or]

/-! ## Declarations of a text -/

section

variable {α : Type} {ofCells : List String → α} {toCells : α → List String} {items : List α}
  {hasHeader : Bool} {text : String}

theorem map_ofCells_of_isSheet (hback : ∀ item, ofCells (toCells item) = item)
    (hrows : Text.AreRows (items.map toCells))
    (h : Text.IsSheet hasHeader (items.map toCells) text) :
    ((Text.dataLines hasHeader text).map fun line => ofCells (Text.cells line)) = items := by
  calc
    _ = ((Text.dataLines hasHeader text).map Text.cells).map ofCells := List.map_map.symm
    _ = (items.map toCells).map ofCells := by rw [Text.map_cells_of_isSheet h hrows]
    _ = items := by
      rw [List.map_map]
      exact List.map_id'' hback items

theorem areRows_map (hcells : ∀ item ∈ items, ∀ cell ∈ toCells item, Text.IsCell cell)
    (hne : ∀ item ∈ items, toCells item ≠ [] ∧ toCells item ≠ [""]) :
    Text.AreRows (items.map toCells) := by
  intro row hrow
  obtain ⟨item, hitem, rfl⟩ := List.mem_map.1 hrow
  exact ⟨hcells item hitem, hne item hitem⟩

end

/--
Layout rows, rule declarations and manifest entries come back from every text of their cells. Only
a rule declaration can be lost, one without a kind and without arguments: nothing would stand on
its line.
-/
theorem declarations_of_isSheet (text : String) :
    (∀ rows : List LayoutRow, (∀ row ∈ rows, ∀ cell ∈ row.cells, Text.IsCell cell) →
      Text.IsSheet true (rows.map LayoutRow.cells) text → LayoutRow.ofText text = rows) ∧
    (∀ decls : List RuleDecl, (∀ decl ∈ decls, ∀ cell ∈ decl.cells, Text.IsCell cell) →
      (∀ decl ∈ decls, decl.kind ≠ "" ∨ decl.args ≠ []) →
        Text.IsSheet true (decls.map RuleDecl.cells) text → RuleDecl.ofText text = decls) ∧
    (∀ entries : List ManifestEntry,
      (∀ entry ∈ entries, ∀ cell ∈ entry.cells, Text.IsCell cell) →
        Text.IsSheet false (entries.map ManifestEntry.cells) text →
          ManifestEntry.ofText text = entries) := by
  refine ⟨fun rows hcells => ?_, fun decls hcells hne => ?_, fun entries hcells => ?_⟩
  · apply map_ofCells_of_isSheet LayoutRow.ofCells_cells
    exact areRows_map hcells fun row _ => by simp [LayoutRow.cells]
  · apply map_ofCells_of_isSheet RuleDecl.ofCells_cells
    refine areRows_map hcells fun decl hdecl => ⟨List.cons_ne_nil _ _, ?_⟩
    exact RuleDecl.cells_ne_singleton_iff.2 (hne decl hdecl)
  · apply map_ofCells_of_isSheet ManifestEntry.ofCells_cells
    exact areRows_map hcells fun entry _ => by simp [ManifestEntry.cells]

/--
A row of empty cells is no blank line, and neither is a declaration of a single empty argument.
-/
theorem declarations_of_isSheet_empty_cells :
    LayoutRow.ofText "any header\r\n \t\ncolumn\t, id ,string\r\n,,\n " =
        [⟨"column", "id", "string", []⟩, ⟨"", "", "", []⟩] ∧
      RuleDecl.ofText "\n,\r\n\r\nunique \n\n" = [⟨"", [""]⟩, ⟨"unique", []⟩] ∧
      ManifestEntry.ofText "Player, byId,id\n \r\n,," =
        [⟨"Player", "byId", "id"⟩, ⟨"", "", ""⟩] := by
  have plain (cell : String) : Text.WritesCell cell cell.toList := by
    have hgap : Text.IsGap [] := by decide
    simpa using Text.WritesCell.mk hgap hgap
  have padded (cell : String) {front back : List Char} (hfront : Text.IsGap front)
      (hback : Text.IsGap back) : Text.WritesCell cell (front ++ cell.toList ++ back) :=
    .mk hfront hback
  have hnone : Text.IsGap [] := by decide
  have hspace : Text.IsGap [' '] := by decide
  have htab : Text.IsGap ['\t'] := by decide
  have hboth : Text.IsGap [' ', '\t'] := by decide
  refine ⟨?_, ?_, ?_⟩
  · refine (declarations_of_isSheet _).1 _ (by decide) ?_
    have hid : Text.WritesRow ["column", "id", "string"] "column\t, id ,string".toList :=
      .mk (.cons (padded "column" hnone htab)
        (.cons (padded "id" hspace hspace) (.cons (plain "string") .nil)))
    have hempty : Text.WritesRow ["", "", ""] ",,".toList :=
      .mk (.cons (plain "") (.cons (plain "") (.cons (plain "") .nil)))
    exact ⟨"any header".toList, _, _, by decide, .carriageReturn,
      .blank hboth .lineFeed (.row hid .carriageReturn (.row hempty .lineFeed (.nil hspace))), rfl⟩
  · refine (declarations_of_isSheet _).2.1 _ (by decide) (by decide) ?_
    have hempty : Text.WritesRow ["", ""] ",".toList :=
      .mk (.cons (plain "") (.cons (plain "") .nil))
    have hunique : Text.WritesRow ["unique"] "unique ".toList :=
      .mk (.cons (padded "unique" hnone hspace) .nil)
    exact ⟨[], _, _, by decide, .lineFeed,
      .row hempty .carriageReturn (.blank hnone .carriageReturn
        (.row hunique .lineFeed (.blank hnone .lineFeed (.nil hnone)))), rfl⟩
  · refine (declarations_of_isSheet _).2.2 _ (by decide) ?_
    have hplayer : Text.WritesRow ["Player", "byId", "id"] "Player, byId,id".toList :=
      .mk (.cons (plain "Player") (.cons (padded "byId" hspace hnone) (.cons (plain "id") .nil)))
    have hempty : Text.WritesRow ["", "", ""] ",,".toList :=
      .mk (.cons (plain "") (.cons (plain "") (.cons (plain "") .nil)))
    exact .row hplayer .lineFeed (.blank hspace .carriageReturn (.last hempty))

end RowTree
