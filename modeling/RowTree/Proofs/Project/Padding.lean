import RowTree.Project.Layout
import RowTree.Proofs.Project.Layout
import RowTree.Proofs.Rule.Declaration
import RowTree.Proofs.Rule.Outcome
import RowTree.Proofs.Text.Sheet

/-!
This module contains what empty cells behind a line change. A layout stays the same, since blank
extra texts count for nothing. So do rules, but not the allowed values of a value set: each empty
cell allows the empty text (`declarations_of_pads`, `RuleDecl.padding_allows_empty`), and the value
set no longer refuses empty parts (`Rule.holds_allowEmpty_iff`).
-/

namespace RowTree

/-! ## Rows of a layout -/

theorem getD_append_replicate_empty (cells : List String) (n i : Nat) :
    (cells ++ List.replicate n "")[i]?.getD "" = cells[i]?.getD "" := by
  by_cases hi : i < cells.length
  · rw [List.getElem?_append_left hi]
  · rw [Nat.not_lt] at hi
    rw [List.getElem?_append_right hi, List.getElem?_eq_none hi, List.getElem?_replicate]
    split <;> rfl

namespace LayoutRow

variable {row padded : LayoutRow} {rows paddedRows : List LayoutRow}

def PadsTo (row padded : LayoutRow) : Prop :=
  ∃ n, padded = { row with extra := row.extra ++ List.replicate n "" }

theorem ofCells_padsTo (cells : List String) (n : Nat) :
    (ofCells cells).PadsTo (ofCells (cells ++ List.replicate n "")) := by
  refine ⟨n - (3 - cells.length), ?_⟩
  simp only [ofCells, getD_append_replicate_empty, List.drop_append, List.drop_replicate]

theorem PadsTo.kind_eq (h : row.PadsTo padded) : padded.kind = row.kind := by
  obtain ⟨n, rfl⟩ := h
  rfl

theorem PadsTo.object_eq (h : row.PadsTo padded) : padded.object = row.object := by
  obtain ⟨n, rfl⟩ := h
  have hblank : ∀ text ∈ List.replicate n "", ¬(!Text.isBlankText text) = true := by
    intro text htext
    rw [List.eq_of_mem_replicate htext]
    decide
  rw [LayoutRow.object_eq, LayoutRow.object_eq, List.filter_append,
    List.filter_eq_nil_iff.2 hblank, List.append_nil]

theorem PadsTo.fieldIn_eq (h : row.PadsTo padded) (file : String) :
    padded.fieldIn file = row.fieldIn file := by
  obtain ⟨n, rfl⟩ := h
  unfold fieldIn
  cases row.extra with
  | nil => cases n <;> rfl
  | cons first rest => simp only [List.cons_append, List.head?_cons]

theorem PadsTo.declare_eq (h : row.PadsTo padded) (file : String) (schema : Schema) :
    declare file schema padded = declare file schema row := by
  unfold declare
  rw [h.kind_eq, h.fieldIn_eq, h.object_eq]

theorem map_kind_of_padsTo (h : List.Forall₂ PadsTo rows paddedRows) :
    paddedRows.map (·.kind) = rows.map (·.kind) := by
  induction h with
  | nil => rfl
  | cons hrow _ ih => rw [List.map_cons, List.map_cons, hrow.kind_eq, ih]

theorem foldlM_declare_of_padsTo (h : List.Forall₂ PadsTo rows paddedRows) (file : String)
    (schema : Schema) :
    paddedRows.foldlM (declare file) schema = rows.foldlM (declare file) schema := by
  induction h generalizing schema with
  | nil => rfl
  | cons hrow _ ih =>
    rw [List.foldlM_cons, List.foldlM_cons, hrow.declare_eq]
    exact congrArg _ (funext ih)

theorem toSchema_of_padsTo (h : List.Forall₂ PadsTo rows paddedRows) (table file : String) :
    toSchema table file paddedRows = toSchema table file rows := by
  rw [← toSchemaByPass_eq, ← toSchemaByPass_eq]
  unfold toSchemaByPass unknownKinds
  rw [map_kind_of_padsTo h, foldlM_declare_of_padsTo h]

theorem forall₂_padsTo {counts : List Nat} {rows : List (List String)}
    (h : counts.length = rows.length) :
    List.Forall₂ PadsTo (rows.map ofCells) ((Text.padRows counts rows).map ofCells) := by
  induction rows generalizing counts with
  | nil =>
    rw [List.length_eq_zero_iff.1 h]
    exact .nil
  | cons row rest ih =>
    cases counts with
    | nil => cases h
    | cons n counts => exact .cons (ofCells_padsTo row n) (ih (Nat.succ.inj h))

end LayoutRow

/-! ## Rules -/

/--
The rule with the empty text `n` times more among the values that it allows, if it is about allowed
values.
-/
def Rule.allowEmpty (n : Nat) : Rule → Rule
  | .valueSet target allowed => .valueSet target (allowed ++ List.replicate n "")
  | rule => rule

theorem Rule.allowEmpty_eq_iff {n : Nat} {rule : Rule} :
    rule.allowEmpty n = rule ↔ n = 0 ∨ ∀ target allowed, rule ≠ .valueSet target allowed := by
  cases rule <;> simp [allowEmpty]

/--
A value set that is made to allow the empty text asks nothing of empty parts.
-/
theorem Rule.holds_allowEmpty_iff {rows : Rows} {target : Target} {allowed : List String} {n : Nat}
    (hn : n ≠ 0) :
    ((Rule.valueSet target allowed).allowEmpty n).Holds rows ↔
      ∀ text ∈ target.reached rows,
        ∃ parts, IsTokens text parts ∧ ∀ token ∈ parts, token ∈ allowed ∨ token = "" := by
  simp [allowEmpty, Holds, hn]

namespace RuleDecl

def pad (n : Nat) (decl : RuleDecl) : RuleDecl :=
  { decl with args := decl.args ++ List.replicate n "" }

theorem ofCells_append_empty {cells : List String} (h : cells ≠ []) (n : Nat) :
    ofCells (cells ++ List.replicate n "") = (ofCells cells).pad n := by
  obtain ⟨kind, args, rfl⟩ := List.exists_cons_of_ne_nil h
  rfl

variable {decl : RuleDecl} {rule : Rule} {n : Nat}

theorem getElem?_args_pad {i : Nat} {text : String} (h : decl.args[i]? = some text) :
    (decl.pad n).args[i]? = some text := by
  obtain ⟨hi, _⟩ := List.getElem?_eq_some_iff.1 h
  rw [pad, List.getElem?_append_left hi, h]

theorem map_trim_tail_args_pad {text : String} (h : decl.args[0]? = some text) :
    (decl.pad n).args.tail.map Text.trim =
      decl.args.tail.map Text.trim ++ List.replicate n "" := by
  have hne : decl.args ≠ [] := by
    intro hnil
    rw [hnil] at h
    cases h
  rw [pad, List.tail_append_of_ne_nil hne, List.map_append, List.map_replicate]
  rfl

theorem Makes.pad (h : decl.Makes rule) (n : Nat) : (decl.pad n).Makes (rule.allowEmpty n) := by
  cases h with
  | mapping hkind hfirst hsecond htarget hsource =>
    exact .mapping hkind (getElem?_args_pad hfirst) (getElem?_args_pad hsecond) htarget hsource
  | valueSet hkind hfirst htarget =>
    rw [Rule.allowEmpty, ← map_trim_tail_args_pad hfirst]
    exact .valueSet hkind (getElem?_args_pad hfirst) htarget
  | interval hkind hfirst hlow hhigh htarget hmin hmax =>
    exact .interval hkind (getElem?_args_pad hfirst) (getElem?_args_pad hlow)
      (getElem?_args_pad hhigh) htarget hmin hmax
  | uniqueness hkind hfirst htarget =>
    exact .uniqueness hkind (getElem?_args_pad hfirst) htarget

variable {counts : List Nat} {decls : List RuleDecl} {rules : List Rule}

theorem forall₂_makes_pad (h : List.Forall₂ Makes decls rules) (counts : List Nat) :
    List.Forall₂ Makes (List.zipWith pad counts decls)
      (List.zipWith Rule.allowEmpty counts rules) := by
  induction h generalizing counts with
  | nil =>
    rw [List.zipWith_nil_right, List.zipWith_nil_right]
    exact .nil
  | cons hmakes _ ih =>
    cases counts with
    | nil => exact .nil
    | cons n counts => exact .cons (hmakes.pad n) (ih counts)

theorem zipWith_allowEmpty_eq_iff (h : counts.length = rules.length) :
    List.zipWith Rule.allowEmpty counts rules = rules ↔
      ∀ entry ∈ counts.zip rules,
        entry.1 = 0 ∨ ∀ target allowed, entry.2 ≠ .valueSet target allowed := by
  induction rules generalizing counts with
  | nil => simp
  | cons rule rest ih =>
    cases counts with
    | nil => cases h
    | cons n counts =>
      rw [List.zipWith_cons_cons, List.cons.injEq, List.zip_cons_cons, List.forall_mem_cons,
        Rule.allowEmpty_eq_iff, ih (Nat.succ.inj h)]

theorem map_ofCells_padRows {rows : List (List String)} (h : ∀ row ∈ rows, row ≠ [])
    (counts : List Nat) :
    (Text.padRows counts rows).map ofCells = List.zipWith pad counts (rows.map ofCells) := by
  induction rows generalizing counts with
  | nil => simp [Text.padRows]
  | cons row rest ih =>
    obtain ⟨hrow, hrest⟩ := List.forall_mem_cons.1 h
    cases counts with
    | nil => rfl
    | cons n counts =>
      rw [List.map_cons, List.zipWith_cons_cons, ← ih hrest, ← ofCells_append_empty hrow]
      rfl

end RuleDecl

/-! ## Padded text -/

section

variable {counts : List Nat} {text padded : String}

theorem LayoutRow.forall₂_padsTo_ofText (h : Text.Pads counts text padded) :
    List.Forall₂ PadsTo (ofText text) (ofText padded) := by
  obtain ⟨hlength, hcells⟩ := Text.map_cells_of_pads h
  have hrows : counts.length = ((Text.dataLines true text).map Text.cells).length := by
    rw [hlength, List.length_map]
  have hpads := forall₂_padsTo hrows
  rwa [← hcells, List.map_map, List.map_map] at hpads

theorem RuleDecl.ofText_of_pads (h : Text.Pads counts text padded) :
    counts.length = (ofText text).length ∧
      ofText padded = List.zipWith pad counts (ofText text) := by
  obtain ⟨hlength, hcells⟩ := Text.map_cells_of_pads h
  have hne : ∀ row ∈ (Text.dataLines true text).map Text.cells, row ≠ [] := by
    intro row hrow
    obtain ⟨line, _, rfl⟩ := List.mem_map.1 hrow
    exact Text.cells_ne_nil line
  have hpads := map_ofCells_padRows hne counts
  rw [← hcells, List.map_map, List.map_map] at hpads
  exact ⟨by rw [hlength, ofText, List.length_map], hpads⟩

/--
Commas behind the lines of a layout leave its schema as it is. Behind the lines of rules they leave
all rules but the value sets as they are, and let a value set allow the empty text once for each of
them.
-/
theorem declarations_of_pads (h : Text.Pads counts text padded) :
    (∀ table file, LayoutRow.toSchema table file (LayoutRow.ofText padded) =
      LayoutRow.toSchema table file (LayoutRow.ofText text)) ∧
    ∀ file rules, RuleDecl.toRules file 1 (RuleDecl.ofText text) = .ok rules →
      counts.length = rules.length ∧
        RuleDecl.toRules file 1 (RuleDecl.ofText padded) =
          .ok (List.zipWith Rule.allowEmpty counts rules) ∧
        (RuleDecl.toRules file 1 (RuleDecl.ofText padded) = .ok rules ↔
          ∀ entry ∈ counts.zip rules,
            entry.1 = 0 ∨ ∀ target allowed, entry.2 ≠ .valueSet target allowed) := by
  refine ⟨LayoutRow.toSchema_of_padsTo (LayoutRow.forall₂_padsTo_ofText h), ?_⟩
  intro file rules hrules
  obtain ⟨hlength, hpadded⟩ := RuleDecl.ofText_of_pads h
  have hmakes := RuleDecl.toRules_eq_ok_iff.1 hrules
  have hcounts : counts.length = rules.length := hlength.trans hmakes.length_eq
  have hok : RuleDecl.toRules file 1 (RuleDecl.ofText padded) =
      .ok (List.zipWith Rule.allowEmpty counts rules) := by
    rw [hpadded, RuleDecl.toRules_eq_ok_iff]
    exact RuleDecl.forall₂_makes_pad hmakes counts
  refine ⟨hcounts, hok, ?_⟩
  rw [hok, Except.ok.injEq]
  exact RuleDecl.zipWith_allowEmpty_eq_iff hcounts

end

theorem declarations_of_pads_colors :
    let id : Target := ⟨"Item", "id", ["id"], rfl⟩
    let color : Target := ⟨"Item", "color", ["color"], rfl⟩
    LayoutRow.toSchema "Item" "item.csv"
          (LayoutRow.ofText "\nobject_definition,color,,red,,\r\n\ncolumn,id,int,") =
        LayoutRow.toSchema "Item" "item.csv"
          (LayoutRow.ofText "\nobject_definition,color,,red\r\n\ncolumn,id,int") ∧
      RuleDecl.toRules "rules.csv" 1
          (RuleDecl.ofText "kind\nunique,Item.id,\n \nvalues,Item.color,red,, ") =
        .ok [.uniqueness id, .valueSet color ["red", "", ""]] := by
  intro id color
  have hlayout : Text.Pads [2, 1] "\nobject_definition,color,,red\r\n\ncolumn,id,int"
      "\nobject_definition,color,,red,,\r\n\ncolumn,id,int," := by
    have hreturn : ∀ c ∈ ['\r'], Text.isBlank c = true := List.all_eq_true.1 rfl
    have hcolor : Text.PadsLine 2 ("object_definition,color,,red".toList ++ ['\r'])
        ("object_definition,color,,red".toList ++ List.replicate 2 ',' ++ ['\r']) :=
      .mk hreturn
    have hid := Text.padsLine_append 1 "column,id,int".toList
    have hempty : ∀ c ∈ ([] : List Char), Text.isBlank c = true := nofun
    exact ⟨[], _, _, by decide, by decide, .row (mt List.all_eq_true.2 (by decide)) hcolor
      (.blank hempty (.row (mt List.all_eq_true.2 (by decide)) hid .nil)), by decide, by decide⟩
  have hrules : Text.Pads [1, 2] "kind\nunique,Item.id\n \nvalues,Item.color,red "
      "kind\nunique,Item.id,\n \nvalues,Item.color,red,, " := by
    have hspace : ∀ c ∈ [' '], Text.isBlank c = true := List.all_eq_true.1 rfl
    have hid := Text.padsLine_append 1 "unique,Item.id".toList
    have hcolor : Text.PadsLine 2 ("values,Item.color,red".toList ++ [' '])
        ("values,Item.color,red".toList ++ List.replicate 2 ',' ++ [' ']) :=
      .mk hspace
    exact ⟨"kind".toList, _, _, by decide, by decide, .row (mt List.all_eq_true.2 (by decide)) hid
      (.blank hspace (.row (mt List.all_eq_true.2 (by decide)) hcolor .nil)), by decide, by decide⟩
  refine ⟨(declarations_of_pads hlayout).1 _ _, ?_⟩
  exact ((declarations_of_pads hrules).2 "rules.csv"
    [.uniqueness id, .valueSet color ["red"]] (by decide)).2.1

/--
Commas behind a line let its value set allow a value that it refuses without them.
-/
theorem RuleDecl.padding_allows_empty :
    let text := "kind,args\nvalues,Item.rarity,common,rare\n"
    let padded := "kind,args\nvalues,Item.rarity,common,rare,,\n"
    let target : Target := ⟨"Item", "rarity", ["rarity"], rfl⟩
    let row : Record := ⟨⟨"Item", [⟨"rarity", .primitive .string⟩]⟩, [.scalar (.string "")]⟩
    let rows : Rows := fun table => if table = "Item" then some [row] else none
    Text.Pads [2] text padded ∧
      toRules "rules.csv" 1 (ofText text) = .ok [.valueSet target ["common", "rare"]] ∧
      toRules "rules.csv" 1 (ofText padded) =
        .ok [.valueSet target ["common", "rare", "", ""]] ∧
      (Rule.valueSet target ["common", "rare"]).check rows =
        .error (.violation target ⟨"", .notInValues ["common", "rare"]⟩) ∧
      (Rule.valueSet target ["common", "rare", "", ""]).check rows = .ok () := by
  intro text padded target row rows
  refine ⟨?_, by decide, by decide, by decide, by decide⟩
  have hrarity := Text.padsLine_append 2 "values,Item.rarity,common,rare".toList
  have hempty : ∀ c ∈ ([] : List Char), Text.isBlank c = true := nofun
  exact ⟨"kind,args".toList, _, _, by decide, by decide,
    .row (mt List.all_eq_true.2 (by decide)) hrarity (.blank hempty .nil), by decide, by decide⟩

end RowTree
