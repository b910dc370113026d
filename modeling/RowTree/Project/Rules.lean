import RowTree.Project.Directory
import RowTree.Text.Lines

/-!
This module holds the rules file of a project: a list of rule declarations.
-/

namespace RowTree

namespace RuleDecl

def shape (positional : Bool) : GroupShape :=
  ⟨some "RuleDecl", ["kind", "args"], positional⟩

def ofDatum? (positional : Bool) (datum : Datum) : Option RuleDecl := do
  match ← datum.parts? (shape positional) with
  | [kind, args] =>
    let kind ← Datum.required Datum.text? kind
    let args ← Datum.optional [] (Datum.list? Datum.text?) args
    some ⟨kind, args⟩
  | _ => none

def ofCells (cells : List String) : RuleDecl :=
  ⟨cells[0]?.getD "", cells.drop 1⟩

def ofText (text : String) : List RuleDecl :=
  (Text.dataLines true text).map fun line => ofCells (Text.cells line)

def reader : ListReader RuleDecl :=
  ⟨"rules", ofDatum?, ofText⟩

/--
The rules that declarations stand for, of which the first has the number `index`. The first
declaration that stands for none is reported with its number.
-/
def toRules (file : String) (index : Nat) : List RuleDecl → Except LoadError (List Rule)
  | [] => .ok []
  | decl :: rest =>
    match decl.toRule with
    | .error error => .error (.rule file index error)
    | .ok rule => (toRules file (index + 1) rest).map (rule :: ·)

end RuleDecl

end RowTree
