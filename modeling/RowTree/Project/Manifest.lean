import RowTree.Project.Directory
import RowTree.Text.Lines

/-!
This module holds the manifest of a project: its tables, each with the index that pages through it.
-/

namespace RowTree

structure ManifestEntry where
  name : String
  index : String
  indexField : String
  deriving DecidableEq, Repr

namespace ManifestEntry

def shape (positional : Bool) : GroupShape :=
  ⟨some "TableDecl", ["name", "index", "index_field"], positional⟩

def ofDatum? (positional : Bool) (datum : Datum) : Option ManifestEntry := do
  match ← datum.parts? (shape positional) with
  | [name, index, indexField] =>
    let name ← Datum.required Datum.text? name
    let index ← Datum.optional "" Datum.text? index
    let indexField ← Datum.optional "" Datum.text? indexField
    some ⟨name, index, indexField⟩
  | _ => none

def ofCells (cells : List String) : ManifestEntry :=
  ⟨cells[0]?.getD "", cells[1]?.getD "", cells[2]?.getD ""⟩

/--
The entries of comma-separated text, which has no header.
-/
def ofText (text : String) : List ManifestEntry :=
  (Text.dataLines false text).map fun line => ofCells (Text.cells line)

def reader : ListReader ManifestEntry :=
  ⟨"tables", ofDatum?, ofText⟩

end ManifestEntry

end RowTree
