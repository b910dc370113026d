import RowTree.Project.Directory
import RowTree.Text.Lines

/-!
This module holds the layout of a table: rows that each declare a column, an object field or an
object. Rows of the three kinds may be mixed, and each kind keeps its order in the schema.
-/

namespace RowTree

/--
A row of a layout. `extra` holds the element type of a field of type `array`, or the members of an
object.
-/
structure LayoutRow where
  kind : String
  name : String
  typeName : String
  extra : List String
  deriving DecidableEq, Repr

namespace LayoutRow

/-! ## Reading -/

def shape (positional : Bool) : GroupShape :=
  ⟨some "LayoutRow", ["kind", "name", "type", "extra"], positional⟩

def ofDatum? (positional : Bool) (datum : Datum) : Option LayoutRow := do
  match ← datum.parts? (shape positional) with
  | [kind, name, typeName, extra] =>
    let kind ← Datum.required Datum.text? kind
    let name ← Datum.required Datum.text? name
    let typeName ← Datum.optional "" Datum.text? typeName
    let extra ← Datum.optional [] (Datum.list? Datum.text?) extra
    some ⟨kind, name, typeName, extra⟩
  | _ => none

/--
The row with these cells, where a missing cell is empty.
-/
def ofCells (cells : List String) : LayoutRow :=
  ⟨cells[0]?.getD "", cells[1]?.getD "", cells[2]?.getD "", cells.drop 3⟩

def ofText (text : String) : List LayoutRow :=
  (Text.dataLines true text).map fun line => ofCells (Text.cells line)

def reader : ListReader LayoutRow :=
  ⟨"rows", ofDatum?, ofText⟩

/-! ## Schemas -/

inductive Role where
  | column
  | object
  | objectField
  deriving DecidableEq, Repr

def Role.ofKind? : String → Option Role
  | "column" => some .column
  | "object_definition" => some .object
  | "object_field" => some .objectField
  | _ => none

def role? (row : LayoutRow) : Option Role :=
  Role.ofKind? row.kind

def invalidKinds (rows : List LayoutRow) : List String :=
  (rows.filter fun row => row.role?.isNone).map (·.kind)

def withRole (role : Role) (rows : List LayoutRow) : List LayoutRow :=
  rows.filter fun row => row.role? == some role

def isArray (row : LayoutRow) : Bool :=
  row.role? != some .object && row.typeName == "array"

/--
The element type of an array: its first extra text, or nothing.
-/
def elementType (row : LayoutRow) : String :=
  Text.trim (row.extra.head?.getD "")

def field (row : LayoutRow) : FieldDecl :=
  if row.isArray then ⟨row.name, row.elementType, true⟩ else ⟨row.name, row.typeName, false⟩

/--
The object that a row declares. Blank extra texts are no members.
-/
def object (row : LayoutRow) : ObjectDecl :=
  ⟨row.name, (row.extra.map Text.trim).filter (· ≠ "")⟩

/--
The schema of a table. Rows of unknown kinds are reported all together and before an array without
an element type.
-/
def toSchema (table : String) (file : String) (rows : List LayoutRow) :
    Except LoadError Schema :=
  match invalidKinds rows with
  | [] =>
    match rows.find? fun row => row.isArray && row.elementType == "" with
    | some row => .error (.missingElementType file row.name)
    | none =>
      .ok
        { name := table
          columns := (withRole .column rows).map field
          objectFields := (withRole .objectField rows).map field
          objects := (withRole .object rows).map object }
  | kinds => .error (.invalidLayoutKinds file kinds)

end LayoutRow

end RowTree
