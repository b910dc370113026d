import RowTree.Document.Datum
import RowTree.Document.Toml.Moment

/-!
This module holds the values of a TOML document, and what a declaration takes from them. A table
whose first name is the one that is reserved for dates and times stands for a date or a time; a
table of that form which holds none makes the document invalid.
-/

namespace RowTree

namespace Toml

/--
A value of a document. No declaration takes a number, so that its value does not count, and a date
or a time stands for its text.
-/
inductive Node where
  | text (s : String)
  | flag (b : Bool)
  | number
  | moment (s : String)
  | list (items : List Node)
  | table (parts : List (String × Node))

namespace Node

def momentName : String :=
  "$__toml_private_datetime"

/--
The value under the reserved name, if a table has it as its first name.
-/
def reserved? : List (String × Node) → Option Node
  | (name, node) :: _ => if name = momentName then some node else none
  | [] => none

def moment? : Node → Option Datum
  | .text s => (Moment.ofText? s).map .text
  | _ => none

mutual

def toDatum? : Node → Option Datum
  | .text s => some (.text s)
  | .flag b => some (.flag b)
  | .number => some .other
  | .moment s => some (.text s)
  | .list items => (toDataList? items).map .list
  | .table parts =>
    match reserved? parts with
    | some node => node.moment?
    | none => (toParts? parts).map (.group none)
termination_by structural node => node

def toDataList? : List Node → Option (List Datum)
  | [] => some []
  | node :: nodes =>
    match node.toDatum?, toDataList? nodes with
    | some datum, some data => some (datum :: data)
    | _, _ => none
termination_by structural nodes => nodes

def toParts? : List (String × Node) → Option (List (String × Datum))
  | [] => some []
  | (name, node) :: rest =>
    match node.toDatum?, toParts? rest with
    | some datum, some parts => some ((name, datum) :: parts)
    | _, _ => none
termination_by structural parts => parts

end

end Node

end Toml

end RowTree
