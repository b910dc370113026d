import RowTree.Record.Basic

/-!
This module holds the text of values. A record is written with one line for each field, below the
line of the record that holds it and four spaces further in; a collection inside a record has one
line for each element. Where a collection stands alone its elements are joined by commas.
-/

namespace RowTree

def lineOf (depth : Nat) (label : String) : String :=
  "\n" ++ String.ofList (List.replicate (4 * depth) ' ') ++ label ++ ": "

def indexText (index : Nat) : String :=
  String.ofList (Text.ofNat index)

mutual

/--
What stands behind the label of a value, `depth` levels in.
-/
def Value.body (depth : Nat) : Value → String
  | .unset => ""
  | .scalar s => s.text
  | .nested record => record.body depth
  | .collection items => Value.elementLines depth "" 0 items
termination_by structural v => v

def Record.body (depth : Nat) : Record → String
  | ⟨type, slots⟩ => Value.fieldLines depth (type.fields.map (·.name)) slots
termination_by structural r => r

def Value.fieldLines (depth : Nat) : List String → List Value → String
  | name :: names, value :: values =>
    value.fieldLine depth name ++ Value.fieldLines depth names values
  | _, _ => ""
termination_by structural _ values => values

/--
The lines of one field. A collection has a line for each element and none of its own.
-/
def Value.fieldLine (depth : Nat) (name : String) : Value → String
  | .unset => lineOf depth name
  | .scalar s => lineOf depth name ++ s.text
  | .nested record => lineOf depth name ++ record.body (depth + 1)
  | .collection items => Value.elementLines depth (name ++ ".") 0 items
termination_by structural v => v

def Value.elementLines (depth : Nat) (front : String) (index : Nat) : List Value → String
  | [] => ""
  | item :: items =>
    lineOf depth (front ++ indexText index) ++ item.body (depth + 1) ++
      Value.elementLines depth front (index + 1) items
termination_by structural items => items

end

def Record.text (record : Record) : String :=
  record.body 0

mutual

def Value.text : Value → String
  | .unset => ""
  | .scalar s => s.text
  | .nested record => record.text
  | .collection items => ",".intercalate (Value.texts items)
termination_by structural v => v

def Value.texts : List Value → List String
  | [] => []
  | item :: items => item.text :: Value.texts items
termination_by structural items => items

end

end RowTree
