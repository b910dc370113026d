import RowTree.Record.Read

/-!
This module holds the writing of a scalar into a record by path. On the way an unset record or
collection is created; a collection takes new elements at its end only. A refused write says why
and leaves every value as it was, but for containers that were created on the way.
-/

namespace RowTree

inductive WriteError where
  | fieldNotFound (field : String)
  | invalidIndex (field : String) (index : String) (length : Nat)
  | invalidValue (field : String) (expected : String) (found : String)
  deriving DecidableEq, Repr

def WriteError.message : WriteError → String
  | .fieldNotFound field => "field '" ++ field ++ "' is not declared"
  | .invalidIndex field index length =>
    "index '" ++ index ++ "' is invalid for '" ++ field ++ "' (length " ++ indexText length ++
      "); indices must be assigned in order"
  | .invalidValue field expected found =>
    "value '" ++ found ++ "' for '" ++ field ++ "' does not match the expected type " ++ expected

/--
What an attempt to change a value leaves, and why it was refused if it was.
-/
structure Attempt (α : Type) where
  value : α
  error? : Option WriteError

namespace Attempt

def done {α : Type} (value : α) : Attempt α :=
  ⟨value, none⟩

def refused {α : Type} (value : α) (error : WriteError) : Attempt α :=
  ⟨value, some error⟩

def map {α β : Type} (f : α → β) (attempt : Attempt α) : Attempt β :=
  ⟨f attempt.value, attempt.error?⟩

end Attempt

def Record.modify (record : Record) (name : String) (change : Kind → Value → Attempt Value) :
    Attempt Record :=
  match record.type.find? name with
  | none => .refused record (.fieldNotFound name)
  | some (i, kind) =>
    (change kind (record.slots[i]?.getD .unset)).map fun value =>
      { record with slots := record.slots.set i value }

/--
Change an element of a collection. The index after the last one adds an element, if the change
succeeds.
-/
def Value.modifyItem (items : List Value) (index : String) (field : String)
    (change : Nat → Value → Attempt Value) : Attempt (List Value) :=
  let refusal := WriteError.invalidIndex field index items.length
  match Text.index? index with
  | none => .refused items refusal
  | some i =>
    if h : i < items.length then
      (change i items[i]).map fun item => items.set i item
    else if i = items.length then
      let attempt := change i .unset
      match attempt.error? with
      | none => .done (items ++ [attempt.value])
      | some error => .refused items error
    else
      .refused items refusal

def Value.record? (type : RecordType) : Value → Option Record
  | .unset => some (.empty type)
  | .nested record => some record
  | _ => none

def Value.items? : Value → Option (List Value)
  | .unset => some []
  | .collection items => some items
  | _ => none

/--
Write a scalar into a slot of some kind, at the end of a path from there. `field` names the slot
in messages.
-/
def Value.write (scalar : Scalar) : Path → Kind → String → Value → Attempt Value
  | [], .primitive p, field, slot =>
    match p.coerce? scalar with
    | some s => .done (.scalar s)
    | none => .refused slot (.invalidValue field p.name scalar.text)
  | [], kind, field, slot => .refused slot (.invalidValue field kind.text scalar.text)
  | name :: _, .primitive _, _, slot => .refused slot (.fieldNotFound name)
  | name :: rest, .nested type, field, slot =>
    match slot.record? type with
    | some record =>
      (record.modify name fun kind inner => inner.write scalar rest kind name).map .nested
    | none => .refused slot (.invalidValue field (Kind.nested type).text slot.text)
  | index :: rest, .collection element, field, slot =>
    match slot.items? with
    | some items =>
      (Value.modifyItem items index field fun i item =>
        item.write scalar rest element (field ++ "." ++ indexText i)).map .collection
    | none => .refused slot (.invalidValue field (Kind.collection element).text slot.text)

def Record.write (record : Record) (path : Path) (scalar : Scalar) : Attempt Record :=
  match path with
  | [] => .refused record (.fieldNotFound "")
  | name :: rest => record.modify name fun kind slot => slot.write scalar rest kind name

theorem Attempt.value_map {α β : Type} (f : α → β) (attempt : Attempt α) :
    (attempt.map f).value = f attempt.value := rfl

theorem Attempt.error?_map {α β : Type} (f : α → β) (attempt : Attempt α) :
    (attempt.map f).error? = attempt.error? := rfl

theorem Record.type_modify (record : Record) (name : String)
    (change : Kind → Value → Attempt Value) :
    (record.modify name change).value.type = record.type := by
  rw [Record.modify]
  split <;> rfl

theorem Record.type_write (record : Record) (path : Path) (scalar : Scalar) :
    (record.write path scalar).value.type = record.type := by
  cases path with
  | nil => rfl
  | cons name rest => exact record.type_modify name _

end RowTree
