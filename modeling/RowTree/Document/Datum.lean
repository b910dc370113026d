import RowTree.Document.Json

/-!
This module holds what declarations take from a document, whatever its format: texts, truth
values, lists and groups of named parts. Parts that a declaration does not know are ignored; a
part that it knows may occur once.
-/

namespace RowTree

/--
A piece of a document. A group may have a name of its own in front.
-/
inductive Datum where
  | text (s : String)
  | flag (b : Bool)
  | list (items : List Datum)
  | group (tag? : Option String) (parts : List (String × Datum))
  | other

/--
The form of a group: the name that it may have in front, and the names of its parts. Some formats
allow the parts as a list without their names, where parts at the end may be missing.
-/
structure GroupShape where
  tag? : Option String
  names : List String
  positional : Bool

namespace Datum

/--
The part of this name, if there is one; two of them are refused.
-/
def part? (parts : List (String × Datum)) (name : String) : Option (Option Datum) :=
  match parts.filter (·.1 == name) with
  | [] => some none
  | [(_, datum)] => some (some datum)
  | _ => none

def parts? (shape : GroupShape) : Datum → Option (List (Option Datum))
  | .group tag? parts =>
    if tag? = none ∨ tag? = shape.tag? then shape.names.mapM (part? parts) else none
  | .list items =>
    if shape.positional ∧ items.length ≤ shape.names.length then
      some (items.map some ++ List.replicate (shape.names.length - items.length) none)
    else
      none
  | _ => none

def text? : Datum → Option String
  | .text s => some s
  | _ => none

def flag? : Datum → Option Bool
  | .flag b => some b
  | _ => none

def list? {α : Type} (take : Datum → Option α) : Datum → Option (List α)
  | .list items => items.mapM take
  | _ => none

def required {α : Type} (take : Datum → Option α) : Option Datum → Option α
  | some datum => take datum
  | none => none

def optional {α : Type} (missing : α) (take : Datum → Option α) : Option Datum → Option α
  | some datum => take datum
  | none => some missing

end Datum

mutual

def Json.toDatum : Json → Datum
  | .string (some s) => .text s
  | .bool b => .flag b
  | .array items => .list (Json.toDataList items)
  | .object members =>
    match Json.toParts members with
    | some parts => .group none parts
    | none => .other
  | _ => .other
termination_by structural json => json

def Json.toDataList : List Json → List Datum
  | [] => []
  | item :: items => item.toDatum :: Json.toDataList items
termination_by structural items => items

def Json.toParts : List (Option String × Json) → Option (List (String × Datum))
  | [] => some []
  | (name?, item) :: rest =>
    match name?, Json.toParts rest with
    | some name, some parts => some ((name, item.toDatum) :: parts)
    | _, _ => none
termination_by structural members => members

end

def Datum.ofJsonText? (text : String) : Option Datum :=
  (Json.ofText? text).map Json.toDatum

end RowTree
