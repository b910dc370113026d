import RowTree.Document.Datum
import RowTree.Schema.Basic

/-!
This module holds schemas as JSON documents. A group may be written as the list of its parts, and
the lists of a schema may be missing.
-/

namespace RowTree

def FieldDecl.ofDatum? (datum : Datum) : Option FieldDecl := do
  match ← datum.parts? ⟨none, ["name", "type", "is_collection"], true⟩ with
  | [name, typeName, isCollection] =>
    let name ← Datum.required Datum.text? name
    let typeName ← Datum.required Datum.text? typeName
    let isCollection ← Datum.optional false Datum.flag? isCollection
    some ⟨name, typeName, isCollection⟩
  | _ => none

def ObjectDecl.ofDatum? (datum : Datum) : Option ObjectDecl := do
  match ← datum.parts? ⟨none, ["name", "members"], true⟩ with
  | [name, members] =>
    let name ← Datum.required Datum.text? name
    let members ← Datum.required (Datum.list? Datum.text?) members
    some ⟨name, members⟩
  | _ => none

def Schema.ofDatum? (datum : Datum) : Option Schema := do
  let names := ["name", "columns", "object_fields", "object_definitions"]
  match ← datum.parts? ⟨none, names, true⟩ with
  | [name, columns, objectFields, objects] =>
    let name ← Datum.required Datum.text? name
    let columns ← Datum.optional [] (Datum.list? FieldDecl.ofDatum?) columns
    let objectFields ← Datum.optional [] (Datum.list? FieldDecl.ofDatum?) objectFields
    let objects ← Datum.optional [] (Datum.list? ObjectDecl.ofDatum?) objects
    some ⟨name, columns, objectFields, objects⟩
  | _ => none

def Schema.ofJsonText? (text : String) : Option Schema :=
  (Datum.ofJsonText? text).bind Schema.ofDatum?

end RowTree
