import RowTree.Record.Entries
import RowTree.Rule.Check
import RowTree.Schema.Build

/-!
This module holds stores: named tables with the type of their rows and the rows themselves. A row
is taken only if all its entries are, so that a refused row leaves the store as it was.
-/

namespace RowTree

/--
A table: the type of its rows, and the rows in the order in which they were added. The table has
the name of the type.
-/
structure Table where
  type : RecordType
  rows : List Record

def Table.name (table : Table) : String :=
  table.type.name

structure Store where
  tables : List Table

inductive StoreError where
  | unknownTable (table : String)
  | duplicateTable (table : String)
  | schema (error : SchemaError)
  | entry (table : String) (row : Nat) (errors : List EntryError)
  deriving DecidableEq, Repr

def StoreError.message : StoreError → String
  | .unknownTable table => "unknown table '" ++ table ++ "'"
  | .duplicateTable table => "table '" ++ table ++ "' already exists"
  | .schema error => error.message
  | .entry table row errors =>
    EntryError.listMessage errors ++ " -- at row " ++ indexText row ++ " in table " ++ table

namespace Store

def empty : Store :=
  ⟨[]⟩

def names (store : Store) : List String :=
  store.tables.map Table.name

def table? (store : Store) (name : String) : Option Table :=
  store.tables.find? (·.name == name)

def rows (store : Store) : Rows :=
  fun name => (store.table? name).map (·.rows)

def table (store : Store) (name : String) : Except StoreError Table :=
  match store.table? name with
  | some table => .ok table
  | none => .error (.unknownTable name)

/--
Add an empty table for a schema. Gives the type of its rows too.
-/
def create (store : Store) (schema : Schema) : Except StoreError (RecordType × Store) :=
  match store.table? schema.name with
  | some _ => .error (.duplicateTable schema.name)
  | none =>
    match schema.build with
    | .ok (type, _) => .ok (type, ⟨store.tables ++ [⟨type, []⟩]⟩)
    | .error error => .error (.schema error)

def add (store : Store) (name : String) (entries : List Entry) : Except StoreError Store := do
  let table ← store.table name
  let (row, errors) := (Record.empty table.type).importEntries entries
  if errors = [] then
    .ok ⟨store.tables.map fun other =>
      if other.name = name then { other with rows := other.rows ++ [row] } else other⟩
  else
    .error (.entry name (table.rows.length + 1) errors)

def project (store : Store) (name : String) (headers : List String) :
    Except StoreError (List (List (Option String))) := do
  let table ← store.table name
  .ok (table.rows.map fun row => headers.map fun header => row.readText? (Path.ofText header))

def check (store : Store) (rule : Rule) : Except RuleError Unit :=
  rule.check store.rows

theorem table?_eq_none_iff {store : Store} {name : String} :
    store.table? name = none ↔ name ∉ store.names := by
  simp [table?, names, List.find?_eq_none]

theorem name_of_build {schema : Schema} {type : RecordType} {registry : Registry}
    (h : schema.build = .ok (type, registry)) : type.name = schema.name := by
  simp only [Schema.build, bind, Except.bind] at h
  repeat' split at h <;> try cases h
  rfl

theorem names_of_create {store larger : Store} {schema : Schema} {type : RecordType}
    (h : store.create schema = .ok (type, larger)) :
    larger.names = store.names ++ [schema.name] ∧ schema.name ∉ store.names := by
  rw [create] at h
  split at h
  · cases h
  · next hnone =>
    split at h
    · next hbuild =>
      cases h
      refine ⟨?_, table?_eq_none_iff.1 hnone⟩
      simp [names, Table.name, name_of_build hbuild]
    · cases h

end Store

end RowTree
