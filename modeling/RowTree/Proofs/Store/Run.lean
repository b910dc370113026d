import RowTree.Store

/-!
This module contains the calls that a store may see. `Store.Step` says all that a call can do: it
appends a table or a row, or it is refused and leaves the store as it was. What each name stands
for afterwards is said in one equation (`Store.table?_appendTable`, `Store.table?_appendRow`).
-/

namespace RowTree

def Table.append (table : Table) (row : Record) : Table :=
  { table with rows := table.rows ++ [row] }

namespace Store

/--
A call from outside: the creation of a table, or a new row.
-/
inductive Call where
  | create (schema : Schema)
  | add (name : String) (entries : List Entry)

/--
The answer to a call and the store behind it, if the call is not refused. The answer to the
creation of a table is the type of its rows.
-/
def attempt (store : Store) : Call → Except StoreError (Option RecordType × Store)
  | .create schema => (store.create schema).map fun created => (some created.1, created.2)
  | .add name entries => (store.add name entries).map fun larger => (none, larger)

def answer (store : Store) (call : Call) : Except StoreError (Option RecordType) :=
  (store.attempt call).map (·.1)

def apply (store : Store) (call : Call) : Store :=
  match store.attempt call with
  | .ok attempted => attempted.2
  | .error _ => store

def run (store : Store) (calls : List Call) : Store :=
  calls.foldl apply store

def accepted (store : Store) : List Call → List Call
  | [] => []
  | call :: rest =>
    match store.answer call with
    | .ok _ => call :: (store.apply call).accepted rest
    | .error _ => (store.apply call).accepted rest

def appendTable (store : Store) (type : RecordType) : Store :=
  ⟨store.tables ++ [⟨type, []⟩]⟩

def appendRow (store : Store) (name : String) (row : Record) : Store :=
  ⟨store.tables.map fun table => if table.name = name then table.append row else table⟩

/-! ## The tables behind a call -/

theorem name_of_table? {store : Store} {name : String} {table : Table}
    (h : store.table? name = some table) : table.name = name := by
  simpa using List.find?_some h

theorem names_appendTable (store : Store) (type : RecordType) :
    (store.appendTable type).names = store.names ++ [type.name] := by
  simp [appendTable, names, Table.name]

theorem names_appendRow (store : Store) (name : String) (row : Record) :
    (store.appendRow name row).names = store.names := by
  unfold names appendRow
  rw [List.map_map]
  apply List.map_congr_left
  intro table _
  rw [Function.comp_apply]
  split <;> rfl

theorem table?_appendTable {store : Store} {type : RecordType}
    (h : store.table? type.name = none) (name : String) :
    (store.appendTable type).table? name =
      if name = type.name then some ⟨type, []⟩ else store.table? name := by
  unfold table? at *
  rw [appendTable, List.find?_append]
  by_cases hname : name = type.name
  · subst hname
    rw [h, if_pos rfl]
    simp [Table.name]
  · rw [if_neg hname]
    simp [Table.name, Ne.symm hname]

theorem table?_appendRow (store : Store) (name : String) (row : Record) (other : String) :
    (store.appendRow name row).table? other =
      if other = name then (store.table? other).map (·.append row) else store.table? other := by
  unfold table? appendRow
  have hname : ((·.name == other) ∘ fun table : Table =>
      if table.name = name then table.append row else table) = (·.name == other) := by
    funext table
    rw [Function.comp_apply]
    split <;> rfl
  rw [List.find?_map, hname]
  cases hfind : store.tables.find? (·.name == other) with
  | none => split <;> rfl
  | some table =>
    have htable : table.name = other := name_of_table? hfind
    rw [Option.map_some, htable]
    split <;> rfl

/-! ## What a call does -/

theorem add_eq_appendRow {store : Store} {name : String} {entries : List Entry} {table : Table}
    {row : Record} (hfind : store.table? name = some table)
    (himport : (Record.empty table.type).importEntries entries = (row, [])) :
    store.add name entries = .ok (store.appendRow name row) := by
  rw [add, Store.table, hfind]
  dsimp only [bind, Except.bind]
  rw [himport]
  exact if_pos rfl

theorem add_eq_error {store : Store} {name : String} {entries : List Entry}
    {table : Table} {row : Record} {errors : List EntryError}
    (hfind : store.table? name = some table)
    (himport : (Record.empty table.type).importEntries entries = (row, errors))
    (hne : errors ≠ []) :
    store.add name entries = .error (.entry name (table.rows.length + 1) errors) := by
  rw [add, Store.table, hfind]
  dsimp only [bind, Except.bind]
  rw [himport]
  exact if_neg hne

/--
All that a call can do: its answer, and the store behind it.
-/
inductive Step (store : Store) : Call → Except StoreError (Option RecordType) → Store → Prop where
  | created {schema : Schema} {type : RecordType} {registry : Registry}
      (hnew : store.table? schema.name = none) (hbuild : schema.build = .ok (type, registry)) :
      Step store (.create schema) (.ok (some type)) (store.appendTable type)
  | duplicate {schema : Schema} {table : Table}
      (hfind : store.table? schema.name = some table) :
      Step store (.create schema) (.error (.duplicateTable schema.name)) store
  | rejected {schema : Schema} {error : SchemaError}
      (hnew : store.table? schema.name = none) (hbuild : schema.build = .error error) :
      Step store (.create schema) (.error (.schema error)) store
  | added {name : String} {entries : List Entry} {table : Table} {row : Record}
      (hfind : store.table? name = some table)
      (himport : (Record.empty table.type).importEntries entries = (row, [])) :
      Step store (.add name entries) (.ok none) (store.appendRow name row)
  | unknown {name : String} {entries : List Entry} (hfind : store.table? name = none) :
      Step store (.add name entries) (.error (.unknownTable name)) store
  | refused {name : String} {entries : List Entry} {table : Table} {row : Record}
      {errors : List EntryError} (hfind : store.table? name = some table)
      (himport : (Record.empty table.type).importEntries entries = (row, errors))
      (hne : errors ≠ []) :
      Step store (.add name entries) (.error (.entry name (table.rows.length + 1) errors)) store

theorem step_create (store : Store) (schema : Schema) :
    store.Step (.create schema) (store.answer (.create schema)) (store.apply (.create schema)) := by
  rw [answer, apply, attempt, create]
  cases hfind : store.table? schema.name with
  | some table => exact .duplicate hfind
  | none =>
    cases hbuild : schema.build with
    | error error => exact .rejected hfind hbuild
    | ok built => exact .created hfind hbuild

theorem step_add (store : Store) (name : String) (entries : List Entry) :
    store.Step (.add name entries) (store.answer (.add name entries))
      (store.apply (.add name entries)) := by
  rw [answer, apply, attempt]
  cases hfind : store.table? name with
  | none =>
    rw [add, table, hfind]
    exact .unknown hfind
  | some table =>
    cases himport : (Record.empty table.type).importEntries entries with
    | mk row errors =>
      by_cases hnil : errors = []
      · subst hnil
        rw [add_eq_appendRow hfind himport]
        exact .added hfind himport
      · rw [add_eq_error hfind himport hnil]
        exact .refused hfind himport hnil

theorem step (store : Store) (call : Call) :
    store.Step call (store.answer call) (store.apply call) := by
  cases call with
  | create schema => exact store.step_create schema
  | add name entries => exact store.step_add name entries

theorem apply_of_error {store : Store} {call : Call} {error : StoreError}
    (h : store.answer call = .error error) : store.apply call = store := by
  have hstep := store.step call
  rw [h] at hstep
  generalize store.apply call = larger at hstep ⊢
  cases hstep <;> rfl

theorem answer_add_of_ok {store larger : Store} {name : String} {entries : List Entry}
    (h : store.add name entries = .ok larger) :
    store.answer (.add name entries) = .ok none ∧ store.apply (.add name entries) = larger := by
  rw [answer, apply, attempt, h]
  exact ⟨rfl, rfl⟩

theorem exists_row_of_add {store larger : Store} {name : String} {entries : List Entry}
    {table : Table} (hfind : store.table? name = some table)
    (h : store.add name entries = .ok larger) :
    ∃ row, (Record.empty table.type).importEntries entries = (row, []) ∧
      larger.table? name = some (table.append row) := by
  have hstep := store.step_add name entries
  rw [(answer_add_of_ok h).1, (answer_add_of_ok h).2] at hstep
  cases hstep with
  | added hfound himport =>
    rw [hfind, Option.some.injEq] at hfound
    subst hfound
    refine ⟨_, himport, ?_⟩
    rw [table?_appendRow, if_pos rfl, hfind]
    rfl

end Store

end RowTree
