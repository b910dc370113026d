import Mathlib.Logic.Function.Basic
import RowTree.Proofs.Store.Run

/-!
This module contains stores that keep their parts on their own: the names of the tables, the types
of their rows, and the rows. A call updates one part after the other. This does to the parts what
the call does to the store (`Store.call_parts`), so the parts stay in step.
-/

namespace RowTree

/--
The names of the tables in the order in which they were created, the types of the rows by name,
and the rows by name.
-/
structure Catalog where
  order : List String
  types : String → Option RecordType
  rows : Rows

namespace Catalog

/--
What a call answers, and the parts behind it.
-/
abbrev Outcome := Except StoreError (Option RecordType) × Catalog

def empty : Catalog where
  order := []
  types _ := none
  rows _ := none

/--
Create a table: its name is put at the end, then its type is set, then its rows.
-/
def create (catalog : Catalog) (schema : Schema) : Outcome :=
  match catalog.types schema.name with
  | some _ => (.error (.duplicateTable schema.name), catalog)
  | none =>
    match schema.build with
    | .error error => (.error (.schema error), catalog)
    | .ok (type, _) =>
      let named := { catalog with order := catalog.order ++ [schema.name] }
      let typed := { named with types := Function.update named.types schema.name (some type) }
      (.ok (some type), { typed with rows := Function.update typed.rows schema.name (some []) })

/--
Add a row to a table. The fallback is for a table that has a type but no rows.
-/
def add (fallback : Catalog → String → Outcome) (catalog : Catalog) (name : String)
    (entries : List Entry) : Outcome :=
  match catalog.types name with
  | none => (.error (.unknownTable name), catalog)
  | some type =>
    match catalog.rows name with
    | none => fallback catalog name
    | some rows =>
      let (row, errors) := (Record.empty type).importEntries entries
      if errors = [] then
        let larger := Function.update catalog.rows name (some (rows ++ [row]))
        (.ok none, { catalog with rows := larger })
      else
        (.error (.entry name (rows.length + 1) errors), catalog)

def call (fallback : Catalog → String → Outcome) (catalog : Catalog) : Store.Call → Outcome
  | .create schema => catalog.create schema
  | .add name entries => catalog.add fallback name entries

def run (fallback : Catalog → String → Outcome) (catalog : Catalog) (calls : List Store.Call) :
    Catalog :=
  calls.foldl (fun catalog call => (catalog.call fallback call).2) catalog

end Catalog

namespace Store

def parts (store : Store) : Catalog where
  order := store.names
  types name := (store.table? name).map (·.type)
  rows := store.rows

theorem types_parts (store : Store) (name : String) :
    store.parts.types name = (store.table? name).map (·.type) :=
  rfl

theorem rows_parts (store : Store) (name : String) :
    store.parts.rows name = (store.table? name).map (·.rows) :=
  rfl

theorem parts_appendTable {store : Store} {type : RecordType}
    (h : store.table? type.name = none) :
    (store.appendTable type).parts =
      { order := store.parts.order ++ [type.name]
        types := Function.update store.parts.types type.name (some type)
        rows := Function.update store.parts.rows type.name (some []) } := by
  unfold parts rows
  rw [names_appendTable, Catalog.mk.injEq]
  refine ⟨rfl, ?_, ?_⟩
  all_goals
    funext name
    rw [table?_appendTable h, Function.update_apply]
    split <;> rfl

theorem parts_appendRow {store : Store} {name : String} {table : Table} (row : Record)
    (h : store.table? name = some table) :
    (store.appendRow name row).parts =
      { store.parts with
        rows := Function.update store.parts.rows name (some (table.rows ++ [row])) } := by
  unfold parts rows
  rw [names_appendRow, Catalog.mk.injEq]
  refine ⟨rfl, ?_, ?_⟩
  · funext other
    rw [table?_appendRow]
    split
    · rw [Option.map_map]
      rfl
    · rfl
  · funext other
    rw [table?_appendRow, Function.update_apply]
    split
    · next heq =>
      rw [heq, h]
      rfl
    · rfl

/--
A call does to the parts of a store what it does to the store. The fallback is never used.
-/
theorem call_parts (fallback : Catalog → String → Catalog.Outcome) (store : Store) (call : Call) :
    store.parts.call fallback call = (store.answer call, (store.apply call).parts) := by
  have hstep := store.step call
  generalize store.answer call = answer at hstep ⊢
  generalize store.apply call = larger at hstep ⊢
  cases hstep with
  | @created schema type registry hnew hbuild =>
    have hname := name_of_build hbuild
    rw [← hname] at hnew
    rw [Catalog.call, Catalog.create, ← hname, types_parts, hnew, hbuild, parts_appendTable hnew]
    rfl
  | duplicate hfind =>
    rw [Catalog.call, Catalog.create, types_parts, hfind]
    rfl
  | rejected hnew hbuild =>
    rw [Catalog.call, Catalog.create, types_parts, hnew, hbuild]
    rfl
  | added hfind himport =>
    rw [Catalog.call, Catalog.add, types_parts, rows_parts, hfind]
    dsimp only [Option.map_some]
    rw [himport, parts_appendRow _ hfind]
    exact if_pos rfl
  | unknown hfind =>
    rw [Catalog.call, Catalog.add, types_parts, hfind]
    rfl
  | refused hfind himport hne =>
    rw [Catalog.call, Catalog.add, types_parts, rows_parts, hfind]
    dsimp only [Option.map_some]
    rw [himport]
    exact if_neg hne

theorem run_parts (fallback : Catalog → String → Catalog.Outcome) (store : Store)
    (calls : List Call) : store.parts.run fallback calls = (store.run calls).parts := by
  induction calls generalizing store with
  | nil => rfl
  | cons call rest ih =>
    have hrest := ih (store.apply call)
    rw [Catalog.run, List.foldl_cons, store.call_parts]
    exact hrest

end Store

end RowTree
