import RowTree.Proofs.Store.Catalog

/-!
This module contains what a store remembers of its calls. Of all calls on an empty store those
that succeed can be read back from it: the created tables in their order, and in each table what
the imports of its rows made (`Store.MadeBy.run`). This holds as well of a store whose parts are
updated one after the other (`Catalog.run_empty_history`).
-/

namespace RowTree

namespace Store

def Call.schema? : Call → Option Schema
  | .create schema => some schema
  | .add _ _ => none

def Call.entriesFor? (name : String) : Call → Option (List Entry)
  | .create _ => none
  | .add other entries => if other = name then some entries else none

/--
The store has a table for each created one and a row for each added one, and nothing else.
-/
structure MadeBy (store : Store) (calls : List Call) : Prop where
  nodup : store.names.Nodup
  names_eq : store.names = (calls.filterMap Call.schema?).map (·.name)
  entries_eq_nil : ∀ name, store.table? name = none → calls.filterMap (Call.entriesFor? name) = []
  schemas_eq : ∀ name table, store.table? name = some table →
    ∃ schema registry, (calls.filterMap Call.schema?).filter (·.name = name) = [schema] ∧
      schema.build = .ok (table.type, registry)
  imports_eq : ∀ name table, store.table? name = some table →
    (calls.filterMap (Call.entriesFor? name)).map (Record.empty table.type).importEntries =
      table.rows.map fun row => (row, [])

namespace MadeBy

variable {store : Store} {calls : List Call}

theorem empty : Store.empty.MadeBy [] where
  nodup := .nil
  names_eq := rfl
  entries_eq_nil _ _ := rfl
  schemas_eq _ _ := nofun
  imports_eq _ _ := nofun

theorem filter_schemas_eq_nil (h : store.MadeBy calls) {name : String}
    (hnone : store.table? name = none) :
    (calls.filterMap Call.schema?).filter (·.name = name) = [] := by
  rw [table?_eq_none_iff, h.names_eq] at hnone
  rw [List.filter_eq_nil_iff]
  intro schema hschema
  rw [decide_eq_true_iff]
  intro hname
  rw [← hname] at hnone
  exact hnone (List.mem_map_of_mem hschema)

theorem created (h : store.MadeBy calls) {schema : Schema} {type : RecordType}
    {registry : Registry} (hnew : store.table? schema.name = none)
    (hbuild : schema.build = .ok (type, registry)) :
    (store.appendTable type).MadeBy (calls ++ [Call.create schema]) := by
  have hname := name_of_build hbuild
  have hfree : store.table? type.name = none := by rwa [hname]
  have hschemas : (calls ++ [Call.create schema]).filterMap Call.schema? =
      calls.filterMap Call.schema? ++ [schema] := List.filterMap_append
  have hentries (name : String) :
      (calls ++ [Call.create schema]).filterMap (Call.entriesFor? name) =
        calls.filterMap (Call.entriesFor? name) := by
    rw [List.filterMap_append]
    exact List.append_nil _
  constructor
  · rw [names_appendTable, List.nodup_append]
    refine ⟨h.nodup, List.pairwise_singleton _ _, ?_⟩
    intro name hmem other hother heq
    rw [List.mem_singleton] at hother
    rw [heq, hother] at hmem
    exact table?_eq_none_iff.1 hfree hmem
  · rw [names_appendTable, hschemas, List.map_append, h.names_eq, hname]
    rfl
  · intro name hnone
    rw [table?_appendTable hfree] at hnone
    rw [hentries]
    split at hnone
    · cases hnone
    · exact h.entries_eq_nil name hnone
  · intro name table htable
    rw [hschemas, List.filter_append]
    rw [table?_appendTable hfree] at htable
    split at htable
    · next heq =>
      cases htable
      rw [heq, hname, h.filter_schemas_eq_nil hnew]
      exact ⟨schema, registry, by simp, hbuild⟩
    · next hne =>
      have hother : [schema].filter (·.name = name) = [] := by
        rw [hname] at hne
        simp [Ne.symm hne]
      rw [hother, List.append_nil]
      exact h.schemas_eq name table htable
  · intro name table htable
    rw [hentries]
    rw [table?_appendTable hfree] at htable
    split at htable
    · next heq =>
      -- nothing was added under the name before
      cases htable
      rw [← heq] at hfree
      rw [h.entries_eq_nil name hfree]
      rfl
    · exact h.imports_eq name table htable

theorem added (h : store.MadeBy calls) {name : String} {entries : List Entry} {table : Table}
    {row : Record} (hfind : store.table? name = some table)
    (himport : (Record.empty table.type).importEntries entries = (row, [])) :
    (store.appendRow name row).MadeBy (calls ++ [Call.add name entries]) := by
  have hschemas : (calls ++ [Call.add name entries]).filterMap Call.schema? =
      calls.filterMap Call.schema? := by
    rw [List.filterMap_append]
    exact List.append_nil _
  have hentries (other : String) :
      (calls ++ [Call.add name entries]).filterMap (Call.entriesFor? other) =
        calls.filterMap (Call.entriesFor? other) ++ if name = other then [entries] else [] := by
    rw [List.filterMap_append]
    congr 1
    by_cases heq : name = other <;> simp [Call.entriesFor?, heq]
  constructor
  · rw [names_appendRow]
    exact h.nodup
  · rw [names_appendRow, hschemas]
    exact h.names_eq
  · intro other hnone
    rw [table?_appendRow] at hnone
    rw [hentries]
    split at hnone
    · next heq =>
      rw [heq, hfind] at hnone
      cases hnone
    · next hne =>
      rw [if_neg (Ne.symm hne), List.append_nil]
      exact h.entries_eq_nil other hnone
  · intro other found hfound
    rw [hschemas]
    rw [table?_appendRow] at hfound
    split at hfound
    · next heq =>
      rw [heq, hfind] at hfound
      cases hfound
      rw [heq]
      exact h.schemas_eq name table hfind
    · exact h.schemas_eq other found hfound
  · intro other found hfound
    rw [hentries]
    rw [table?_appendRow] at hfound
    split at hfound
    · next heq =>
      rw [heq, hfind] at hfound
      cases hfound
      have himports := h.imports_eq name table hfind
      dsimp only [Table.append]
      rw [heq, if_pos rfl, List.map_append, List.map_append, himports, List.map_singleton, himport]
      rfl
    · next hne =>
      rw [if_neg (Ne.symm hne), List.append_nil]
      exact h.imports_eq other found hfound

/--
What a store says about the calls that made it is kept along a run, with the calls of the run that
succeed.
-/
theorem run {front : List Call} (h : store.MadeBy front) (calls : List Call) :
    (store.run calls).MadeBy (front ++ store.accepted calls) := by
  induction calls generalizing store front with
  | nil =>
    rw [accepted, List.append_nil]
    exact h
  | cons call rest ih =>
    have hstep := store.step call
    rw [Store.run, List.foldl_cons, accepted]
    generalize store.answer call = answer at hstep ⊢
    generalize store.apply call = larger at hstep ⊢
    cases hstep with
    | created hnew hbuild =>
      rw [List.append_cons]
      exact ih (h.created hnew hbuild)
    | added hfind himport =>
      rw [List.append_cons]
      exact ih (h.added hfind himport)
    | duplicate => exact ih h
    | rejected => exact ih h
    | unknown => exact ih h
    | refused => exact ih h

end MadeBy

/--
A refused row has the number that it would have had.
-/
theorem row_of_answer {store : Store} {call : Call} {name : String} {row : Nat}
    {errors : List EntryError} (h : store.answer call = .error (.entry name row errors)) :
    ∃ entries table, call = .add name entries ∧ store.table? name = some table ∧
      row = table.rows.length + 1 := by
  have hstep := store.step call
  rw [h] at hstep
  generalize store.apply call = larger at hstep
  cases hstep with
  | refused hfind => exact ⟨_, _, rfl, hfind, rfl⟩

end Store

namespace Catalog

theorem run_empty (fallback : Catalog → String → Outcome) (calls : List Store.Call) :
    empty.run fallback calls = (Store.empty.run calls).parts :=
  Store.empty.run_parts fallback calls

/--
After any calls on an empty store the parts are those of the store, whatever would be done for a
type without rows, and a further call does to both one of the steps that a store can take. The
names are distinct, they are those of the created tables in their order, and each has a type and
rows. The type of a table is the one that its only creation gives, and its rows are what the
imports of the added entries make of an empty record, in the order of the calls. A call that is
refused leaves the parts as they were, and an entry error carries the number of the row that was
not added.
-/
theorem run_empty_history (fallback : Catalog → String → Outcome) (calls : List Store.Call) :
    let catalog := empty.run fallback calls
    let store := Store.empty.run calls
    let accepted := Store.empty.accepted calls
    catalog = store.parts ∧
      (∀ call, catalog.call fallback call = (store.answer call, (store.apply call).parts) ∧
        store.Step call (store.answer call) (store.apply call)) ∧
      catalog.order.Nodup ∧
      catalog.order = (accepted.filterMap Store.Call.schema?).map (·.name) ∧
      (∀ name, name ∈ catalog.order ↔ (catalog.types name).isSome) ∧
      (∀ name, name ∈ catalog.order ↔ (catalog.rows name).isSome) ∧
      (∀ name type, catalog.types name = some type →
        ∃ schema registry,
          (accepted.filterMap Store.Call.schema?).filter (·.name = name) = [schema] ∧
            schema.build = .ok (type, registry)) ∧
      (∀ name type rows, catalog.types name = some type → catalog.rows name = some rows →
        (accepted.filterMap (Store.Call.entriesFor? name)).map (Record.empty type).importEntries =
          rows.map fun row => (row, [])) ∧
      ∀ call error, (catalog.call fallback call).1 = .error error →
        (catalog.call fallback call).2 = catalog ∧
          ∀ name row errors, error = .entry name row errors →
            ∃ entries rows, call = .add name entries ∧ catalog.rows name = some rows ∧
              row = rows.length + 1 := by
  intro catalog store accepted
  have hcatalog : catalog = store.parts := run_empty fallback calls
  have hmade : store.MadeBy accepted := Store.MadeBy.empty.run calls
  have hcall (call : Store.Call) :
      catalog.call fallback call = (store.answer call, (store.apply call).parts) := by
    rw [hcatalog, store.call_parts]
  have hnames (name : String) : name ∈ store.names ↔ (store.table? name).isSome := by
    rw [Option.isSome_iff_ne_none, ne_eq, Store.table?_eq_none_iff, not_not]
  refine ⟨hcatalog, fun call => ⟨hcall call, store.step call⟩, ?_⟩
  simp only [hcall]
  rw [hcatalog]
  refine ⟨hmade.nodup, hmade.names_eq, ?_, ?_, ?_, ?_, ?_⟩
  · intro name
    rw [store.types_parts, Option.isSome_map]
    exact hnames name
  · intro name
    rw [store.rows_parts, Option.isSome_map]
    exact hnames name
  · intro name type htype
    rw [store.types_parts, Option.map_eq_some_iff] at htype
    obtain ⟨table, htable, rfl⟩ := htype
    exact hmade.schemas_eq name table htable
  · intro name type rows htype hrows
    rw [store.types_parts, Option.map_eq_some_iff] at htype
    obtain ⟨table, htable, rfl⟩ := htype
    rw [store.rows_parts, htable, Option.map_some, Option.some.injEq] at hrows
    rw [← hrows]
    exact hmade.imports_eq name table htable
  · intro call error herror
    refine ⟨congrArg Store.parts (Store.apply_of_error herror), ?_⟩
    rintro name row errors rfl
    obtain ⟨entries, table, hentries, htable, hrow⟩ := Store.row_of_answer herror
    refine ⟨entries, table.rows, hentries, ?_, hrow⟩
    rw [store.rows_parts, htable]
    rfl

end Catalog

end RowTree
