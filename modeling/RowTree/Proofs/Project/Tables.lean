import Mathlib.Data.List.Forall2
import RowTree.Project.Basic
import RowTree.Proofs.Project.Layout
import RowTree.Proofs.Schema.Declared
import RowTree.Proofs.Store.Run

/-!
This module contains what a loaded project makes of its manifest. There is a schema for each table
of the manifest, with its name (`Project.Complete`), whatever the files are read to. The tables are
created in this order (`Project.createAll_eq_ok_iff`), up to the first one that has the name of an
earlier one or whose schema makes no types (`Project.createAll_eq_error_iff`).
-/

namespace RowTree

/-! ## Creating a table -/

namespace Store

variable {store larger : Store} {schema : Schema} {type : RecordType} {error : StoreError}

def appendTables (store : Store) (types : List RecordType) : Store :=
  ⟨store.tables ++ types.map fun type => ⟨type, []⟩⟩

theorem appendTables_cons (store : Store) (type : RecordType) (rest : List RecordType) :
    store.appendTables (type :: rest) = (store.appendTable type).appendTables rest := by
  simp [appendTables, appendTable]

theorem create_of_mem (h : schema.name ∈ store.names) :
    store.create schema = .error (.duplicateTable schema.name) := by
  unfold create
  cases hfind : store.table? schema.name with
  | none => exact absurd h (table?_eq_none_iff.1 hfind)
  | some table => rfl

theorem create_of_not_mem (h : schema.name ∉ store.names) :
    store.create schema =
      match schema.build with
      | .ok (type, _) => .ok (type, store.appendTable type)
      | .error error => .error (.schema error) := by
  unfold create
  rw [table?_eq_none_iff.2 h]
  rfl

/--
Why a schema gives no table behind others, of which the names are given. That its name is taken is
noticed first.
-/
inductive Refuses (names : List String) (schema : Schema) : StoreError → Prop where
  | duplicate (h : schema.name ∈ names) : Refuses names schema (.duplicateTable schema.name)
  | rejected {error : SchemaError} (hnew : schema.name ∉ names)
      (hbuild : schema.build = .error error) : Refuses names schema (.schema error)

theorem create_eq_error_iff :
    store.create schema = .error error ↔ Refuses store.names schema error := by
  by_cases hmem : schema.name ∈ store.names
  · rw [create_of_mem hmem, Except.error.injEq]
    constructor
    · rintro rfl
      exact .duplicate hmem
    · rintro (_ | ⟨hnew, _⟩)
      · rfl
      · exact absurd hmem hnew
  · rw [create_of_not_mem hmem]
    constructor
    · intro h
      cases hbuild : schema.build with
      | ok built =>
        rw [hbuild] at h
        cases h
      | error reason =>
        rw [hbuild] at h
        cases h
        exact .rejected hmem hbuild
    · rintro (h | ⟨_, hbuild⟩)
      · exact absurd h hmem
      · rw [hbuild]

theorem create_eq_ok_iff :
    store.create schema = .ok (type, larger) ↔
      schema.name ∉ store.names ∧ (∃ registry, schema.build = .ok (type, registry)) ∧
        larger = store.appendTable type := by
  by_cases hmem : schema.name ∈ store.names
  · rw [create_of_mem hmem]
    simp [hmem]
  · rw [create_of_not_mem hmem, and_iff_right hmem]
    cases schema.build with
    | error => simp
    | ok built =>
      obtain ⟨root, registry⟩ := built
      simp only [Except.ok.injEq, Prod.mk.injEq, exists_eq_right']
      constructor
      · rintro ⟨rfl, rfl⟩
        exact ⟨rfl, rfl⟩
      · rintro ⟨rfl, rfl⟩
        exact ⟨rfl, rfl⟩

end Store

/-! ## Creating tables one after the other -/

namespace Project

variable {store larger : Store} {schema : Schema} {schemas : List Schema} {types : List RecordType}

def MakesTypes (schemas : List Schema) (types : List RecordType) : Prop :=
  List.Forall₂ (fun schema type => ∃ registry, schema.build = .ok (type, registry)) schemas types

/--
The schema at a place is refused behind the tables of these names and the schemas in front of it.
-/
def RefusedAt (names : List String) (schemas : List Schema) (i : Nat) (error : StoreError) : Prop :=
  ∃ schema, schemas[i]? = some schema ∧
    Store.Refuses (names ++ (schemas.take i).map (·.name)) schema error

theorem refusedAt_zero_iff {names : List String} {error : StoreError} :
    RefusedAt names (schema :: schemas) 0 error ↔ Store.Refuses names schema error := by
  simp [RefusedAt]

theorem refusedAt_succ_iff {names : List String} {i : Nat} {error : StoreError} :
    RefusedAt names (schema :: schemas) (i + 1) error ↔
      RefusedAt (names ++ [schema.name]) schemas i error := by
  simp [RefusedAt]

theorem createAll_cons_of_ok {type : RecordType} (h : store.create schema = .ok (type, larger)) :
    createAll store (schema :: schemas) = createAll larger schemas := by
  rw [createAll, h]
  rfl

theorem createAll_cons_of_error {error : StoreError} (h : store.create schema = .error error) :
    createAll store (schema :: schemas) = .error error := by
  rw [createAll, h]
  rfl

theorem createAll_cons_eq_ok_iff :
    createAll store (schema :: schemas) = .ok larger ↔
      ∃ type, schema.name ∉ store.names ∧ (∃ registry, schema.build = .ok (type, registry)) ∧
        createAll (store.appendTable type) schemas = .ok larger := by
  cases hcreate : store.create schema with
  | error error =>
    rw [createAll_cons_of_error hcreate]
    simp only [reduceCtorEq, false_iff]
    rintro ⟨type, hnew, hbuild, _⟩
    rw [Store.create_eq_ok_iff.2 ⟨hnew, hbuild, rfl⟩] at hcreate
    cases hcreate
  | ok created =>
    obtain ⟨type, next⟩ := created
    rw [createAll_cons_of_ok hcreate]
    obtain ⟨hnew, ⟨registry, hbuild⟩, rfl⟩ := Store.create_eq_ok_iff.1 hcreate
    simp [hnew, hbuild]

theorem createAll_eq_ok_iff :
    createAll store schemas = .ok larger ↔
      ((schemas.map (·.name)).Nodup ∧ (schemas.map (·.name)).Disjoint store.names) ∧
        ∃ types, MakesTypes schemas types ∧ larger = store.appendTables types := by
  induction schemas generalizing store with
  | nil => simp [createAll, MakesTypes, Store.appendTables, eq_comm]
  | cons schema rest ih =>
    -- the table in front has the name of its schema, which the others may not have then
    have hnames {type : RecordType} (hbuild : ∃ registry, schema.build = .ok (type, registry)) :
        (rest.map (·.name)).Disjoint (store.appendTable type).names ↔
          (rest.map (·.name)).Disjoint (schema.name :: store.names) := by
      obtain ⟨registry, hbuild⟩ := hbuild
      rw [Store.names_appendTable, Store.name_of_build hbuild]
      exact List.Perm.disjoint_right (List.perm_append_singleton _ _)
    rw [createAll_cons_eq_ok_iff, List.map_cons, Schema.nodup_disjoint_cons_iff]
    simp only [ih, MakesTypes, List.forall₂_cons_left_iff]
    constructor
    · rintro ⟨type, hnew, hbuild, ⟨hnodup, hdisjoint⟩, types, hmade, rfl⟩
      refine ⟨⟨hnew, hnodup, (hnames hbuild).1 hdisjoint⟩, _, ⟨type, types, hbuild, hmade, rfl⟩, ?_⟩
      rw [Store.appendTables_cons]
    · rintro ⟨⟨hnew, hnodup, hdisjoint⟩, _, ⟨type, types, hbuild, hmade, rfl⟩, rfl⟩
      refine ⟨type, hnew, hbuild, ⟨hnodup, (hnames hbuild).2 hdisjoint⟩, types, hmade, ?_⟩
      rw [Store.appendTables_cons]

theorem createAll_eq_error_iff {error : StoreError} :
    createAll store schemas = .error error ↔
      ∃ i, RefusedAt store.names schemas i error ∧
        ∀ j < i, ∀ other, ¬RefusedAt store.names schemas j other := by
  induction schemas generalizing store with
  | nil => simp [createAll, RefusedAt]
  | cons schema rest ih =>
    cases hcreate : store.create schema with
    | error reason =>
      rw [createAll_cons_of_error hcreate, Except.error.injEq]
      have hrefused : RefusedAt store.names (schema :: rest) 0 reason :=
        refusedAt_zero_iff.2 (Store.create_eq_error_iff.1 hcreate)
      constructor
      · rintro rfl
        exact ⟨0, hrefused, nofun⟩
      · rintro ⟨i, hi, hfirst⟩
        cases i with
        | zero =>
          rw [refusedAt_zero_iff, ← Store.create_eq_error_iff, hcreate] at hi
          exact Except.error.inj hi
        | succ i => exact absurd hrefused (hfirst 0 i.succ_pos reason)
    | ok created =>
      obtain ⟨type, larger⟩ := created
      have hnames := (Store.names_of_create hcreate).1
      have hnone : ∀ other, ¬RefusedAt store.names (schema :: rest) 0 other := by
        intro other hother
        rw [refusedAt_zero_iff, ← Store.create_eq_error_iff, hcreate] at hother
        cases hother
      -- nothing is refused in front, so each refusal among the others is one place further on
      rw [createAll_cons_of_ok hcreate, ih, hnames]
      simp only [← refusedAt_succ_iff]
      constructor
      · rintro ⟨i, hi, hfirst⟩
        refine ⟨i + 1, hi, fun j hj => ?_⟩
        cases j with
        | zero => exact hnone
        | succ j => exact hfirst j (Nat.lt_of_succ_lt_succ hj)
      · rintro ⟨i, hi, hfirst⟩
        cases i with
        | zero => exact absurd hi (hnone error)
        | succ i => exact ⟨i, hi, fun j hj => hfirst (j + 1) (Nat.succ_lt_succ hj)⟩

theorem MakesTypes.names_eq (h : MakesTypes schemas types) :
    types.map (·.name) = schemas.map (·.name) := by
  induction h with
  | nil => rfl
  | cons hbuild _ ih =>
    obtain ⟨registry, hbuild⟩ := hbuild
    rw [List.map_cons, List.map_cons, Store.name_of_build hbuild, ih]

theorem MakesTypes.exists_find? (h : MakesTypes schemas types) {name : String}
    (hname : name ∈ schemas.map (·.name)) :
    ∃ schema type registry, schemas.find? (·.name == name) = some schema ∧
      schema.build = .ok (type, registry) ∧
      (Store.empty.appendTables types).table? name = some ⟨type, []⟩ := by
  unfold Store.table? Store.appendTables Store.empty
  rw [List.nil_append]
  induction h with
  | nil => cases hname
  | @cons schema type _ _ hbuild _ ih =>
    obtain ⟨registry, hbuild⟩ := hbuild
    have htable : (⟨type, []⟩ : Table).name = schema.name := Store.name_of_build hbuild
    rw [List.map_cons, List.find?_cons, List.find?_cons, htable]
    by_cases hfirst : schema.name = name
    · rw [beq_iff_eq.2 hfirst]
      exact ⟨schema, type, registry, rfl, hbuild, rfl⟩
    · rw [beq_eq_false_iff_ne.2 hfirst]
      exact ih ((List.mem_cons.1 hname).resolve_left (Ne.symm hfirst))

theorem exists_makesTypes_iff :
    (∃ types, MakesTypes schemas types) ↔
      ∀ schema ∈ schemas, ∃ type registry, schema.build = .ok (type, registry) := by
  constructor
  · rintro ⟨types, h⟩
    induction h with
    | nil => exact nofun
    | cons hbuild _ ih => exact List.forall_mem_cons.2 ⟨⟨_, hbuild⟩, ih⟩
  · intro h
    choose! type htype using h
    exact ⟨schemas.map type, List.forall₂_map_right_iff.2 (List.forall₂_same.2 htype)⟩

/-! ## Loading -/

/--
What the files of a project are read to: for each file a list of declarations or an error.
-/
structure Reading where
  manifest : String → Except LoadError (List ManifestEntry)
  layout : String → Except LoadError (List LayoutRow)
  rules : String → Except LoadError (List RuleDecl)

def Reading.ofDirectory (directory : Directory) : Reading where
  manifest := ManifestEntry.reader.read directory
  layout := LayoutRow.reader.read directory
  rules := RuleDecl.reader.read directory

def loadSchemaBy (directory : Directory) (reading : Reading) (table : String) :
    Except LoadError Schema := do
  let file ← directory.require (table ++ "_layout")
  let rows ← reading.layout file
  LayoutRow.toSchema table file rows

def loadSchemasBy (directory : Directory) (reading : Reading) :
    List ManifestEntry → Except LoadError (List Schema)
  | [] => .ok []
  | entry :: rest => do
    let schema ← loadSchemaBy directory reading entry.name
    let schemas ← loadSchemasBy directory reading rest
    .ok (schema :: schemas)

def loadRulesBy (directory : Directory) (reading : Reading) : Except LoadError (List Rule) := do
  match ← directory.find "rules" with
  | none => .ok []
  | some file =>
    let decls ← reading.rules file
    RuleDecl.toRules file 1 decls

/--
Load a project from files that are read in any way.
-/
def loadBy (directory : Directory) (reading : Reading) : Except LoadError Project := do
  let file ← directory.require "tables"
  let tables ← reading.manifest file
  let schemas ← loadSchemasBy directory reading tables
  let rules ← loadRulesBy directory reading
  .ok ⟨tables, schemas, rules⟩

theorem loadSchemasBy_ofDirectory (directory : Directory) (tables : List ManifestEntry) :
    loadSchemasBy directory (.ofDirectory directory) tables = loadSchemas directory tables := by
  induction tables with
  | nil => rfl
  | cons entry rest ih =>
    rw [loadSchemasBy, loadSchemas, ih]
    rfl

theorem loadBy_ofDirectory (directory : Directory) :
    loadBy directory (.ofDirectory directory) = load directory := by
  unfold loadBy load
  simp only [loadSchemasBy_ofDirectory]
  rfl

theorem exists_of_bind_eq_ok {α β : Type} {first : Except LoadError α}
    {next : α → Except LoadError β} {b : β} (h : (first >>= next) = .ok b) :
    ∃ a, first = .ok a ∧ next a = .ok b := by
  cases first with
  | error error => cases h
  | ok a => exact ⟨a, rfl, h⟩

variable {directory : Directory} {reading : Reading} {project : Project}

theorem name_of_loadSchemaBy {table : String}
    (h : loadSchemaBy directory reading table = .ok schema) : schema.name = table := by
  obtain ⟨file, _, h⟩ := exists_of_bind_eq_ok h
  obtain ⟨rows, _, h⟩ := exists_of_bind_eq_ok h
  exact (LayoutRow.toSchema_eq_ok_iff.1 h).2.name

theorem names_of_loadSchemasBy {tables : List ManifestEntry}
    (h : loadSchemasBy directory reading tables = .ok schemas) :
    schemas.map (·.name) = tables.map (·.name) := by
  induction tables generalizing schemas with
  | nil =>
    cases h
    rfl
  | cons entry rest ih =>
    obtain ⟨schema, hschema, h⟩ := exists_of_bind_eq_ok h
    obtain ⟨others, hothers, h⟩ := exists_of_bind_eq_ok h
    cases h
    rw [List.map_cons, List.map_cons, name_of_loadSchemaBy hschema, ih hothers]

theorem names_of_loadBy (h : loadBy directory reading = .ok project) :
    project.schemas.map (·.name) = project.tables.map (·.name) := by
  obtain ⟨file, _, h⟩ := exists_of_bind_eq_ok h
  obtain ⟨tables, _, h⟩ := exists_of_bind_eq_ok h
  obtain ⟨schemas, hschemas, h⟩ := exists_of_bind_eq_ok h
  obtain ⟨rules, _, h⟩ := exists_of_bind_eq_ok h
  cases h
  exact names_of_loadSchemasBy hschemas

/-! ## The tables of a project -/

/--
There is one schema for each table of the manifest, at its place and with its name.
-/
structure Complete (project : Project) : Prop where
  length_eq : project.schemas.length = project.tables.length
  name_eq : ∀ (i : Nat) (schema : Schema) (entry : ManifestEntry),
    project.schemas[i]? = some schema → project.tables[i]? = some entry → schema.name = entry.name

/--
The store has the tables of the manifest in their order. They are empty, and each has the type that
the schema of its name makes.
-/
structure SetsUp (project : Project) (store : Store) : Prop where
  names_eq : store.names = project.tables.map (·.name)
  rows_eq_nil : ∀ table ∈ store.tables, table.rows = []
  type_eq : ∀ name ∈ store.names, ∃ schema type registry, project.schema? name = some schema ∧
    schema.build = .ok (type, registry) ∧ store.table name = .ok ⟨type, []⟩

theorem complete_of_names_eq (h : project.schemas.map (·.name) = project.tables.map (·.name)) :
    project.Complete := by
  refine ⟨by simpa using congrArg List.length h, fun i schema entry hschema hentry => ?_⟩
  have hname := congrArg (·[i]?) h
  simpa [hschema, hentry] using hname

theorem build_eq_ok_iff {store : Store} :
    project.build = .ok store ↔
      (project.schemas.map (·.name)).Nodup ∧
        ∃ types, MakesTypes project.schemas types ∧ store = Store.empty.appendTables types := by
  unfold build
  rw [createAll_eq_ok_iff]
  simp [Store.empty, Store.names]

theorem exists_build_eq_ok_iff :
    (∃ store, project.build = .ok store) ↔
      (project.schemas.map (·.name)).Nodup ∧
        ∀ schema ∈ project.schemas, ∃ type registry, schema.build = .ok (type, registry) := by
  rw [← exists_makesTypes_iff]
  simp only [build_eq_ok_iff, exists_and_left]
  refine and_congr_right fun _ => ?_
  rw [exists_comm]
  simp

theorem setsUp_of_build {store : Store}
    (hnames : project.schemas.map (·.name) = project.tables.map (·.name))
    (h : project.build = .ok store) : project.SetsUp store := by
  obtain ⟨_, types, hmakes, rfl⟩ := build_eq_ok_iff.1 h
  have hstore : (Store.empty.appendTables types).names = project.schemas.map (·.name) := by
    rw [← hmakes.names_eq]
    simp [Store.names, Store.appendTables, Store.empty, Table.name]
  refine ⟨hstore.trans hnames, ?_, fun name hname => ?_⟩
  · simp [Store.appendTables, Store.empty]
  · rw [hstore] at hname
    obtain ⟨schema, type, registry, hfound, hbuild, htable⟩ := hmakes.exists_find? hname
    refine ⟨schema, type, registry, hfound, hbuild, ?_⟩
    rw [Store.table, htable]

/--
Every end of a build of a loaded project, whatever its files are read to: a store with the tables of
the manifest, if their names are distinct and all schemas make types, or else the reason why the
first schema is refused that is.
-/
theorem build_of_load (directory : Directory) :
    loadBy directory (.ofDirectory directory) = load directory ∧
      ∀ reading project, loadBy directory reading = .ok project →
        project.Complete ∧
        ((∃ store, project.build = .ok store) ↔
          (project.tables.map (·.name)).Nodup ∧
            ∀ schema ∈ project.schemas, ∃ type registry, schema.build = .ok (type, registry)) ∧
        (∀ store, project.build = .ok store → project.SetsUp store) ∧
        ∀ error, project.build = .error error ↔
          ∃ i, RefusedAt [] project.schemas i error ∧
            ∀ j < i, ∀ other, ¬RefusedAt [] project.schemas j other := by
  refine ⟨loadBy_ofDirectory directory, fun reading project h => ?_⟩
  have hnames := names_of_loadBy h
  refine ⟨complete_of_names_eq hnames, ?_, fun store => setsUp_of_build hnames, fun error => ?_⟩
  · rw [← hnames]
    exact exists_build_eq_ok_iff
  · exact createAll_eq_error_iff

/--
A directory with this manifest and two layouts, of which the second one names no known type.
-/
def players (manifest : String) : Directory where
  label := "players"
  files := [("tables.csv", .text manifest),
    ("Player_layout.csv", .text "kind,name,type,extra\ncolumn,id,string\ncolumn,tags,array,int\n"),
    ("Guild_layout.csv", .text "kind,name,type\ncolumn,lead,Player\n")]

theorem build_of_load_players :
    let player : Schema := ⟨"Player", [⟨"id", "string", false⟩, ⟨"tags", "int", true⟩], [], []⟩
    let guild : Schema := ⟨"Guild", [⟨"lead", "Player", false⟩], [], []⟩
    let one : Project := ⟨[⟨"Player", "byId", "id"⟩], [player], []⟩
    let three : Project :=
      ⟨[⟨"Player", "", ""⟩, ⟨"Guild", "", ""⟩, ⟨"Player", "", ""⟩], [player, guild, player], []⟩
    let unknown := StoreError.schema (.unknownType "Player" "Guild.lead")
    let directory := players "Player,byId,id\n"
    let larger := players "Player\nGuild\nPlayer\n"
    (loadBy directory (.ofDirectory directory) = .ok one ∧ one.Complete ∧
        ∃ store, one.build = .ok store ∧ one.SetsUp store) ∧
      loadBy larger (.ofDirectory larger) = .ok three ∧ three.build = .error unknown ∧
        ∃ i, RefusedAt [] three.schemas i unknown ∧
          ∀ j < i, ∀ other, ¬RefusedAt [] three.schemas j other := by
  intro player guild one three unknown directory larger
  have hone : loadBy directory (.ofDirectory directory) = .ok one := rfl
  have hthree : loadBy larger (.ofDirectory larger) = .ok three := rfl
  have herror : three.build = .error unknown := by
    have hreason : (match three.build with | .ok _ => none | .error error => some error) =
        some unknown := by decide +kernel
    split at hreason
    · cases hreason
    · next error hbuild => rw [hbuild, Option.some.inj hreason]
  obtain ⟨hcomplete, _, hsets, _⟩ := (build_of_load directory).2 _ _ hone
  obtain ⟨_, _, _, hfirst⟩ := (build_of_load larger).2 _ _ hthree
  refine ⟨⟨hone, hcomplete, ?_⟩, hthree, herror, (hfirst unknown).1 herror⟩
  have hbuild : one.build.isOk = true := by decide +kernel
  cases hstore : one.build with
  | error error =>
    rw [hstore] at hbuild
    cases hbuild
  | ok store => exact ⟨store, rfl, hsets store hstore⟩

end Project

end RowTree
