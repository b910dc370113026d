import RowTree.Project.Layout
import RowTree.Project.Manifest
import RowTree.Project.Rules

/-!
This module holds projects: all that is declared in the files of one directory, and the store with
the tables that are declared there.
-/

namespace RowTree

structure Project where
  tables : List ManifestEntry
  schemas : List Schema
  rules : List Rule

namespace Project

def loadSchema (directory : Directory) (table : String) : Except LoadError Schema := do
  let file ← directory.require (table ++ "_layout")
  let rows ← LayoutRow.reader.read directory file
  LayoutRow.toSchema table file rows

def loadSchemas (directory : Directory) : List ManifestEntry → Except LoadError (List Schema)
  | [] => .ok []
  | entry :: rest => do
    let schema ← loadSchema directory entry.name
    let schemas ← loadSchemas directory rest
    .ok (schema :: schemas)

def loadRules (directory : Directory) : Except LoadError (List Rule) := do
  match ← directory.find "rules" with
  | none => .ok []
  | some file =>
    let decls ← RuleDecl.reader.read directory file
    RuleDecl.toRules file 1 decls

def load (directory : Directory) : Except LoadError Project := do
  let file ← directory.require "tables"
  let tables ← ManifestEntry.reader.read directory file
  let schemas ← loadSchemas directory tables
  let rules ← loadRules directory
  .ok ⟨tables, schemas, rules⟩

/--
The schema of the first table of this name.
-/
def schema? (project : Project) (table : String) : Option Schema :=
  project.schemas.find? (·.name == table)

def createAll (store : Store) : List Schema → Except StoreError Store
  | [] => .ok store
  | schema :: rest => do
    let (_, larger) ← store.create schema
    createAll larger rest

def build (project : Project) : Except StoreError Store :=
  createAll .empty project.schemas

end Project

end RowTree
