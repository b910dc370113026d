import RowTree.Path

/-!
This module holds the targets of rules: a table and a dotted path into its rows, written with a
dot between them.
-/

namespace RowTree

inductive DeclarationError where
  | unknownKind (kind : String)
  | missingArgument (kind : String) (argument : String)
  | invalidTarget (text : String)
  | invalidBound (kind : String) (value : String)
  deriving DecidableEq, Repr

def DeclarationError.message : DeclarationError → String
  | .unknownKind kind => "unknown rule kind '" ++ kind ++ "'"
  | .missingArgument kind argument =>
    "rule '" ++ kind ++ "' is missing its " ++ argument ++ " argument"
  | .invalidTarget text => "rule target '" ++ text ++ "' must be of the form table.path"
  | .invalidBound kind value => "rule '" ++ kind ++ "' bound '" ++ value ++ "' is not an integer"

/--
A place in the rows of a table. The segments of the path are stored beside it, and cannot differ
from what it is cut into.
-/
structure Target where
  table : String
  path : String
  segments : Path
  segments_eq : segments = Path.ofText path
  deriving DecidableEq, Repr

namespace Target

def text (target : Target) : String :=
  target.table ++ "." ++ target.path

def ofPath (table path : String) : Target :=
  ⟨table, path, Path.ofText path, rfl⟩

@[simp]
theorem table_ofPath (table path : String) : (ofPath table path).table = table := rfl

@[simp]
theorem path_ofPath (table path : String) : (ofPath table path).path = path := rfl

@[simp]
theorem segments_ofPath (table path : String) : (ofPath table path).segments = Path.ofText path :=
  rfl

theorem segments_ne_nil (target : Target) : target.segments ≠ [] := by
  rw [target.segments_eq]
  exact Path.ofText_ne_nil _

theorem trim_of_mem_segments (target : Target) {segment : String} (h : segment ∈ target.segments) :
    Text.trim segment = segment := by
  rw [target.segments_eq] at h
  exact Path.trim_of_mem_ofText h

/--
Read a target. The table ends at the first dot, and neither part may be blank.
-/
def ofText (text : String) : Except DeclarationError Target :=
  let trimmed := Text.trimList text.toList
  let refusal := DeclarationError.invalidTarget (String.ofList trimmed)
  match Text.splitFirst? '.' trimmed with
  | none => .error refusal
  | some (before, after) =>
    let table := Text.trimList before
    let path := Text.trimList after
    if table = [] ∨ path = [] then
      .error refusal
    else
      .ok (.ofPath (String.ofList table) (String.ofList path))

end Target

end RowTree
