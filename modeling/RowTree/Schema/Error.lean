import RowTree.Record.Text

/-!
This module holds the reasons why declarations cannot be turned into record types.
-/

namespace RowTree

inductive SchemaError where
  | dependency (table : String) (unresolved : List String) (culprits : List String) (passes : Nat)
  | unknownType (name : String) (referencedBy : String)
  | duplicateType (name : String)
  | missingObjectField (table : String) (object : String) (member : String)
      (candidates : List String)
  deriving DecidableEq, Repr

def SchemaError.message : SchemaError → String
  | .dependency table unresolved culprits passes =>
    "cannot build object type(s) " ++ ", ".intercalate unresolved ++ " in table '" ++ table ++
      "' after " ++ indexText passes ++ " pass(es); blocked by: " ++ ", ".intercalate culprits
  | .unknownType name referencedBy =>
    "unknown type '" ++ name ++ "' referenced by '" ++ referencedBy ++ "'"
  | .duplicateType name => "type '" ++ name ++ "' is already registered"
  | .missingObjectField table object member candidates =>
    "in table '" ++ table ++ "', object '" ++ object ++ "' member '" ++ member ++
      "' has no object field; declared fields: [" ++ ", ".intercalate candidates ++ "]"

end RowTree
