import RowTree.Store

/-!
This module holds the reasons why a project cannot be loaded.
-/

namespace RowTree

inductive FileError where
  | notFound
  | notText
  | isDirectory
  | notDirectory
  | nameTooLong
  | invalidName
  deriving DecidableEq, Repr

def FileError.message : FileError → String
  | .notFound => "file not found"
  | .notText => "file is not text in UTF-8"
  | .isDirectory => "file is a directory"
  | .notDirectory => "path goes on behind a file"
  | .nameTooLong => "file name is too long"
  | .invalidName => "file name is invalid"

inductive LoadError where
  | missingFile (base : String) (directory : String)
  | unsupportedFormat (file : String)
  | conflictingFormats (first : String) (second : String)
  | malformed (file : String)
  | missingKey (file : String) (key : String)
  | missingElementType (file : String) (field : String)
  | invalidLayoutKinds (file : String) (kinds : List String)
  | rule (file : String) (index : Nat) (error : DeclarationError)
  | store (error : StoreError)
  | unreadable (error : FileError)
  deriving DecidableEq, Repr

def LoadError.message : LoadError → String
  | .missingFile base directory => "required file '" ++ base ++ "' not found in " ++ directory
  | .unsupportedFormat file => "unsupported format for file: " ++ file
  | .conflictingFormats first second => "conflicting formats: " ++ first ++ " and " ++ second
  | .malformed file => "parse error in " ++ file
  | .missingKey file key =>
    "parse error in " ++ file ++ ": missing key '" ++ key ++ "' in TOML file"
  | .missingElementType file field =>
    "parse error in " ++ file ++ ": array field '" ++ field ++ "' has no element type"
  | .invalidLayoutKinds file kinds =>
    "invalid layout kinds in " ++ file ++ ": " ++ ", ".intercalate kinds
  | .rule file index error =>
    "rule " ++ indexText index ++ " in " ++ file ++ ": " ++ error.message
  | .store error => error.message
  | .unreadable error => error.message

end RowTree
