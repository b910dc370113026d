import RowTree.Document.Ron.Reader
import RowTree.Document.Toml.Reader
import RowTree.Project.Error

/-!
This module holds directories of declaration files. A file is found by its base name with one of
the four extensions, and its extension says how it is read.
-/

namespace RowTree

/-! ## Formats -/

inductive FileFormat where
  | ron
  | toml
  | json
  | csv
  deriving DecidableEq, Repr

namespace FileFormat

def all : List FileFormat :=
  [.ron, .toml, .json, .csv]

def extension : FileFormat → String
  | .ron => "ron"
  | .toml => "toml"
  | .json => "json"
  | .csv => "csv"

/--
The last component of a path, if it names a file. Empty components and single dots do not count.
-/
def fileName? (path : String) : Option (List Char) :=
  let components := (Text.pieces '/' path.toList).filter fun part => part ≠ [] ∧ part ≠ ['.']
  components.getLast?.filter (· ≠ ['.', '.'])

/--
What follows the last dot of a file name, unless that dot is its first character.
-/
def extension? (path : String) : Option String := do
  let name ← fileName? path
  let parts := Text.pieces '.' name
  if parts.length = 1 ∨ (parts.length = 2 ∧ parts.head? = some []) then
    none
  parts.getLast?.map String.ofList

def ofPath (path : String) : Except LoadError FileFormat :=
  match (extension? path).bind fun ext => all.find? (·.extension == ext) with
  | some format => .ok format
  | none => .error (.unsupportedFormat path)

end FileFormat

/-! ## Directories -/

inductive FileContent where
  | text (s : String)
  | bytes (data : ByteArray)
  | directory

/--
A directory with the name that messages give it.
-/
structure Directory where
  label : String
  files : List (String × FileContent)

namespace Directory

def maxNameSize : Nat :=
  255

/--
How many bytes a path may have, with the directory in front.
-/
def maxPathSize : Nat :=
  4095

/--
What a path leads to, where `here` are the names of the directories on the way. Empty names and
single dots stay, two dots go up, and a path may go on only behind a directory.
-/
def walk (directory : Directory) (here : List (List Char)) :
    List (List Char) → Except FileError FileContent
  | [] => .ok .directory
  | name :: rest =>
    if name = [] ∨ name = ['.'] then
      walk directory here rest
    else if name = ['.', '.'] then
      if here = [] then .error .notFound else walk directory here.dropLast rest
    else if maxNameSize < (String.ofList name).utf8ByteSize then
      .error .nameTooLong
    else
      let there := here ++ [name]
      match directory.files.lookup (String.ofList (Text.join '/' there)) with
      | none => .error .notFound
      | some .directory => walk directory there rest
      | some content => if rest = [] then .ok content else .error .notDirectory

/--
What stands under a path, which starts in the directory itself. Nothing is found outside of the
directory.
-/
def content (directory : Directory) (path : String) : Except FileError FileContent :=
  if path.toList.contains '\x00' then
    .error .invalidName
  else if maxPathSize < (directory.label ++ "/" ++ path).utf8ByteSize then
    .error .nameTooLong
  else if path.toList.head? = some '/' then
    .error .notFound
  else
    directory.walk [] (Text.pieces '/' path.toList)

def contains (directory : Directory) (path : String) : Bool :=
  (directory.content path).isOk

def text (directory : Directory) (file : String) : Except LoadError String :=
  match directory.content file with
  | .ok (.text s) => .ok s
  | .ok (.bytes data) =>
    match String.fromUTF8? data with
    | some s => .ok s
    | none => .error (.unreadable .notText)
  | .ok .directory => .error (.unreadable .isDirectory)
  | .error error => .error (.unreadable error)

def candidates (directory : Directory) (base : String) : List String :=
  (FileFormat.all.map fun format => base ++ "." ++ format.extension).filter
    directory.contains

/--
The file with this base name, if there is one. Two of them are refused.
-/
def find (directory : Directory) (base : String) : Except LoadError (Option String) :=
  match directory.candidates base with
  | [] => .ok none
  | [file] => .ok (some file)
  | first :: second :: _ => .error (.conflictingFormats first second)

def require (directory : Directory) (base : String) : Except LoadError String := do
  match ← directory.find base with
  | some file => .ok file
  | none => .error (.missingFile base directory.label)

end Directory

/-! ## Lists of declarations -/

/--
How a list of declarations is read: the name of the list in a TOML document, a declaration from a
group of named parts, which may be a list without names or not, and the declarations of
comma-separated text.
-/
structure ListReader (α : Type) where
  key : String
  ofDatum? : (positional : Bool) → Datum → Option α
  ofText : String → List α

namespace ListReader

def list {α : Type} (reader : ListReader α) (file : String) (positional : Bool)
    (datum? : Option Datum) : Except LoadError (List α) :=
  match datum?.bind (Datum.list? (reader.ofDatum? positional)) with
  | some declarations => .ok declarations
  | none => .error (.malformed file)

def ofFormat {α : Type} (reader : ListReader α) (file : String) (text : String) :
    FileFormat → Except LoadError (List α)
  | .ron => reader.list file false (Ron.ofText? text)
  | .json => reader.list file true (Datum.ofJsonText? text)
  | .toml =>
    match Toml.ofText? text with
    | none => .error (.malformed file)
    | some parts =>
      match parts.lookup reader.key with
      | none => .error (.missingKey file reader.key)
      | some datum => reader.list file true (some datum)
  | .csv => .ok (reader.ofText text)

def read {α : Type} (reader : ListReader α) (directory : Directory) (file : String) :
    Except LoadError (List α) := do
  let format ← FileFormat.ofPath file
  let text ← directory.text file
  reader.ofFormat file text format

end ListReader

end RowTree
