import RowTree.Document.Toml.Literal
import RowTree.Document.Toml.Table

/-!
This module holds the reading of TOML documents: headers of tables and named values, one a line.
-/

namespace RowTree

namespace Toml

/-! ## Blanks and line ends -/

def skip (cs : List Char) : List Char :=
  cs.dropWhile fun c => c == ' ' || c == '\t'

def isPlain (c : Char) : Bool :=
  c == '\t' || (0x20 ≤ c.toNat && c.toNat != 0x7F)

def lineEnd? : List Char → Option (List Char)
  | '\n' :: cs => some cs
  | '\r' :: '\n' :: cs => some cs
  | _ => none

def comment (cs : List Char) : List Char :=
  match cs with
  | '#' :: cs => cs.dropWhile isPlain
  | cs => cs

def skipLinesWithin : Nat → List Char → List Char
  | 0, cs => cs
  | fuel + 1, cs =>
    let behind := comment (skip cs)
    match lineEnd? behind with
    | some cs => skipLinesWithin fuel cs
    | none => behind

def skipLines (cs : List Char) : List Char :=
  skipLinesWithin (cs.length + 1) cs

def endOfLine? (cs : List Char) : Option (List Char) :=
  match comment (skip cs) with
  | [] => some []
  | behind => lineEnd? behind

/-! ## Strings -/

def escape : TextReader Char
  | 'b' :: cs => some ('\x08', cs)
  | 't' :: cs => some ('\t', cs)
  | 'n' :: cs => some ('\n', cs)
  | 'f' :: cs => some ('\x0c', cs)
  | 'r' :: cs => some ('\r', cs)
  | '\x22' :: cs => some ('\x22', cs)
  | '\\' :: cs => some ('\\', cs)
  | 'u' :: cs => do
    let (code, cs) ← TextReader.hex 4 cs
    let c ← TextReader.charOfCode? code
    some (c, cs)
  | 'U' :: cs => do
    let (code, cs) ← TextReader.hex 8 cs
    let c ← TextReader.charOfCode? code
    some (c, cs)
  | _ => none

def basicChars : Nat → TextReader (List Char)
  | 0, _ => none
  | _ + 1, [] => none
  | _ + 1, '\x22' :: cs => some ([], cs)
  | fuel + 1, '\\' :: cs => do
    let (c, cs) ← escape cs
    let (rest, cs) ← basicChars fuel cs
    some (c :: rest, cs)
  | fuel + 1, c :: cs =>
    if isPlain c then do
      let (rest, cs) ← basicChars fuel cs
      some (c :: rest, cs)
    else
      none

def literalChars : TextReader (List Char)
  | [] => none
  | '\x27' :: cs => some ([], cs)
  | c :: cs =>
    if isPlain c then do
      let (rest, cs) ← literalChars cs
      some (c :: rest, cs)
    else
      none

def skipBlankLines : List Char → List Char
  | '\r' :: '\n' :: cs => skipBlankLines cs
  | c :: cs => if c = ' ' ∨ c = '\t' ∨ c = '\n' then skipBlankLines cs else c :: cs
  | [] => []

/--
The end of a string on several lines: up to two of its quotes may stand in front of the closing
three.
-/
def closing? (quote : Char) (cs : List Char) : Option (List Char × List Char) :=
  let quotes := (cs.takeWhile (· == quote)).take 5
  if 3 ≤ quotes.length then
    some (quotes.drop 3, cs.drop quotes.length)
  else
    none

/--
The characters of a string on several lines up to its closing quotes. Escapes count if the quote is
the double one; a backslash at the end of a line drops the line end and the blanks behind it.
-/
def multilineChars (quote : Char) : Nat → TextReader (List Char)
  | 0, _ => none
  | fuel + 1, cs =>
    match closing? quote cs with
    | some found => some found
    | none =>
      match lineEnd? cs with
      | some cs => (multilineChars quote fuel cs).map fun (rest, cs) => ('\n' :: rest, cs)
      | none =>
        match cs with
        | [] => none
        | c :: cs =>
          if c = '\\' ∧ quote = '\x22' then
            match lineEnd? (skip cs) with
            | some cs => multilineChars quote fuel (skipBlankLines cs)
            | none => do
              let (c, cs) ← escape cs
              let (rest, cs) ← multilineChars quote fuel cs
              some (c :: rest, cs)
          else if isPlain c then do
            let (rest, cs) ← multilineChars quote fuel cs
            some (c :: rest, cs)
          else
            none

def afterFirstLine (cs : List Char) : List Char :=
  (lineEnd? cs).getD cs

def string : TextReader String := fun cs =>
  let fuel := cs.length + 1
  let found :=
    match cs with
    | '\x22' :: '\x22' :: '\x22' :: cs => multilineChars '\x22' fuel (afterFirstLine cs)
    | '\x27' :: '\x27' :: '\x27' :: cs => multilineChars '\x27' fuel (afterFirstLine cs)
    | '\x22' :: cs => basicChars fuel cs
    | '\x27' :: cs => literalChars cs
    | _ => none
  found.map fun (s, cs) => (String.ofList s, cs)

/-! ## Names -/

def isNameChar (c : Char) : Bool :=
  c.isAlphanum || c == '_' || c == '-'

def simpleName : TextReader String := fun cs =>
  match cs with
  | '\x22' :: cs => (basicChars (cs.length + 1) cs).map fun (s, cs) => (String.ofList s, cs)
  | '\x27' :: cs => (literalChars cs).map fun (s, cs) => (String.ofList s, cs)
  | cs =>
    let plain := cs.takeWhile isNameChar
    if plain = [] then none else some (String.ofList plain, cs.drop plain.length)

/--
How many names a dotted name may have, and how many arrays and tables on one line may stand inside
each other.
-/
def maxDepth : Nat :=
  79

def names : Nat → TextReader (List String × String)
  | 0, _ => none
  | count + 1, cs => do
    let (first, cs) ← simpleName (skip cs)
    match skip cs with
    | '.' :: cs =>
      let ((path, last), cs) ← names count cs
      some ((first :: path, last), cs)
    | cs => some (([], first), cs)

def dottedName : TextReader (List String × String) :=
  names maxDepth

/-! ## Values -/

def elements (element : TextReader Node) : Nat → TextReader (List Node)
  | 0, _ => none
  | fuel + 1, cs =>
    match skipLines cs with
    | ']' :: cs => some ([], cs)
    | cs => do
      let (node, cs) ← element cs
      match skipLines cs with
      | ',' :: cs => (elements element fuel cs).map fun (rest, cs) => (node :: rest, cs)
      | ']' :: cs => some ([node], cs)
      | _ => none

def pairs (element : TextReader Node) : Nat → Items → TextReader Items
  | 0, _, _ => none
  | fuel + 1, items, cs => do
    let ((path, name), cs) ← dottedName cs
    let ((), cs) ← TextReader.char '=' cs
    let (node, cs) ← element (skip cs)
    let items ← items.insert path name node
    match skip cs with
    | ',' :: cs => pairs element fuel items cs
    | '\x7d' :: cs => some (items, cs)
    | _ => none

def inlineTable (element : TextReader Node) : TextReader Node := fun cs =>
  match skip cs with
  | '\x7d' :: cs => some (.table [], cs)
  | cs =>
    (pairs element (cs.length + 1) [] cs).map fun (items, cs) =>
      (.table (Item.toNodes items), cs)

def single : TextReader Node := fun cs =>
  match string cs with
  | some (s, cs) => some (.text s, cs)
  | none => literal cs

def value : Nat → TextReader Node
  | 0, cs => single cs
  | depth + 1, cs =>
    match cs with
    | '[' :: cs =>
      (elements (value depth) (cs.length + 1) cs).map fun (items, cs) => (.list items, cs)
    | '\x7b' :: cs => inlineTable (value depth) cs
    | cs => single cs

/-! ## Documents -/

def headerNames (brackets : List Char) : TextReader (List String × String) := fun cs => do
  let (names, cs) ← dottedName cs
  let cs ← TextReader.rest? brackets cs
  let cs ← endOfLine? cs
  some (names, cs)

/--
The lines from here on. `current` is the table that named values go to.
-/
def document : Nat → List String → Items → List Char → Option Items
  | 0, _, _, _ => none
  | fuel + 1, current, items, cs =>
    match skipLines cs with
    | [] => some items
    | '[' :: '[' :: cs => do
      let ((path, name), cs) ← headerNames [']', ']'] cs
      let items ← items.within path (·.append name)
      document fuel (path ++ [name]) items cs
    | '[' :: cs => do
      let ((path, name), cs) ← headerNames [']'] cs
      let items ← items.within path (·.define name)
      document fuel (path ++ [name]) items cs
    | cs => do
      let ((path, name), cs) ← dottedName cs
      let ((), cs) ← TextReader.char '=' cs
      let (node, cs) ← value maxDepth (skip cs)
      let cs ← endOfLine? cs
      let items ← items.within current (·.insert path name node)
      document fuel current items cs

/--
The parts of a document. A byte order mark in front is dropped.
-/
def ofText? (text : String) : Option (List (String × Datum)) := do
  let cs :=
    match text.toList with
    | '\ufeff' :: cs => cs
    | cs => cs
  let items ← document (cs.length + 1) [] [] cs
  Node.toParts? (Item.toNodes items)

end Toml

end RowTree
