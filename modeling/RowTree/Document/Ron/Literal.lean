import RowTree.Binary.Reader
import RowTree.Document.Datum

/-!
This module holds what stands in one piece in the object notation: names, strings, characters and
numbers, and the blanks between them. Comments count as blanks; comments between `/*` and `*/` may
contain further ones.
-/

namespace RowTree

namespace Ron

/-! ## Blanks and names -/

/--
Drop a comment behind its opening mark, where `depth` counts the comments around it.
-/
def blockComment (depth : Nat) : List Char → Option (List Char)
  | '*' :: '/' :: cs =>
    match depth with
    | 0 => some cs
    | depth + 1 => blockComment depth cs
  | '/' :: '*' :: cs => blockComment (depth + 1) cs
  | _ :: cs => blockComment depth cs
  | [] => none

def isBlank (c : Char) : Bool :=
  c == ' ' || c == '\n' || c == '\t' || c == '\r'

/--
Drop blanks and comments, at most as many as there is fuel. A comment that does not end is
refused.
-/
def skipWithin : Nat → List Char → Option (List Char)
  | 0, cs => some cs
  | fuel + 1, cs =>
    match cs.dropWhile isBlank with
    | '/' :: '/' :: cs => skipWithin fuel (cs.dropWhile (· != '\n'))
    | '/' :: '*' :: cs => (blockComment 0 cs).bind (skipWithin fuel)
    | '/' :: _ => none
    | cs => some cs

def skip (cs : List Char) : Option (List Char) :=
  skipWithin cs.length cs

def isNameStart (c : Char) : Bool :=
  c.isAlpha || c == '_'

def isNameChar (c : Char) : Bool :=
  c.isAlphanum || c == '_'

def isRawNameChar (c : Char) : Bool :=
  isNameChar c || c == '.' || c == '+' || c == '-'

/--
A name, which may have `r#` in front. A plain name must not run into characters that only the
other form may have.
-/
def name : TextReader String := fun cs =>
  match cs with
  | 'r' :: '\x22' :: _ => none
  | 'r' :: '#' :: rest =>
    let raw := rest.takeWhile isRawNameChar
    if raw = [] then none else some (String.ofList raw, rest.drop raw.length)
  | c :: _ =>
    let plain := cs.takeWhile isNameChar
    let rest := cs.drop plain.length
    if isNameStart c ∧ (rest.head?.any isRawNameChar) = false then
      some (String.ofList plain, rest)
    else
      none
  | [] => none

/-! ## Strings, characters and numbers -/

def braceCode : TextReader Nat := fun cs =>
  let places := cs.takeWhile (· != '\x7d')
  if places = [] ∨ 6 < places.length then
    none
  else
    match TextReader.hexValue? places, cs.drop places.length with
    | some code, _ :: cs => some (code, cs)
    | _, _ => none

def escape : TextReader Char
  | 'n' :: cs => some ('\n', cs)
  | 'r' :: cs => some ('\r', cs)
  | 't' :: cs => some ('\t', cs)
  | '0' :: cs => some ('\x00', cs)
  | '\x27' :: cs => some ('\x27', cs)
  | '\x22' :: cs => some ('\x22', cs)
  | '\\' :: cs => some ('\\', cs)
  | 'x' :: cs => do
    let (code, cs) ← TextReader.hex 2 cs
    let c ← TextReader.charOfCode? code
    some (c, cs)
  | 'u' :: '\x7b' :: cs => do
    let (code, cs) ← braceCode cs
    let c ← TextReader.charOfCode? code
    some (c, cs)
  | _ => none

def stringChars : Nat → TextReader (List Char)
  | 0, _ => none
  | _ + 1, [] => none
  | _ + 1, '\x22' :: cs => some ([], cs)
  | fuel + 1, '\\' :: cs => do
    let (c, cs) ← escape cs
    let (rest, cs) ← stringChars fuel cs
    some (c :: rest, cs)
  | fuel + 1, c :: cs => do
    let (rest, cs) ← stringChars fuel cs
    some (c :: rest, cs)

def rawChars (closing : List Char) : TextReader (List Char)
  | [] => none
  | c :: cs =>
    if c = '\x22' ∧ closing.isPrefixOf cs then
      some ([], cs.drop closing.length)
    else
      (rawChars closing cs).map fun (rest, cs) => (c :: rest, cs)

def string : TextReader String
  | '\x22' :: cs => (stringChars (cs.length + 1) cs).map fun (s, cs) => (String.ofList s, cs)
  | 'r' :: cs => do
    let marks := cs.takeWhile (· == '#')
    let ((), cs) ← TextReader.char '\x22' (cs.drop marks.length)
    let (s, cs) ← rawChars marks cs
    some (String.ofList s, cs)
  | _ => none

def character : TextReader Unit
  | '\x27' :: '\\' :: cs => do
    let (_, cs) ← escape cs
    TextReader.char '\x27' cs
  | '\x27' :: c :: '\x27' :: cs => if c = '\x27' then none else some ((), cs)
  | _ => none

/--
The value of digits of a base, which may have underscores behind the first one.
-/
def digits? (base : Nat) (cs : List Char) : Option Nat :=
  if cs = [] ∨ cs.head? = some '_' then
    none
  else
    (cs.filter (· ≠ '_')).foldlM
      (fun n c => ((TextReader.hexDigit? c).filter (· < base)).map (base * n + ·)) 0

/--
The value of an integer without its sign, in the base that its front names.
-/
def magnitude? : List Char → Option Nat
  | '0' :: 'x' :: cs => digits? 16 cs
  | '0' :: 'o' :: cs => digits? 8 cs
  | '0' :: 'b' :: cs => digits? 2 cs
  | cs => digits? 10 cs

/--
Whether a word is an integer of 64 bits, which have a sign if the word has one in front.
-/
def isInteger (sign? : Option Char) (word : List Char) : Bool :=
  let limit :=
    match sign? with
    | none => 0x10000000000000000
    | some '-' => 0x8000000000000001
    | some _ => 0x8000000000000000
  (magnitude? word).any (· < limit)

/--
Whether a word without its sign is a floating-point number. Its digits have no underscores among
them, and it may be too large for the format.
-/
def isFloat (word : List Char) : Bool :=
  !word.contains '_' && (Decimal.ofList? word).isSome

/--
A number. Behind a sign it may be infinite or none at all.
-/
def number : TextReader Unit := fun cs =>
  let sign? := cs.head?.filter fun c => c == '+' || c == '-'
  let unsigned := if sign?.isSome then cs.tail else cs
  let word := unsigned.takeWhile isRawNameChar
  let isNamed := word = ['i', 'n', 'f'] ∨ word = ['N', 'a', 'N']
  if isInteger sign? word ∨ isFloat word ∨ (sign?.isSome ∧ isNamed) then
    some ((), unsigned.drop word.length)
  else
    none

end Ron

end RowTree
