import RowTree.Text.Integer
import RowTree.Text.Pieces
import RowTree.Text.Reader

/-!
This module holds JSON values, the reading of JSON text and the quoting of strings. Numbers are
kept as they are written, so that whoever needs one chooses how to round it.
-/

namespace RowTree

/--
A number as JSON writes it: digits in front of the point, digits behind it, and an exponent, where
a missing part is empty.
-/
structure JsonNumber where
  negative : Bool
  whole : List Char
  fraction : List Char
  exponent? : Option Int
  deriving Repr

/--
A JSON value. A string or a name without a text is written with half of a surrogate pair, which is
no character.
-/
inductive Json where
  | null
  | bool (b : Bool)
  | number (n : JsonNumber)
  | string (text? : Option String)
  | array (items : List Json)
  | object (members : List (Option String × Json))

namespace Json

/-! ## Reading -/

def skipBlanks (cs : List Char) : List Char :=
  cs.dropWhile fun c => c == ' ' || c == '\n' || c == '\t' || c == '\r'

def escapeCode? : Char → Option Nat
  | '\x22' => some 0x22
  | '\\' => some 0x5C
  | '/' => some 0x2F
  | 'b' => some 0x8
  | 'f' => some 0xC
  | 'n' => some 0xA
  | 'r' => some 0xD
  | 't' => some 0x9
  | _ => none

def codes : TextReader (List Nat)
  | [] => none
  | '\x22' :: cs => some ([], cs)
  | '\\' :: 'u' :: a :: b :: c :: d :: cs => do
    let code ← TextReader.hexValue? [a, b, c, d]
    let (rest, cs) ← codes cs
    some (code :: rest, cs)
  | '\\' :: c :: cs => do
    let code ← escapeCode? c
    let (rest, cs) ← codes cs
    some (code :: rest, cs)
  | c :: cs =>
    if c.toNat < 0x20 ∨ c = '\\' then
      none
    else do
      let (rest, cs) ← codes cs
      some (c.toNat :: rest, cs)

/--
The characters of the codes. Two codes of a surrogate pair are one character.
-/
def charsOfCodes? : List Nat → Option (List Char)
  | [] => some []
  | high :: low :: rest =>
    if 0xD800 ≤ high ∧ high < 0xDC00 ∧ 0xDC00 ≤ low ∧ low < 0xE000 then do
      let c ← TextReader.charOfCode? (0x10000 + (high - 0xD800) * 0x400 + (low - 0xDC00))
      let cs ← charsOfCodes? rest
      some (c :: cs)
    else do
      let c ← TextReader.charOfCode? high
      let cs ← charsOfCodes? (low :: rest)
      some (c :: cs)
  | [code] => do
    let c ← TextReader.charOfCode? code
    some [c]

def stringBody : TextReader (Option String) := fun cs => do
  let (units, cs) ← codes cs
  some ((charsOfCodes? units).map String.ofList, cs)

def fractionDigits : TextReader (List Char)
  | '.' :: cs =>
    let places := cs.takeWhile Char.isDigit
    if places = [] then none else some (places, cs.drop places.length)
  | cs => some ([], cs)

def exponentPart : TextReader (Option Int)
  | c :: cs =>
    if c = 'e' ∨ c = 'E' then
      let (sign, cs) :=
        match cs with
        | '-' :: cs => ((-1 : Int), cs)
        | '+' :: cs => (1, cs)
        | cs => (1, cs)
      let places := cs.takeWhile Char.isDigit
      (Text.digits? places).map fun n => (some (sign * n), cs.drop places.length)
    else
      some (none, c :: cs)
  | [] => some (none, [])

/--
A number behind its sign. A zero in front of other digits is refused.
-/
def unsignedNumber (negative : Bool) : TextReader JsonNumber := fun cs => do
  let whole := cs.takeWhile Char.isDigit
  if whole = [] ∨ (whole.head? = some '0' ∧ whole.length ≠ 1) then
    none
  let (fraction, cs) ← fractionDigits (cs.drop whole.length)
  let (exponent?, cs) ← exponentPart cs
  some (⟨negative, whole, fraction, exponent?⟩, cs)

mutual

def value : Nat → TextReader Json
  | 0, _ => none
  | fuel + 1, cs =>
    match skipBlanks cs with
    | 'n' :: 'u' :: 'l' :: 'l' :: cs => some (.null, cs)
    | 't' :: 'r' :: 'u' :: 'e' :: cs => some (.bool true, cs)
    | 'f' :: 'a' :: 'l' :: 's' :: 'e' :: cs => some (.bool false, cs)
    | '\x22' :: cs => (stringBody cs).map fun (text?, cs) => (.string text?, cs)
    | '-' :: cs => (unsignedNumber true cs).map fun (n, cs) => (.number n, cs)
    | '[' :: cs =>
      match skipBlanks cs with
      | ']' :: cs => some (.array [], cs)
      | cs => (items fuel cs).map fun (items, cs) => (.array items, cs)
    | '\x7b' :: cs =>
      match skipBlanks cs with
      | '\x7d' :: cs => some (.object [], cs)
      | cs => (members fuel cs).map fun (members, cs) => (.object members, cs)
    | cs => (unsignedNumber false cs).map fun (n, cs) => (.number n, cs)

def items : Nat → TextReader (List Json)
  | 0, _ => none
  | fuel + 1, cs => do
    let (item, cs) ← value fuel cs
    match skipBlanks cs with
    | ',' :: cs => (items fuel cs).map fun (rest, cs) => (item :: rest, cs)
    | ']' :: cs => some ([item], cs)
    | _ => none

def members : Nat → TextReader (List (Option String × Json))
  | 0, _ => none
  | fuel + 1, cs => do
    let ((), cs) ← TextReader.char '\x22' (skipBlanks cs)
    let (name?, cs) ← stringBody cs
    let ((), cs) ← TextReader.char ':' (skipBlanks cs)
    let (item, cs) ← value fuel cs
    match skipBlanks cs with
    | ',' :: cs => (members fuel cs).map fun (rest, cs) => ((name?, item) :: rest, cs)
    | '\x7d' :: cs => some ([(name?, item)], cs)
    | _ => none

end

/--
Read a text that is one JSON value. Every second step takes a character, so that twice the length
of the text is fuel enough.
-/
def ofText? (text : String) : Option Json :=
  match value (2 * text.length + 2) text.toList with
  | some (json, rest) => if skipBlanks rest = [] then some json else none
  | none => none

/-! ## Writing -/

def hexChar (n : Nat) : Char :=
  Nat.digitChar n

def quoteChar (c : Char) : List Char :=
  match c with
  | '\x22' => ['\\', '\x22']
  | '\\' => ['\\', '\\']
  | '\x08' => ['\\', 'b']
  | '\x0c' => ['\\', 'f']
  | '\n' => ['\\', 'n']
  | '\r' => ['\\', 'r']
  | '\t' => ['\\', 't']
  | c =>
    if c.toNat < 0x20 then
      ['\\', 'u', '0', '0', hexChar (c.toNat / 16), hexChar (c.toNat % 16)]
    else
      [c]

def quote (s : String) : String :=
  String.ofList ('\x22' :: s.toList.flatMap quoteChar ++ ['\x22'])

end Json

end RowTree
