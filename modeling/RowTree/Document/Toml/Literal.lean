import RowTree.Binary.Reader
import RowTree.Document.Toml.Node

/-!
This module holds the values of TOML that are written in one word: truth values, integers,
floating-point numbers, dates and times. Declarations use none of the numbers, so that only their
form and their range count.
-/

namespace RowTree

namespace Toml

/-! ## Numbers -/

/--
Digits with single underscores between them.
-/
def areDigits (isDigit : Char → Bool) : List Char → Bool
  | [] => false
  | [c] => isDigit c
  | c :: '_' :: cs => isDigit c && areDigits isDigit cs
  | c :: cs => isDigit c && areDigits isDigit cs

def isWhole (cs : List Char) : Bool :=
  areDigits Char.isDigit cs && (cs.head? != some '0' || cs.length == 1)

def unsigned : List Char → List Char
  | '+' :: cs => cs
  | '-' :: cs => cs
  | cs => cs

def isBelowLimit (base : Nat) (cs : List Char) : Bool :=
  let value := cs.foldl
    (fun n c => if c == '_' then n else base * n + (TextReader.hexDigit? c).getD 0) 0
  value < 0x8000000000000000

def isInteger (word : List Char) : Bool :=
  match word with
  | '0' :: 'x' :: cs =>
    areDigits (fun c => (TextReader.hexDigit? c).isSome) cs && isBelowLimit 16 cs
  | '0' :: 'o' :: cs => areDigits (fun c => '0' ≤ c && c ≤ '7') cs && isBelowLimit 8 cs
  | '0' :: 'b' :: cs => areDigits (fun c => c == '0' || c == '1') cs && isBelowLimit 2 cs
  | cs =>
    let digits := unsigned cs
    isWhole digits && (isBelowLimit 10 digits
      || (cs.head? == some '-'
        && Text.digits? (digits.filter (· != '_')) == some 9223372036854775808))

def isExponent (cs : List Char) : Bool :=
  areDigits Char.isDigit (unsigned cs)

def isExponentMark (c : Char) : Bool :=
  c == 'e' || c == 'E'

def isFloatForm (cs : List Char) : Bool :=
  let mantissa := cs.takeWhile (!isExponentMark ·)
  let exponentOk :=
    match cs.drop mantissa.length with
    | [] => true
    | _ :: exponent => isExponent exponent
  let whole := mantissa.takeWhile (· != '.')
  let fractionOk :=
    match mantissa.drop whole.length with
    | [] => mantissa.length != cs.length
    | _ :: fraction => areDigits Char.isDigit fraction
  isWhole whole && fractionOk && exponentOk

def isTooLarge (word : List Char) : Bool :=
  Binary.ofList? binary64 (word.filter (· != '_')) == some (.infinite false)

/--
A floating-point number. A positive number must not be too large, whereas a negative one may be.
-/
def isFloat (word : List Char) : Bool :=
  let cs := unsigned word
  cs == ['i', 'n', 'f'] || cs == ['n', 'a', 'n'] || (isFloatForm cs && !isTooLarge word)

/-! ## Words -/

def isWordChar (c : Char) : Bool :=
  c.isAlphanum || c == '_' || c == '+' || c == '-' || c == '.' || c == ':'

def literal : TextReader Node := fun cs =>
  match Moment.reader cs with
  | some (text, rest) =>
    if rest.head?.any isWordChar then none else some (.moment (String.ofList text), rest)
  | none =>
    let word := cs.takeWhile isWordChar
    let rest := cs.drop word.length
    if word = ['t', 'r', 'u', 'e'] then
      some (.flag true, rest)
    else if word = ['f', 'a', 'l', 's', 'e'] then
      some (.flag false, rest)
    else if isInteger word || isFloat word then
      some (.number, rest)
    else
      none

end Toml

end RowTree
