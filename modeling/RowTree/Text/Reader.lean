import RowTree.Text.Blank

/-!
This module holds readers, which take a value from the front of a text, and the readers of single
characters and of digits that the formats share.
-/

namespace RowTree

/--
A reader takes a value from the front of a text and gives it with the rest.
-/
abbrev TextReader (α : Type) := List Char → Option (α × List Char)

namespace TextReader

/--
At least `low` and at most `high` digits; further digits are left.
-/
def digits (low high : Nat) : TextReader Nat := fun cs =>
  let taken := (cs.takeWhile Char.isDigit).take high
  if taken.length < low then
    none
  else
    some (Nat.ofDigitChars 10 taken 0, cs.drop taken.length)

def char (c : Char) : TextReader Unit
  | d :: cs => if d = c then some ((), cs) else none
  | [] => none

def rest? (front : List Char) (cs : List Char) : Option (List Char) :=
  if front.isPrefixOf cs then some (cs.drop front.length) else none

def hexDigit? (c : Char) : Option Nat :=
  if c.isDigit then
    some (c.toNat - '0'.toNat)
  else if 'a' ≤ c ∧ c ≤ 'f' then
    some (c.toNat - 'a'.toNat + 10)
  else if 'A' ≤ c ∧ c ≤ 'F' then
    some (c.toNat - 'A'.toNat + 10)
  else
    none

def hexValue? (cs : List Char) : Option Nat :=
  cs.foldlM (fun n c => (hexDigit? c).map (16 * n + ·)) 0

def hex (count : Nat) : TextReader Nat := fun cs =>
  if cs.length < count then
    none
  else
    (hexValue? (cs.take count)).map (·, cs.drop count)

/--
The character with this code, unless it is half of a surrogate pair or too large.
-/
def charOfCode? (code : Nat) : Option Char :=
  if h : code.isValidChar then some (Char.ofNatAux code h) else none

end TextReader

end RowTree
