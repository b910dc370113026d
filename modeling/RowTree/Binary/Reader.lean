import RowTree.Binary.Rounding
import RowTree.Text.Integer

/-!
This module holds the reading of decimal text as a binary number. The text is an optional sign
followed by digits with an optional point and an optional exponent, or by a name for infinity or
for what is not a number, in any case.
-/

namespace RowTree

/--
A decimal number without sign: `digits * 10 ^ exponent`.
-/
structure Decimal where
  digits : Nat
  exponent : Int
  deriving DecidableEq, Repr

namespace Decimal

def exponent? : List Char → Option Int
  | [] => some 0
  | c :: cs => if c = 'e' ∨ c = 'E' then Text.integer? cs else none

/--
Read digits with at most one point among or beside them, and an exponent.
-/
def ofList? (cs : List Char) : Option Decimal :=
  let whole := cs.takeWhile Char.isDigit
  let (fraction, rest) :=
    match cs.dropWhile Char.isDigit with
    | '.' :: rest => (rest.takeWhile Char.isDigit, rest.dropWhile Char.isDigit)
    | rest => ([], rest)
  match Text.digits? (whole ++ fraction), exponent? rest with
  | some digits, some exponent => some ⟨digits, exponent - fraction.length⟩
  | _, _ => none

def toRatio (d : Decimal) : Ratio :=
  (Ratio.mk d.digits 1).shiftTen (-d.exponent)

end Decimal

namespace Binary

/--
The number of the format that is nearest to a decimal number. A value of at least
`8 ^ (top - 1)` or below `8 ^ top`, where `top` counts the digits in front of the point, is told
to be too large or too small before its power of ten is computed.
-/
def ofDecimal (format : BinaryFormat) (negative : Bool) (d : Decimal) : Binary format :=
  let top : Int := (Text.ofNat d.digits).length + d.exponent
  if d.digits = 0 then
    zero negative
  else if 0 < top ∧ format.maxExponent ≤ 3 * (top - 1) then
    .infinite negative
  else if top < 0 ∧ 3 * top < format.minExponent - 1 then
    zero negative
  else
    ofRatio format negative d.toRatio

def ofUnsigned? (format : BinaryFormat) (negative : Bool) (cs : List Char) :
    Option (Binary format) :=
  let word := String.ofList (cs.map Char.toLower)
  if word = "nan" then
    some .nan
  else if word = "inf" ∨ word = "infinity" then
    some (.infinite negative)
  else
    (Decimal.ofList? cs).map (ofDecimal format negative)

def ofList? (format : BinaryFormat) : List Char → Option (Binary format)
  | '+' :: cs => ofUnsigned? format false cs
  | '-' :: cs => ofUnsigned? format true cs
  | cs => ofUnsigned? format false cs

end Binary

end RowTree
