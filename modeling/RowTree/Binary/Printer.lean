import RowTree.Binary.Shortest

/-!
This module holds the text of a binary number under a choice of notation: up to which exponents
the digits are written around a point, what stands for the values that no digits have, and which
way a tie of two shortest texts goes.
-/

namespace RowTree

namespace Decimal

def plain (d : Decimal) : List Char :=
  let digits := Text.ofNat d.digits
  match d.exponent with
  | .ofNat k => digits ++ List.replicate k '0'
  | .negSucc k =>
    let places := k + 1
    if places < digits.length then
      digits.take (digits.length - places) ++ '.' :: digits.drop (digits.length - places)
    else
      '0' :: '.' :: (List.replicate (places - digits.length) '0' ++ digits)

def leading (d : Decimal) : Int :=
  (Text.ofNat d.digits).length - 1 + d.exponent

def scientific (d : Decimal) : List Char :=
  let significand :=
    match Text.ofNat d.digits with
    | first :: second :: rest => first :: '.' :: second :: rest
    | digits => digits
  let sign := if d.leading < 0 then '-' else '+'
  significand ++ 'e' :: sign :: Text.ofNat d.leading.natAbs

end Decimal

/--
How numbers of a format are written: `plainFrom` and `plainTo` bound the exponents of the first
digit that are written without an exponent, if there are bounds; `point` adds `.0` to a text that
would look like an integer.
-/
structure NumberStyle where
  tie : Tie
  plainRange? : Option (Int × Int)
  point : Bool
  nan : String
  infinity : String
  negativeInfinity : String
  deriving Repr

/--
Numbers as text for readers: the digits alone, never an exponent, and a tie goes up.
-/
def NumberStyle.natural : NumberStyle :=
  { tie := .up
    plainRange? := none
    point := false
    nan := "NaN"
    infinity := "inf"
    negativeInfinity := "-inf" }

/--
Numbers as JSON, which has no text for infinity. A tie goes to the even digit.
-/
def NumberStyle.json (plainRange : Int × Int) : NumberStyle :=
  { tie := .toEven
    plainRange? := some plainRange
    point := true
    nan := "null"
    infinity := "null"
    negativeInfinity := "null" }

namespace NumberStyle

def isPlain (style : NumberStyle) (leading : Int) : Bool :=
  match style.plainRange? with
  | some (low, high) => low ≤ leading && leading ≤ high
  | none => true

def decimal (style : NumberStyle) (d : Decimal) : List Char :=
  if style.isPlain d.leading then
    if style.point && decide (0 ≤ d.exponent) then d.plain ++ ['.', '0'] else d.plain
  else
    d.scientific

end NumberStyle

def Binary.toText {format : BinaryFormat} (style : NumberStyle) : Binary format → String
  | .nan => style.nan
  | .infinite negative => if negative then style.negativeInfinity else style.infinity
  | .finite negative m e _ =>
    let digits := if m = 0 then ⟨0, 0⟩ else format.shortest style.tie m e
    let sign := if negative then ['-'] else []
    String.ofList (sign ++ style.decimal digits)

end RowTree
