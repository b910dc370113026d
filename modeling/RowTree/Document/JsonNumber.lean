import RowTree.Document.Json
import RowTree.Binary.Reader

/-!
This module holds the rounding of JSON numbers. An integer of 64 bits is exact. Any other number
is the product of its first digits, as an integer of 64 bits, and one power of ten, where each of
the two and the product itself are rounded to a 64-bit number.
-/

namespace RowTree

namespace Binary

def times (x y : Binary64) : Binary64 :=
  match x.magnitude?, y.magnitude? with
  | some r, some s => ofRatio binary64 false ⟨r.num * s.num, r.den * s.den⟩
  | _, _ => .nan

def dividedBy (x y : Binary64) : Binary64 :=
  match x.magnitude?, y.magnitude? with
  | some r, some s => ofRatio binary64 false ⟨r.num * s.den, r.den * s.num⟩
  | _, _ => .nan

def powerOfTen (exponent : Nat) : Binary64 :=
  ofDecimal binary64 false ⟨1, exponent⟩

def signed (negative : Bool) : Binary64 → Binary64
  | .nan => .nan
  | .infinite _ => .infinite negative
  | .finite _ m e held => .finite negative m e held

end Binary

namespace JsonNumber

/--
Append digits to a number as long as it stays below `2 ^ 64`. Gives the number and how many digits
fitted.
-/
def absorb (n : Nat) : List Char → Nat × Nat
  | [] => (n, 0)
  | c :: cs =>
    let larger := 10 * n + (c.toNat - '0'.toNat)
    if larger < 0x10000000000000000 then
      let (final, count) := absorb larger cs
      (final, count + 1)
    else
      (n, 0)

/--
Divide by a power of ten that may be beyond the greatest one, in steps.
-/
def shrink (x : Binary64) : Nat → Nat → Binary64
  | 0, exponent => x.dividedBy (.powerOfTen (min exponent 308))
  | steps + 1, exponent =>
    if exponent ≤ 308 then
      x.dividedBy (.powerOfTen exponent)
    else
      shrink (x.dividedBy (.powerOfTen 308)) steps (exponent - 308)

/--
The product of an integer and a power of ten, unless it is too large. Two steps of dividing leave
nothing of any integer of 64 bits.
-/
def scaled? (significand : Nat) (exponent : Int) : Option Binary64 :=
  let x := Binary.ofInt binary64 significand
  if significand = 0 then
    some x
  else if 0 ≤ exponent then
    if exponent ≤ 308 then
      let product := x.times (.powerOfTen exponent.toNat)
      if product.isFinite then some product else none
    else
      none
  else
    some (shrink x 2 exponent.natAbs)

/--
The exponent, where one beyond 32 bits is as good as the greatest or the least one.
-/
def clampedExponent (n : JsonNumber) : Int :=
  max (-2147483648) (min 2147483647 (n.exponent?.getD 0))

def toBinary64? (n : JsonNumber) : Option Binary64 :=
  let (front, absorbedFront) := absorb 0 n.whole
  let (significand, absorbedBack) := absorb front n.fraction
  let exponent : Int := n.clampedExponent + (n.whole.length - absorbedFront : Nat) - absorbedBack
  (scaled? significand exponent).map (.signed n.negative)

/--
The integer that the number is written as, if it has neither point nor exponent and is in the
range of 64 bits. Minus zero is none.
-/
def integer? (n : JsonNumber) : Option Int :=
  if n.fraction = [] ∧ n.exponent? = none then
    let magnitude := Nat.ofDigitChars 10 n.whole 0
    if n.negative then
      if 0 < magnitude ∧ magnitude ≤ 0x8000000000000000 then some (-magnitude) else none
    else if magnitude < 0x10000000000000000 then
      some magnitude
    else
      none
  else
    none

end JsonNumber

end RowTree
