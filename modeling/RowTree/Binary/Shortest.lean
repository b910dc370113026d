import RowTree.Binary.Reader

/-!
This module holds the shortest decimal text of a binary number: of the decimal numbers that round
to it, one on the coarsest grid of powers of ten, and of those the nearest one.
-/

namespace RowTree

inductive Tie where
  | up
  | toEven
  deriving DecidableEq, Repr

/--
The real numbers that round to a positive binary number: `low`, `value` and `high` count the same
unit `2 ^ scale`, and the two ends belong to the interval if it is closed.
-/
structure RoundingInterval where
  low : Nat
  value : Nat
  high : Nat
  scale : Int
  closed : Bool
  deriving Repr

namespace RoundingInterval

/--
The interval of a nonzero number of the format. Below a power of two the numbers lie twice as
dense, except below the least normal one.
-/
def ofNumber (format : BinaryFormat) (m : Nat) (e : Int) : RoundingInterval :=
  let unit := max (m.log2 + e - (format.precision - 1)) format.minExponent
  let significand := m <<< (e - unit).toNat
  let narrow := significand = 1 <<< (format.precision - 1) ∧ format.minExponent < unit
  { low := 4 * significand - (if narrow then 1 else 2)
    value := 4 * significand
    high := 4 * significand + 2
    scale := unit - 2
    closed := significand % 2 = 0 }

def contains (i : RoundingInterval) (unit : Ratio) (c : Nat) : Bool :=
  if i.closed then
    i.low * unit.num ≤ c * unit.den && c * unit.den ≤ i.high * unit.num
  else
    i.low * unit.num < c * unit.den && c * unit.den < i.high * unit.num

/--
The neighbours of the value on the grid of the multiples of `10 ^ k`, the nearer one first.
-/
def neighbours (i : RoundingInterval) (tie : Tie) (unit : Ratio) : Nat × Nat :=
  let below := i.value * unit.num / unit.den
  let rest := i.value * unit.num % unit.den
  let upFirst :=
    match tie with
    | .up => decide (unit.den ≤ 2 * rest)
    | .toEven => unit.den < 2 * rest || (unit.den == 2 * rest && below % 2 == 1)
  if upFirst then (below + 1, below) else (below, below + 1)

def point? (i : RoundingInterval) (tie : Tie) (k : Int) : Option Nat :=
  let unit := ((Ratio.mk 1 1).shift (-i.scale)).shiftTen k
  let (near, far) := i.neighbours tie unit
  if i.contains unit near then
    some near
  else if i.contains unit far then
    some far
  else
    none

def search (i : RoundingInterval) (tie : Tie) (k : Int) : Nat → Decimal
  | 0 => ⟨i.value, i.scale⟩
  | steps + 1 =>
    match i.point? tie k with
    | some digits => ⟨digits, k⟩
    | none => i.search tie (k - 1) steps

def top (i : RoundingInterval) : Int :=
  ((i.high.log2 + 1 + i.scale) * 30103) / 100000 + 1

end RoundingInterval

/--
The shortest decimal number that rounds to `m * 2 ^ e`. Twenty grids are enough: the first of
them lies above the number, and seventeen digits tell all numbers of 64 bits apart.
-/
def BinaryFormat.shortest (format : BinaryFormat) (tie : Tie) (m : Nat) (e : Int) : Decimal :=
  let interval := RoundingInterval.ofNumber format m e
  interval.search tie interval.top 20

end RowTree
