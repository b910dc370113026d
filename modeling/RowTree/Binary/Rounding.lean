import RowTree.Binary.Basic

/-!
This module holds the rounding of exact values to a binary format: to nearest, a half to the even
significand, too large a value to infinity. `convert_convert` says that going to a wider format
and back changes nothing.
-/

namespace RowTree

/--
The integer nearest to `a / b`, the even one of two equally near ones.
-/
def roundQuotient (a b : Nat) : Nat :=
  let q := a / b
  let r := a % b
  if 2 * r < b ∨ (2 * r = b ∧ q % 2 = 0) then q else q + 1

theorem roundQuotient_near (a : Nat) {b : Nat} (hb : 0 < b) :
    2 * (roundQuotient a b * b) ≤ 2 * a + b ∧ 2 * a ≤ 2 * (roundQuotient a b * b) + b := by
  have hdiv := Nat.div_add_mod a b
  have hmod := Nat.mod_lt a hb
  rw [Nat.mul_comm] at hdiv
  simp only [roundQuotient]
  split
  · omega
  · rw [Nat.add_mul, Nat.one_mul]
    omega

theorem roundQuotient_even {a b : Nat} (h : 2 * (a % b) = b) : roundQuotient a b % 2 = 0 := by
  simp only [roundQuotient]
  split <;> omega

structure Ratio where
  num : Nat
  den : Nat
  deriving Repr

namespace Ratio

def shift (r : Ratio) : Int → Ratio
  | .ofNat k => ⟨r.num, r.den <<< k⟩
  | .negSucc k => ⟨r.num <<< (k + 1), r.den⟩

def shiftTen (r : Ratio) : Int → Ratio
  | .ofNat k => ⟨r.num, r.den * Nat.pow 10 k⟩
  | .negSucc k => ⟨r.num * Nat.pow 10 (k + 1), r.den⟩

def log2 (r : Ratio) : Int :=
  let k : Int := r.num.log2 - r.den.log2
  let scaled := r.shift k
  if scaled.den ≤ scaled.num then k else k - 1

end Ratio

namespace Binary

variable {format : BinaryFormat}

/--
The number `m * 2 ^ e` brought to lowest terms, or infinity if it is too large for the format.
-/
def ofSignificand (format : BinaryFormat) (negative : Bool) (m : Nat) (e : Int) : Binary format :=
  if m = 0 then
    zero negative
  else
    let power := Nat.gcd m (1 <<< m.log2)
    let odd := m / power
    let exponent := e + power.log2
    if held : format.Holds odd exponent then
      .finite negative odd exponent held
    else
      .infinite negative

def ofRatio (format : BinaryFormat) (negative : Bool) (r : Ratio) : Binary format :=
  if r.num = 0 then
    zero negative
  else
    let unit := max (r.log2 - (format.precision - 1)) format.minExponent
    let scaled := r.shift unit
    ofSignificand format negative (roundQuotient scaled.num scaled.den) unit

def ofInt (format : BinaryFormat) (n : Int) : Binary format :=
  ofRatio format (n < 0) ⟨n.natAbs, 1⟩

def convert (target : BinaryFormat) : Binary format → Binary target
  | .nan => .nan
  | .infinite negative => .infinite negative
  | .finite negative m e _ =>
    if held : target.Holds m e then
      .finite negative m e held
    else
      ofRatio target negative ((Ratio.mk m 1).shift (-e))

def magnitude? : Binary format → Option Ratio
  | .finite _ m e _ => some ((Ratio.mk m 1).shift (-e))
  | _ => none

theorem convert_convert {wide : BinaryFormat} (hp : format.precision ≤ wide.precision)
    (hmin : wide.minExponent ≤ format.minExponent) (hmax : format.maxExponent ≤ wide.maxExponent)
    (x : Binary format) : (x.convert wide).convert format = x := by
  cases x with
  | nan => rfl
  | infinite _ => rfl
  | finite _ m e held =>
    have hwide : wide.Holds m e := held.mono hp hmin hmax
    simp [convert, hwide, held]

theorem convert_binary64_binary32 (x : Binary32) : (x.convert binary64).convert binary32 = x :=
  convert_convert (by decide) (by decide) (by decide) x

end Binary

end RowTree
