/-!
This module holds binary floating-point numbers of a given format. A finite number is kept in
lowest terms, as a sign, an odd significand and a power of two, so that a number which two formats
share has the same significand and exponent in both.
-/

namespace RowTree

/--
A format of binary floating-point numbers: how many bits a significand has, the exponent of the
least positive number, and the exponent of the first power of two that is too large.
-/
structure BinaryFormat where
  precision : Nat
  minExponent : Int
  maxExponent : Int
  deriving DecidableEq, Repr

def binary32 : BinaryFormat := ⟨24, -149, 128⟩

def binary64 : BinaryFormat := ⟨53, -1074, 1024⟩

/--
The format holds `significand * 2 ^ exponent`, given in lowest terms.
-/
def BinaryFormat.Holds (format : BinaryFormat) (significand : Nat) (exponent : Int) : Prop :=
  (significand = 0 ∧ exponent = 0) ∨
    (significand % 2 = 1 ∧ significand < 1 <<< format.precision ∧ format.minExponent ≤ exponent ∧
      significand.log2 + exponent < format.maxExponent)

instance (format : BinaryFormat) (significand : Nat) (exponent : Int) :
    Decidable (format.Holds significand exponent) :=
  inferInstanceAs (Decidable (_ ∨ _))

/--
A number of a binary format. The two zeros have significand zero and differ in their sign.
-/
inductive Binary (format : BinaryFormat) where
  | nan
  | infinite (negative : Bool)
  | finite (negative : Bool) (significand : Nat) (exponent : Int)
      (held : format.Holds significand exponent)
  deriving DecidableEq

abbrev Binary32 := Binary binary32

abbrev Binary64 := Binary binary64

namespace Binary

variable {format : BinaryFormat}

def zero (negative : Bool) : Binary format :=
  .finite negative 0 0 (.inl ⟨rfl, rfl⟩)

/--
Equality of values: what is not a number equals nothing, and the two zeros are equal.
-/
def same : Binary format → Binary format → Bool
  | .infinite s, .infinite t => s == t
  | .finite s m e _, .finite t n k _ => m == n && e == k && (s == t || m == 0)
  | _, _ => false

def isFinite : Binary format → Bool
  | .finite .. => true
  | _ => false

def integer? : Binary format → Option Int
  | .finite negative m e _ =>
    if 0 ≤ e then
      let magnitude : Int := (m <<< e.toNat : Nat)
      some (if negative then -magnitude else magnitude)
    else
      none
  | _ => none

theorem same_self {x : Binary format} (h : x ≠ .nan) : x.same x = true := by
  cases x <;> simp_all [same]

end Binary

theorem BinaryFormat.Holds.mono {narrow wide : BinaryFormat} {m : Nat} {e : Int}
    (hp : narrow.precision ≤ wide.precision) (hmin : wide.minExponent ≤ narrow.minExponent)
    (hmax : narrow.maxExponent ≤ wide.maxExponent) (h : narrow.Holds m e) : wide.Holds m e := by
  rcases h with h | ⟨hodd, hlt, hlow, hhigh⟩
  · exact .inl h
  · rw [Nat.one_shiftLeft] at hlt
    refine .inr ⟨hodd, ?_, by omega, by omega⟩
    rw [Nat.one_shiftLeft]
    exact Nat.lt_of_lt_of_le hlt (Nat.pow_le_pow_right (by decide) hp)

end RowTree
