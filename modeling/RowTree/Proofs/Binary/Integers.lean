import Mathlib.Data.Nat.Prime.Basic
import RowTree.Binary.Rounding

/-!
This module contains which integers a binary format makes of integers. A significand that fits the
precision stays what it is in lowest terms (`Binary.integer?_ofSignificand`). An integer of 32 bits
with all of them in use loses its last eight to rounding (`Binary.integer?_ofInt_binary32`).
-/

namespace RowTree

theorem roundQuotient_mul_eq_iff {a b : Nat} (hb : 0 < b) :
    roundQuotient a b * b = a ↔ a % b = 0 := by
  constructor
  · intro h
    rw [← h, Nat.mul_mod_left]
  · intro h
    have hdiv := Nat.div_add_mod a b
    rw [h, Nat.add_zero, Nat.mul_comm] at hdiv
    unfold roundQuotient
    dsimp only
    rw [h, if_pos (.inl hb), hdiv]

namespace Binary

/--
The power of two that lowest terms take out of a significand leaves an odd number.
-/
theorem exists_odd {m : Nat} (hm : 0 < m) :
    ∃ odd k, Nat.gcd m (1 <<< m.log2) = 2 ^ k ∧ m = odd * 2 ^ k ∧ odd % 2 = 1 := by
  rw [Nat.one_shiftLeft]
  obtain ⟨k, hk, hgcd⟩ :=
    (Nat.dvd_prime_pow Nat.prime_two).1 (Nat.gcd_dvd_right m (2 ^ m.log2))
  obtain ⟨odd, hodd⟩ := hgcd ▸ Nat.gcd_dvd_left m (2 ^ m.log2)
  rw [Nat.mul_comm] at hodd
  refine ⟨odd, k, hgcd, hodd, ?_⟩
  apply Nat.mod_two_ne_zero.1
  intro heven
  -- one more factor two would be in the power of two as well, or the number too large
  have hdvd : 2 ^ (k + 1) ∣ m := by
    obtain ⟨half, hhalf⟩ := Nat.dvd_of_mod_eq_zero heven
    exact ⟨half, by rw [hodd, hhalf, Nat.pow_succ, Nat.mul_comm, Nat.mul_assoc]⟩
  rcases Nat.lt_or_ge k m.log2 with hlt | hge
  · have hboth := Nat.dvd_gcd hdvd (Nat.pow_dvd_pow 2 hlt)
    rw [hgcd, Nat.pow_dvd_pow_iff_le_right (by decide)] at hboth
    omega
  · have hle := Nat.le_of_dvd hm hdvd
    have hlarge : 2 ^ (m.log2 + 1) ≤ 2 ^ (k + 1) := Nat.pow_le_pow_right (by decide) (by omega)
    have hlog := Nat.lt_log2_self (n := m)
    omega

variable {format : BinaryFormat}

theorem integer?_ofSignificand {m : Nat} {e : Int} (negative : Bool) (hm : 0 < m)
    (hprecision : m < 2 ^ format.precision) (he : 0 ≤ e) (hmin : format.minExponent ≤ 0)
    (hmax : m.log2 + e < format.maxExponent) :
    (ofSignificand format negative m e).integer? =
      some (if negative then -((m * 2 ^ e.toNat : Nat) : Int) else (m * 2 ^ e.toNat : Nat)) := by
  obtain ⟨odd, k, hgcd, hsplit, hodd⟩ := exists_odd hm
  have hpow : 0 < 2 ^ k := Nat.two_pow_pos k
  have hdiv : m / 2 ^ k = odd := by rw [hsplit, Nat.mul_div_cancel _ hpow]
  have hle : odd ≤ m := by
    rw [hsplit]
    exact Nat.le_mul_of_pos_right odd hpow
  have hlog : odd.log2 + k ≤ m.log2 := by
    rw [Nat.le_log2 (by omega), Nat.pow_add]
    conv => rhs; rw [hsplit]
    exact Nat.mul_le_mul_right _ (Nat.log2_self_le (by omega))
  have hheld : format.Holds odd (e + k) := by
    refine .inr ⟨hodd, ?_, by omega, by omega⟩
    rw [Nat.one_shiftLeft]
    exact Nat.lt_of_le_of_lt hle hprecision
  have hmagnitude : odd <<< (e + k).toNat = m * 2 ^ e.toNat := by
    rw [Nat.shiftLeft_eq, show (e + k).toNat = k + e.toNat by omega, Nat.pow_add, ← Nat.mul_assoc,
      ← hsplit]
  unfold ofSignificand
  rw [if_neg (by omega)]
  dsimp only
  rw [hgcd, hdiv, Nat.log2_two_pow, dif_pos hheld]
  dsimp only [integer?]
  rw [if_pos (by omega), hmagnitude]

/-! ## Integers of 32 bits -/

theorem log2_ratio_of_large {n : Nat} (hlow : 0x80000000 ≤ n) (hhigh : n < 0x100000000) :
    (Ratio.mk n 1).log2 = 31 := by
  have hlog : n.log2 = 31 := (Nat.log2_eq_iff (by omega)).2 ⟨hlow, hhigh⟩
  have hexponent : ((31 : Nat) : Int) - ((Nat.log2 1 : Nat) : Int) = Int.ofNat 31 := by decide
  have hpower : 1 <<< 31 ≤ n := by
    rw [Nat.one_shiftLeft]
    exact hlow
  unfold Ratio.log2
  rw [hlog, hexponent]
  dsimp only [Ratio.shift]
  rw [if_pos hpower]
  rfl

theorem ofInt_binary32_of_large {n : Nat} (hlow : 0x80000000 ≤ n) (hhigh : n < 0x100000000) :
    ofInt binary32 n = ofSignificand binary32 false (roundQuotient n 256) 8 := by
  have hunit : max ((31 : Int) - ((binary32.precision : Int) - 1)) binary32.minExponent =
      Int.ofNat 8 := by decide
  unfold ofInt ofRatio
  rw [Int.natAbs_natCast, if_neg (by omega : n ≠ 0), log2_ratio_of_large hlow hhigh, hunit,
    decide_eq_false (by omega)]
  rfl

/--
An integer that needs all of 32 bits is rounded to a multiple of 256.
-/
theorem integer?_ofInt_binary32 {n : Nat} (hlow : 0x80000000 ≤ n) (hhigh : n < 0x100000000) :
    (ofInt binary32 n).integer? = some ((roundQuotient n 256 * 256 : Nat) : Int) := by
  obtain ⟨hfloor, hceil⟩ := roundQuotient_near n (b := 256) (by decide)
  rw [ofInt_binary32_of_large hlow hhigh]
  rcases Nat.lt_or_ge (roundQuotient n 256) 16777216 with hlt | hge
  · have hlog : (roundQuotient n 256).log2 < 24 := (Nat.log2_lt (by omega)).2 hlt
    exact integer?_ofSignificand false (by omega) hlt (by decide) (by decide)
      (by change _ < (128 : Int); omega)
  · have htop : roundQuotient n 256 = 16777216 := by omega
    rw [htop]
    decide

end Binary

end RowTree
