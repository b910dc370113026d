import Mathlib.Algebra.Group.Nat.Defs
import RowTree.Text.Blank
import RowTree.Text.Integer
import RowTree.Text.Reader

/-!
This module contains what readers make of numerals with something behind them. A numeral is a text
that `Text.digits?` takes. Readers stop behind it where the rest does not start with a digit.
-/

namespace RowTree

namespace Text

/-! ## Written numbers -/

theorem head?_ofNat {n : Nat} (hn : 0 < n) : (ofNat n).head? ≠ some '0' := by
  induction n using Nat.strongRecOn with
  | ind n ih =>
    unfold ofNat at ih ⊢
    rw [Nat.toDigits_eq_if (by decide)]
    split
    · next hsmall =>
      rw [List.head?_cons, ne_eq, Option.some.injEq, Nat.digitChar_eq_zero]
      omega
    · next hlarge =>
      have hfront := ih (n / 10) (Nat.div_lt_self hn (by decide)) (by omega)
      cases hdigits : Nat.toDigits 10 (n / 10) with
      | nil => exact absurd hdigits Nat.toDigits_ne_nil
      | cons c cs =>
        rw [hdigits] at hfront
        exact hfront

theorem length_ofNat_le {n width : Nat} (hwidth : 0 < width) (hn : n < 10 ^ width) :
    (ofNat n).length ≤ width :=
  (Nat.length_toDigits_le_iff (by decide) hwidth).2 hn

theorem trimList_of_forall {cs : List Char} (h : ∀ c ∈ cs, isBlank c = false) :
    trimList cs = cs := by
  apply trimList_eq_self_iff.2
  constructor
  · intro c hc
    exact h c (List.mem_of_mem_head? hc)
  · intro c hc
    exact h c (List.mem_of_mem_getLast? hc)

theorem trimList_ofNat (n : Nat) : trimList (ofNat n) = ofNat n :=
  trimList_of_forall fun _ hc => isBlank_of_isDigit (isDigit_of_mem_ofNat hc)

theorem trimList_ofInt (n : Int) : trimList (ofInt n) = ofInt n := by
  cases n with
  | ofNat n => exact trimList_ofNat n
  | negSucc n =>
    apply trimList_of_forall
    rw [ofInt, List.forall_mem_cons]
    exact ⟨by decide, fun _ hc => isBlank_of_isDigit (isDigit_of_mem_ofNat hc)⟩

/-! ## Numerals and what stands behind them -/

variable {ds rest : List Char} {n : Nat}

theorem takeWhile_isDigit_append (h : ∀ c ∈ ds, c.isDigit = true)
    (hrest : ∀ c ∈ rest.head?, c.isDigit = false) :
    (ds ++ rest).takeWhile Char.isDigit = ds := by
  rw [List.takeWhile_append_of_pos h]
  cases rest with
  | nil => simp
  | cons c rest => simp [hrest c rfl]

theorem exists_cons_of_digits? (h : digits? ds = some n) :
    ∃ c cs, ds = c :: cs ∧ c.isDigit = true := by
  obtain ⟨hne, hdigit, _⟩ := digits?_eq_some_iff.1 h
  obtain ⟨c, cs, rfl⟩ := List.exists_cons_of_ne_nil hne
  exact ⟨c, cs, rfl, hdigit c (by simp)⟩

theorem trimFront_digits_append (h : digits? ds = some n) :
    trimFront (ds ++ rest) = ds ++ rest := by
  obtain ⟨c, cs, rfl, hc⟩ := exists_cons_of_digits? h
  apply trimFront_eq_self
  rintro _ ⟨⟩
  exact isBlank_of_isDigit hc

end Text

namespace TextReader

variable {ds rest : List Char} {n low high : Nat}

theorem digits_append (h : Text.digits? ds = some n) (hlow : low ≤ ds.length)
    (hhigh : ds.length ≤ high) (hrest : ∀ c ∈ rest.head?, c.isDigit = false) :
    digits low high (ds ++ rest) = some (n, rest) := by
  obtain ⟨_, hdigit, hvalue⟩ := Text.digits?_eq_some_iff.1 h
  unfold digits
  rw [Text.takeWhile_isDigit_append hdigit hrest, List.take_of_length_le hhigh]
  dsimp only
  rw [if_neg (Nat.not_lt.2 hlow), hvalue, List.drop_left]

end TextReader

end RowTree
