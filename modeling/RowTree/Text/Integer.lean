/-!
This module holds whole numbers as decimal text: digits alone, digits behind a sign, and the
bounded forms that other modules read. `digits?_ofNat` and `integer?_ofInt` say that what is
written is read back, and `digits?_eq_some_iff` which texts are numbers at all.
-/

namespace RowTree
namespace Text

/--
The decimal digits of a natural number, without leading zeros.
-/
def ofNat (n : Nat) : List Char :=
  Nat.toDigits 10 n

/--
The decimal digits of an integer, behind a minus sign if it is negative.
-/
def ofInt : Int → List Char
  | .ofNat n => ofNat n
  | .negSucc n => '-' :: ofNat (n + 1)

/--
Read one or more ASCII digits, any number of leading zeros included.
-/
def digits? (cs : List Char) : Option Nat :=
  if cs = [] ∨ cs.all Char.isDigit = false then
    none
  else
    some (Nat.ofDigitChars 10 cs 0)

def integer? : List Char → Option Int
  | '+' :: cs => (digits? cs).map Int.ofNat
  | '-' :: cs => (digits? cs).map fun n => -Int.ofNat n
  | cs => (digits? cs).map Int.ofNat

def int64? (cs : List Char) : Option Int64 :=
  match integer? cs with
  | some n =>
    if -0x8000000000000000 ≤ n ∧ n < 0x8000000000000000 then some (Int64.ofInt n) else none
  | none => none

/--
Read a position in a list: digits behind an optional plus, below `2 ^ 64`.
-/
def index? (s : String) : Option Nat :=
  let digits :=
    match s.toList with
    | '+' :: cs => cs
    | cs => cs
  (digits? digits).filter (· < 0x10000000000000000)

theorem digits?_eq_some_iff {cs : List Char} {n : Nat} :
    digits? cs = some n ↔
      cs ≠ [] ∧ (∀ c ∈ cs, c.isDigit = true) ∧ Nat.ofDigitChars 10 cs 0 = n := by
  rw [digits?]
  split
  · next h =>
    rcases h with h | h
    · simp [h]
    · rw [List.all_eq_false] at h
      obtain ⟨c, hc, hd⟩ := h
      simp only [reduceCtorEq, false_iff, not_and]
      intro _ hall
      exact absurd (hall c hc) hd
  · next h =>
    simp only [not_or, Bool.not_eq_false, List.all_eq_true] at h
    simp [h.1]
    exact fun _ => h.2

theorem isDigit_of_mem_ofNat {n : Nat} {c : Char} (h : c ∈ ofNat n) : c.isDigit = true :=
  Nat.isDigit_of_mem_toDigits (by decide) (by decide) h

theorem ofNat_ne_nil (n : Nat) : ofNat n ≠ [] := by
  intro h
  have hlen := Nat.length_toDigits_pos (b := 10) (n := n)
  rw [show Nat.toDigits 10 n = [] from h] at hlen
  simp at hlen

@[simp]
theorem digits?_ofNat (n : Nat) : digits? (ofNat n) = some n :=
  digits?_eq_some_iff.2
    ⟨ofNat_ne_nil n, fun _ h => isDigit_of_mem_ofNat h, Nat.ofDigitChars_ten_toDigits⟩

theorem integer?_of_isDigit {c : Char} (h : c.isDigit = true) (cs : List Char) :
    integer? (c :: cs) = (digits? (c :: cs)).map Int.ofNat := by
  rw [integer?]
  · rintro _ ⟨⟩
    exact absurd h (by decide)
  · rintro _ ⟨⟩
    exact absurd h (by decide)

@[simp]
theorem integer?_ofInt (n : Int) : integer? (ofInt n) = some n := by
  cases n with
  | ofNat n =>
    rw [ofInt]
    have hd := digits?_ofNat n
    have hmem : ∀ c ∈ ofNat n, c.isDigit = true := fun _ => isDigit_of_mem_ofNat
    cases hs : ofNat n with
    | nil => exact absurd hs (ofNat_ne_nil n)
    | cons c cs =>
      rw [hs] at hd hmem
      rw [integer?_of_isDigit (hmem c (by simp)), hd]
      rfl
  | negSucc n =>
    rw [ofInt, integer?, digits?_ofNat]
    rfl

end Text
end RowTree
