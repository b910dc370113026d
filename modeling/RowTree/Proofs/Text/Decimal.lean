import Mathlib.Data.List.Induction
import RowTree.Proofs.Text.Numeral

/-!
This module contains which texts are integers, and of which value (`Text.IsInteger`). Texts are read
without a bound, which is checked afterwards. Reading them digit by digit in 64-bit arithmetic that
gives up where a step overflows ends the same (`Text.int64ByDigit?_eq`).
-/

namespace RowTree

namespace Text

/-! ## Integers and their values -/

def digitValue (c : Char) : Nat :=
  c.toNat - '0'.toNat

inductive IsNumeral : List Char → Nat → Prop where
  | digit {c : Char} (hc : c.isDigit = true) : IsNumeral [c] (digitValue c)
  | append {cs : List Char} {n : Nat} {c : Char} (hcs : IsNumeral cs n) (hc : c.isDigit = true) :
      IsNumeral (cs ++ [c]) (10 * n + digitValue c)

inductive IsInteger : List Char → Int → Prop where
  | unsigned {cs : List Char} {n : Nat} (h : IsNumeral cs n) : IsInteger cs n
  | plus {cs : List Char} {n : Nat} (h : IsNumeral cs n) : IsInteger ('+' :: cs) n
  | minus {cs : List Char} {n : Nat} (h : IsNumeral cs n) : IsInteger ('-' :: cs) (-n)

variable {cs : List Char}

theorem ofDigitChars_append_singleton (cs : List Char) (c : Char) :
    Nat.ofDigitChars 10 (cs ++ [c]) 0 = 10 * Nat.ofDigitChars 10 cs 0 + digitValue c := by
  rw [Nat.ofDigitChars_append, Nat.ofDigitChars_cons, Nat.ofDigitChars_nil]
  rfl

theorem isNumeral_of_isDigit (hne : cs ≠ []) (h : ∀ c ∈ cs, c.isDigit = true) :
    IsNumeral cs (Nat.ofDigitChars 10 cs 0) := by
  induction cs using List.reverseRecOn with
  | nil => exact absurd rfl hne
  | append_singleton front c ih =>
    have hc := h c (by simp)
    rw [ofDigitChars_append_singleton]
    by_cases hfront : front = []
    · rw [hfront]
      simpa using IsNumeral.digit hc
    · exact .append (ih hfront fun d hd => h d (by simp [hd])) hc

theorem digits?_eq_some_iff_isNumeral {n : Nat} : digits? cs = some n ↔ IsNumeral cs n := by
  rw [digits?_eq_some_iff]
  constructor
  · rintro ⟨hne, hdigit, rfl⟩
    exact isNumeral_of_isDigit hne hdigit
  · intro h
    induction h with
    | digit hc =>
      refine ⟨by simp, by simpa using hc, ?_⟩
      simpa using ofDigitChars_append_singleton [] _
    | @append cs n c _ hc ih =>
      obtain ⟨_, hdigit, rfl⟩ := ih
      refine ⟨by simp, ?_, ofDigitChars_append_singleton cs c⟩
      intro d hd
      rcases List.mem_append.1 hd with hd | hd
      · exact hdigit d hd
      · rw [List.mem_singleton.1 hd]
        exact hc

theorem digits?_eq_none_iff : digits? cs = none ↔ cs = [] ∨ ∃ c ∈ cs, c.isDigit = false := by
  unfold digits?
  rw [ite_eq_left_iff, List.all_eq_false]
  simp only [reduceCtorEq, imp_false, Decidable.not_not, Bool.not_eq_true]

theorem integer?_of_digits? {n : Nat} (h : digits? cs = some n) : integer? cs = some n := by
  obtain ⟨c, rest, rfl, hc⟩ := exists_cons_of_digits? h
  rw [integer?_of_isDigit hc, h]
  rfl

theorem integer?_eq_some_iff {n : Int} : integer? cs = some n ↔ IsInteger cs n := by
  constructor
  · intro h
    unfold integer? at h
    split at h
    all_goals
      obtain ⟨m, hm, rfl⟩ := Option.map_eq_some_iff.1 h
      rw [digits?_eq_some_iff_isNumeral] at hm
    · exact .plus hm
    · exact .minus hm
    · exact .unsigned hm
  · intro h
    cases h with
    | unsigned hn => exact integer?_of_digits? (digits?_eq_some_iff_isNumeral.2 hn)
    | plus hn =>
      rw [integer?, digits?_eq_some_iff_isNumeral.2 hn]
      rfl
    | minus hn =>
      rw [integer?, digits?_eq_some_iff_isNumeral.2 hn]
      rfl

theorem IsInteger.isDigit_of_mem {n : Int} (h : IsInteger cs n) {c : Char} (hc : c ∈ cs) :
    c = '+' ∨ c = '-' ∨ c.isDigit = true := by
  have hdigit {cs : List Char} {n : Nat} (hn : IsNumeral cs n) (hc : c ∈ cs) : c.isDigit = true :=
    (digits?_eq_some_iff.1 (digits?_eq_some_iff_isNumeral.2 hn)).2.1 c hc
  cases h with
  | unsigned hn => exact .inr (.inr (hdigit hn hc))
  | plus hn => exact (List.mem_cons.1 hc).imp id fun hc => .inr (hdigit hn hc)
  | minus hn => exact .inr ((List.mem_cons.1 hc).imp id (hdigit hn))

/-! ## Integers in a range -/

def inRange? (low high n : Int) : Option Int :=
  if low ≤ n ∧ n < high then some n else none

theorem inRange?_eq_some_iff {low high n m : Int} :
    inRange? low high n = some m ↔ n = m ∧ low ≤ m ∧ m < high := by
  unfold inRange?
  split
  · next h =>
    rw [Option.some.injEq]
    constructor
    · rintro rfl
      exact ⟨rfl, h⟩
    · exact And.left
  · next h =>
    simp only [reduceCtorEq, false_iff]
    rintro ⟨rfl, hm⟩
    exact h hm

theorem inRange?_eq_none_iff {low high n : Int} :
    inRange? low high n = none ↔ n < low ∨ high ≤ n := by
  unfold inRange?
  rw [ite_eq_right_iff]
  simp only [reduceCtorEq, imp_false]
  omega

theorem map_inRange? {α : Type} (low high n : Int) (f : Int → α) :
    (inRange? low high n).map f = if low ≤ n ∧ n < high then some (f n) else none := by
  unfold inRange?
  split <;> rfl

def checked64 (n : Int) : Option Int64 :=
  (inRange? (-0x8000000000000000) 0x8000000000000000 n).map Int64.ofInt

theorem checked64_eq_some_iff {n : Int} {m : Int64} : checked64 n = some m ↔ m.toInt = n := by
  unfold checked64
  rw [Option.map_eq_some_iff]
  simp only [inRange?_eq_some_iff]
  constructor
  · rintro ⟨_, ⟨rfl, hlow, hhigh⟩, rfl⟩
    exact Int64.toInt_ofInt_of_le hlow hhigh
  · rintro rfl
    exact ⟨m.toInt, ⟨rfl, m.le_toInt, m.toInt_lt⟩, Int64.ofInt_toInt m⟩

theorem checked64_eq_none_iff {n : Int} :
    checked64 n = none ↔ n < -0x8000000000000000 ∨ 0x8000000000000000 ≤ n := by
  unfold checked64
  rw [Option.map_eq_none_iff, inRange?_eq_none_iff]

theorem bind_checked64_inRange? {low high : Int} (hlow : -0x8000000000000000 ≤ low)
    (hhigh : high ≤ 0x8000000000000000) (n : Int) :
    (checked64 n).bind (fun m => inRange? low high m.toInt) = inRange? low high n := by
  cases hn : checked64 n with
  | none =>
    -- what 64 bits do not hold is in no smaller range
    rw [checked64_eq_none_iff] at hn
    rw [inRange?_eq_none_iff.2 (by omega)]
    rfl
  | some m => rw [Option.bind_some, checked64_eq_some_iff.1 hn]

theorem int64?_eq_bind (cs : List Char) : int64? cs = (integer? cs).bind checked64 := by
  unfold int64?
  cases integer? cs with
  | none => rfl
  | some n => exact (map_inRange? ..).symm

theorem int64?_eq_some_iff {n : Int64} : int64? cs = some n ↔ IsInteger cs n.toInt := by
  rw [int64?_eq_bind, Option.bind_eq_some_iff]
  simp only [integer?_eq_some_iff, checked64_eq_some_iff, exists_eq_right']

/-! ## Reading in 64-bit arithmetic -/

def signed (negative : Bool) (n : Nat) : Int :=
  if negative then -n else n

theorem signed_false (n : Nat) : signed false n = n := rfl

theorem signed_true (n : Nat) : signed true n = -n := rfl

/--
Put a digit behind a number of 64 bits. Gives up if the number times ten is too large, or if it is
too large with the digit.
-/
def pushDigit (negative : Bool) (n : Int64) (c : Char) : Option Int64 :=
  if c.isDigit then
    (checked64 (10 * n.toInt)).bind fun tens =>
      checked64 (tens.toInt + signed negative (digitValue c))
  else
    none

def digits64? (negative : Bool) (cs : List Char) : Option Int64 :=
  if cs = [] then none else cs.foldlM (pushDigit negative) 0

def int64ByDigit? : List Char → Option Int64
  | '+' :: cs => digits64? false cs
  | '-' :: cs => digits64? true cs
  | cs => digits64? false cs

theorem signed_append (negative : Bool) (n d : Nat) :
    signed negative (10 * n + d) = 10 * signed negative n + signed negative d := by
  unfold signed
  split <;> omega

theorem checked64_signed_eq_none {negative : Bool} {n m : Nat}
    (h : checked64 (signed negative n) = none) (hle : n ≤ m) :
    checked64 (signed negative m) = none := by
  rw [checked64_eq_none_iff] at h ⊢
  cases negative with
  | false =>
    rw [signed_false] at h ⊢
    omega
  | true =>
    rw [signed_true] at h ⊢
    omega

theorem bind_pushDigit (negative : Bool) (n : Nat) {c : Char} (hc : c.isDigit = true) :
    (checked64 (signed negative n)).bind (fun m => pushDigit negative m c) =
      checked64 (signed negative (10 * n + digitValue c)) := by
  cases hn : checked64 (signed negative n) with
  | none =>
    -- no digit brings a number back that is too large
    rw [checked64_signed_eq_none hn (by omega)]
    rfl
  | some m =>
    have hm := checked64_eq_some_iff.1 hn
    unfold pushDigit
    rw [Option.bind_some, if_pos hc, hm]
    cases hten : checked64 (10 * signed negative n) with
    | none =>
      have hzero : 10 * signed negative n = signed negative (10 * n) := by
        unfold signed
        split <;> omega
      rw [hzero] at hten
      rw [checked64_signed_eq_none hten (by omega)]
      rfl
    | some tens => rw [Option.bind_some, checked64_eq_some_iff.1 hten, signed_append]

theorem foldlM_pushDigit (negative : Bool) (h : ∀ c ∈ cs, c.isDigit = true) :
    cs.foldlM (pushDigit negative) 0 =
      checked64 (signed negative (Nat.ofDigitChars 10 cs 0)) := by
  induction cs using List.reverseRecOn with
  | nil => cases negative <;> decide
  | append_singleton front c ih =>
    have hfront := ih fun d hd => h d (by simp [hd])
    rw [List.foldlM_append, hfront, ofDigitChars_append_singleton,
      ← bind_pushDigit negative _ (h c (by simp))]
    simp

theorem foldlM_pushDigit_eq_none (negative : Bool) (n : Int64) {c : Char} (hmem : c ∈ cs)
    (hc : c.isDigit = false) : cs.foldlM (pushDigit negative) n = none := by
  induction cs generalizing n with
  | nil => cases hmem
  | cons d rest ih =>
    rw [List.foldlM_cons]
    rcases List.mem_cons.1 hmem with rfl | hmem
    · unfold pushDigit
      rw [hc]
      rfl
    · cases pushDigit negative n d with
      | none => rfl
      | some m => exact ih m hmem

theorem digits64?_eq (negative : Bool) (cs : List Char) :
    digits64? negative cs = (digits? cs).bind fun n => checked64 (signed negative n) := by
  unfold digits64?
  cases hdigits : digits? cs with
  | some n =>
    obtain ⟨hne, hdigit, rfl⟩ := digits?_eq_some_iff.1 hdigits
    rw [if_neg hne, foldlM_pushDigit negative hdigit]
    rfl
  | none =>
    rcases digits?_eq_none_iff.1 hdigits with rfl | ⟨c, hmem, hc⟩
    · rfl
    · rw [if_neg (List.ne_nil_of_mem hmem), foldlM_pushDigit_eq_none negative 0 hmem hc]
      rfl

/--
64-bit arithmetic that gives up on overflow reads the integers that 64 bits hold.
-/
theorem int64ByDigit?_eq (cs : List Char) : int64ByDigit? cs = int64? cs := by
  rw [int64?_eq_bind]
  unfold int64ByDigit?
  split
  · rw [digits64?_eq, integer?, Option.bind_map, Function.comp_def]
    simp only [signed_false, Int.ofNat_eq_natCast]
  · rw [digits64?_eq, integer?, Option.bind_map, Function.comp_def]
    simp only [signed_true, Int.ofNat_eq_natCast]
  · next hplus hminus =>
    rw [digits64?_eq, integer?, Option.bind_map, Function.comp_def]
    · simp only [signed_false, Int.ofNat_eq_natCast]
    · exact hplus
    · exact hminus

end Text

end RowTree
