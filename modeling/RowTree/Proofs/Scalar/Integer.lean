import RowTree.Proofs.Scalar.Text
import RowTree.Proofs.Text.Decimal

/-!
This module contains the integers that scalars are converted to. A scalar that is no rounded number
becomes the integer that it denotes, if the kind holds it, and nothing else becomes an integer
(`Scalar.coerce?_integer`). That texts are read in 64-bit arithmetic first makes no difference
(`Scalar.coerce?_string`).
-/

namespace RowTree

namespace Scalar

/-! ## What scalars denote -/

/--
The scalar is the integer, or a text of it that may have blanks at its ends.
-/
inductive Denotes : Scalar → Int → Prop where
  | int (n : Int32) : Denotes (.int n) n.toInt
  | uint (n : UInt32) : Denotes (.uint n) n.toNat
  | string {s : String} {n : Int} (h : Text.IsInteger (Text.trim s).toList n) :
      Denotes (.string s) n

variable {value : Scalar}

theorem integer?_string (s : String) :
    integer? (.string s) = Text.integer? (Text.trim s).toList := by
  rw [Text.toList_trim]
  rfl

theorem integer?_eq_some_iff (h : value.primitive.IsExact) {n : Int} :
    value.integer? = some n ↔ value.Denotes n := by
  constructor
  · intro hn
    cases value with
    | int m =>
      obtain rfl := Option.some.inj hn
      exact .int m
    | uint m =>
      obtain rfl := Option.some.inj hn
      exact .uint m
    | string s =>
      rw [integer?_string] at hn
      exact .string (Text.integer?_eq_some_iff.1 hn)
    | bool b => cases hn
    | datetime t => cases hn
    | float x => exact absurd rfl h.1
    | double x => exact absurd rfl h.2
  · intro hn
    cases hn with
    | int m => rfl
    | uint m => rfl
    | string hs =>
      rw [integer?_string]
      exact Text.integer?_eq_some_iff.2 hs

theorem bind_inRange?_eq_some_iff (h : value.primitive.IsExact) {low high n : Int} :
    value.integer?.bind (Text.inRange? low high) = some n ↔
      value.Denotes n ∧ low ≤ n ∧ n < high := by
  rw [Option.bind_eq_some_iff]
  simp only [integer?_eq_some_iff h, Text.inRange?_eq_some_iff]
  constructor
  · rintro ⟨m, hm, rfl, hrange⟩
    exact ⟨hm, hrange⟩
  · rintro ⟨hn, hrange⟩
    exact ⟨n, hn, rfl, hrange⟩

theorem bind_inRange?_eq_none_iff (h : value.primitive.IsExact) {low high : Int} :
    value.integer?.bind (Text.inRange? low high) = none ↔
      ∀ n, value.Denotes n → n < low ∨ high ≤ n := by
  rw [Option.bind_eq_none_iff]
  simp only [integer?_eq_some_iff h, Text.inRange?_eq_none_iff]

/-! ## Conversion to integers -/

theorem coerce?_int_eq (value : Scalar) :
    Primitive.int.coerce? value =
      (value.integer?.bind (Text.inRange? (-0x80000000) 0x80000000)).map
        fun n => .int (Int32.ofInt n) := by
  unfold Primitive.coerce?
  cases value.integer? with
  | none => rfl
  | some n => rw [Option.bind_some, Text.map_inRange?]

theorem coerce?_uint_eq (value : Scalar) :
    Primitive.uint.coerce? value =
      (value.integer?.bind (Text.inRange? 0 0x100000000)).map
        fun n => .uint (UInt32.ofNat n.toNat) := by
  unfold Primitive.coerce?
  cases value.integer? with
  | none => rfl
  | some n => rw [Option.bind_some, Text.map_inRange?]

theorem coerce?_int_eq_some_iff (h : value.primitive.IsExact) {t : Scalar} :
    Primitive.int.coerce? value = some t ↔ ∃ n : Int32, t = .int n ∧ value.Denotes n.toInt := by
  rw [coerce?_int_eq, Option.map_eq_some_iff]
  simp only [bind_inRange?_eq_some_iff h]
  constructor
  · rintro ⟨n, ⟨hn, hlow, hhigh⟩, rfl⟩
    refine ⟨Int32.ofInt n, rfl, ?_⟩
    rw [Int32.toInt_ofInt_of_le hlow hhigh]
    exact hn
  · rintro ⟨n, rfl, hn⟩
    refine ⟨n.toInt, ⟨hn, n.le_toInt, n.toInt_lt⟩, ?_⟩
    rw [Int32.ofInt_toInt]

theorem coerce?_uint_eq_some_iff (h : value.primitive.IsExact) {t : Scalar} :
    Primitive.uint.coerce? value = some t ↔
      ∃ n : UInt32, t = .uint n ∧ value.Denotes n.toNat := by
  rw [coerce?_uint_eq, Option.map_eq_some_iff]
  simp only [bind_inRange?_eq_some_iff h]
  constructor
  · rintro ⟨n, ⟨hn, hlow, hhigh⟩, rfl⟩
    have hsmall : n.toNat < UInt32.size := by
      unfold UInt32.size
      omega
    refine ⟨UInt32.ofNat n.toNat, rfl, ?_⟩
    rw [UInt32.toNat_ofNat_of_lt' hsmall, Int.toNat_of_nonneg hlow]
    exact hn
  · rintro ⟨n, rfl, hn⟩
    have hhigh := n.toNat_lt
    refine ⟨n.toNat, ⟨hn, by omega, by omega⟩, ?_⟩
    rw [Int.toNat_natCast, UInt32.ofNat_toNat]

/-! ## Texts in 64-bit arithmetic -/

/--
Texts may be read in 64-bit arithmetic before the range of the kind is looked at.
-/
theorem bind_inRange?_string {low high : Int} (hlow : -0x8000000000000000 ≤ low)
    (hhigh : high ≤ 0x8000000000000000) (s : String) :
    (Text.int64ByDigit? (Text.trim s).toList).bind (fun n => Text.inRange? low high n.toInt) =
      (integer? (.string s)).bind (Text.inRange? low high) := by
  rw [integer?_string, Text.int64ByDigit?_eq, Text.int64?_eq_bind, Option.bind_assoc]
  simp only [Text.bind_checked64_inRange? hlow hhigh]

/--
A scalar that is no rounded number becomes the integer that it denotes, if that is in the range of
the kind. Texts, which may have a sign and zeros in front, and integers of the other kind become
nothing else, and truth values and timestamps become no integer at all. It makes no difference that
texts are read in 64-bit arithmetic, which gives up on overflow, before the range is looked at.
-/
theorem coerce?_integer (h : value.primitive.IsExact) :
    (∀ t, Primitive.int.coerce? value = some t ↔
        ∃ n : Int32, t = .int n ∧ value.Denotes n.toInt) ∧
      (Primitive.int.coerce? value = none ↔
        ∀ n, value.Denotes n → n < -0x80000000 ∨ 0x80000000 ≤ n) ∧
      (∀ t, Primitive.uint.coerce? value = some t ↔
        ∃ n : UInt32, t = .uint n ∧ value.Denotes n.toNat) ∧
      (Primitive.uint.coerce? value = none ↔
        ∀ n, value.Denotes n → n < 0 ∨ 0x100000000 ≤ n) ∧
      (value.primitive = .bool ∨ value.primitive = .datetime →
        Primitive.int.coerce? value = none ∧ Primitive.uint.coerce? value = none) ∧
      ∀ s, value = .string s →
        Primitive.int.coerce? value =
            ((Text.int64ByDigit? (Text.trim s).toList).bind fun n =>
              Text.inRange? (-0x80000000) 0x80000000 n.toInt).map (fun n => .int (Int32.ofInt n)) ∧
          Primitive.uint.coerce? value =
            ((Text.int64ByDigit? (Text.trim s).toList).bind fun n =>
              Text.inRange? 0 0x100000000 n.toInt).map (fun n => .uint (UInt32.ofNat n.toNat)) := by
  refine ⟨fun _ => coerce?_int_eq_some_iff h, ?_, fun _ => coerce?_uint_eq_some_iff h, ?_, ?_, ?_⟩
  · rw [coerce?_int_eq, Option.map_eq_none_iff, bind_inRange?_eq_none_iff h]
  · rw [coerce?_uint_eq, Option.map_eq_none_iff, bind_inRange?_eq_none_iff h]
  · intro hkind
    cases value with
    | bool b => exact ⟨rfl, rfl⟩
    | datetime t => exact ⟨rfl, rfl⟩
    | _ => simp [primitive] at hkind
  · rintro s rfl
    constructor
    · rw [coerce?_int_eq, bind_inRange?_string (by decide) (by decide)]
    · rw [coerce?_uint_eq, bind_inRange?_string (by decide) (by decide)]

theorem coerce?_integer_at_bounds :
    let minus : Scalar := .string " -0 "
    let zeros : Scalar := .string "+0000000000000000000002147483648"
    let wide : Scalar := .string "-9223372036854775809"
    let large : Scalar := .uint 4294967295
    minus.Denotes 0 ∧ Primitive.uint.coerce? minus = some (.uint 0) ∧
      zeros.Denotes 0x80000000 ∧ Primitive.uint.coerce? zeros = some (.uint 0x80000000) ∧
      Primitive.int.coerce? zeros = none ∧
      Text.int64ByDigit? "-9223372036854775809".toList = none ∧
      Primitive.int.coerce? wide = none ∧
      Primitive.int.coerce? large = none ∧ ¬large.Denotes (-1) ∧
      Primitive.int.coerce? (.bool true) = none := by
  intro minus zeros wide large
  have hminus : minus.Denotes 0 := (integer?_eq_some_iff (by decide)).1 (by decide)
  have hzeros : zeros.Denotes 0x80000000 := (integer?_eq_some_iff (by decide)).1 (by decide)
  have honly : ∀ n, large.Denotes n → n = 4294967295 := by
    intro n hn
    exact (Option.some.inj ((integer?_eq_some_iff (by decide)).2 hn)).symm
  have hlarge : ∀ n, large.Denotes n → n < -0x80000000 ∨ 0x80000000 ≤ n := by
    intro n hn
    rw [honly n hn]
    decide
  refine ⟨hminus, ?_, hzeros, ?_, by decide, by decide, ?_, ?_, ?_, ?_⟩
  · exact ((coerce?_integer (by decide)).2.2.1 _).2 ⟨0, rfl, hminus⟩
  · exact ((coerce?_integer (by decide)).2.2.1 _).2 ⟨0x80000000, rfl, hzeros⟩
  · exact ((coerce?_integer (by decide)).2.2.2.2.2 _ rfl).1.trans (by decide)
  · exact (coerce?_integer (by decide)).2.1.2 hlarge
  · intro hwrapped
    exact absurd (honly _ hwrapped) (by decide)
  · exact ((coerce?_integer (by decide)).2.2.2.2.1 (.inl rfl)).1

end Scalar

end RowTree
