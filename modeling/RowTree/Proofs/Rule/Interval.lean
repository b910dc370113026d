import RowTree.Proofs.Rule.Outcome
import RowTree.Proofs.Scalar.Integer

/-!
This module contains what an interval says of the values that it is checked on. Their texts are read
as integers, so that numbers are compared as they are, and texts as the numbers that they denote.
Nothing else lies in an interval (`Rule.check_interval`).
-/

namespace RowTree

namespace Scalar

variable {leaf : Scalar}

theorem integer?_toText (t : Timestamp) : Text.integer? (Text.trim t.toText).toList = none := by
  rw [Option.eq_none_iff_forall_ne_some]
  intro n hn
  rw [Text.toList_trim, t.trimList_toText, Text.integer?_eq_some_iff] at hn
  -- the hours are parted from the minutes
  have hcolon : ':' ∈ t.wholeSecond.fullText ' ' := by
    rw [Timestamp.fullText_eq]
    simp
  have hdigit := hn.isDigit_of_mem hcolon
  revert hdigit
  decide

theorem integer?_text (h : leaf.primitive.IsExact) :
    Text.integer? (Text.trim leaf.text).toList = leaf.integer? := by
  cases leaf with
  | int n => rw [← integer?_string, integer?_text_int]
  | uint n => rw [← integer?_string, integer?_text_uint]
  | string s => rw [integer?_string, text]
  | bool b => cases b <;> decide
  | datetime t => exact integer?_toText t
  | float x => exact absurd rfl h.1
  | double x => exact absurd rfl h.2

theorem int64?_text_eq_some_iff (h : leaf.primitive.IsExact) {n : Int64} :
    Text.int64? (Text.trim leaf.text).toList = some n ↔ leaf.Denotes n.toInt := by
  rw [Text.int64?_eq_bind, integer?_text h, Option.bind_eq_some_iff]
  simp only [integer?_eq_some_iff h, Text.checked64_eq_some_iff, exists_eq_right']

theorem int64?_text_eq_none_iff (h : leaf.primitive.IsExact) :
    Text.int64? (Text.trim leaf.text).toList = none ↔
      ∀ n, leaf.Denotes n → n < -0x8000000000000000 ∨ 0x8000000000000000 ≤ n := by
  rw [Text.int64?_eq_bind, integer?_text h, Option.bind_eq_none_iff]
  simp only [integer?_eq_some_iff h, Text.checked64_eq_none_iff]

end Scalar

/-! ## Single values -/

section

variable {min max : Int64} {leaf : Scalar}

theorem intervalViolation?_leaf_eq_none_iff (h : leaf.primitive.IsExact) :
    intervalViolation? min max leaf.text = none ↔
      ∃ n, leaf.Denotes n ∧ min.toInt ≤ n ∧ n ≤ max.toInt := by
  rw [intervalViolation?_eq_none_iff]
  simp only [Scalar.int64?_text_eq_some_iff h, Int64.le_iff_toInt_le]
  constructor
  · rintro ⟨n, hn, hrange⟩
    exact ⟨n.toInt, hn, hrange⟩
  · rintro ⟨n, hn, hmin, hmax⟩
    -- what lies between the bounds has 64 bits
    have hlow := min.le_toInt
    have hhigh := max.toInt_lt
    have hself : (Int64.ofInt n).toInt = n := Int64.toInt_ofInt_of_le (by omega) (by omega)
    rw [← hself] at hn hmin hmax
    exact ⟨Int64.ofInt n, hn, hmin, hmax⟩

theorem intervalViolation?_leaf_eq_outOfInterval_iff (h : leaf.primitive.IsExact) :
    intervalViolation? min max leaf.text = some ⟨leaf.text, .outOfInterval min max⟩ ↔
      ∃ n : Int64, leaf.Denotes n.toInt ∧ (n.toInt < min.toInt ∨ max.toInt < n.toInt) := by
  rw [intervalViolation?_eq_some_iff]
  simp only [Violation.mk.injEq, reduceCtorEq, and_false, false_or, and_true,
    Scalar.int64?_text_eq_some_iff h, Int64.lt_iff_toInt_lt]

theorem intervalViolation?_leaf_eq_notAnInteger_iff (h : leaf.primitive.IsExact) :
    intervalViolation? min max leaf.text = some ⟨leaf.text, .notAnInteger min max⟩ ↔
      ∀ n, leaf.Denotes n → n < -0x8000000000000000 ∨ 0x8000000000000000 ≤ n := by
  rw [intervalViolation?_eq_some_iff]
  simp only [Violation.mk.injEq, reduceCtorEq, and_false, exists_false, or_false, and_true,
    Scalar.int64?_text_eq_none_iff h]

/--
Integers of 32 bits are never taken for anything else.
-/
theorem intervalViolation?_int_ne (h : leaf.primitive = .int ∨ leaf.primitive = .uint) :
    intervalViolation? min max leaf.text ≠ some ⟨leaf.text, .notAnInteger min max⟩ := by
  have hexact : leaf.primitive.IsExact := by rcases h with h | h <;> rw [h] <;> decide
  rw [ne_eq, intervalViolation?_leaf_eq_notAnInteger_iff hexact]
  intro hout
  cases leaf with
  | int n =>
    have hself := hout _ (.int n)
    have hlow := n.le_toInt
    have hhigh := n.toInt_lt
    omega
  | uint n =>
    have hself := hout _ (.uint n)
    have hhigh := n.toNat_lt
    omega
  | _ => simp [Scalar.primitive] at h

theorem intervalViolation?_of_bool_or_datetime
    (h : leaf.primitive = .bool ∨ leaf.primitive = .datetime) :
    intervalViolation? min max leaf.text = some ⟨leaf.text, .notAnInteger min max⟩ := by
  have hexact : leaf.primitive.IsExact := by rcases h with h | h <;> rw [h] <;> decide
  rw [intervalViolation?_leaf_eq_notAnInteger_iff hexact]
  intro n hn
  cases hn <;> simp [Scalar.primitive] at h

end

/-! ## Checks -/

namespace Rule

/--
The check of an interval goes through the values at its target, and ends at the first one that
does not pass. A scalar that is no rounded number passes if it denotes an integer between the
bounds, and is reported as outside or as no integer: outside if 64 bits hold the integer that it
denotes, which they do for the 32-bit kinds, and no integer otherwise, as truth values and
timestamps always are.
-/
theorem check_interval (rows : Rows) (target : Target) (min max : Int64) :
    check rows (.interval target min max) =
        (match rows target.table with
        | none => .error (.unknownTable target.table)
        | some records =>
          target.verdict ((records.flatMap fun record => record.reach target.segments).findSome?
            fun leaf => intervalViolation? min max leaf.text)) ∧
      ∀ leaf : Scalar, leaf.primitive.IsExact →
        (intervalViolation? min max (Value.scalar leaf).text = none ↔
          ∃ n, leaf.Denotes n ∧ min.toInt ≤ n ∧ n ≤ max.toInt) ∧
        (intervalViolation? min max (Value.scalar leaf).text =
            some ⟨leaf.text, .outOfInterval min max⟩ ↔
          ∃ n : Int64, leaf.Denotes n.toInt ∧ (n.toInt < min.toInt ∨ max.toInt < n.toInt)) ∧
        (intervalViolation? min max (Value.scalar leaf).text =
            some ⟨leaf.text, .notAnInteger min max⟩ ↔
          ∀ n, leaf.Denotes n → n < -0x8000000000000000 ∨ 0x8000000000000000 ≤ n) ∧
        (leaf.primitive = .int ∨ leaf.primitive = .uint →
          intervalViolation? min max (Value.scalar leaf).text ≠
            some ⟨leaf.text, .notAnInteger min max⟩) ∧
        (leaf.primitive = .bool ∨ leaf.primitive = .datetime →
          intervalViolation? min max (Value.scalar leaf).text =
            some ⟨leaf.text, .notAnInteger min max⟩) := by
  constructor
  · rw [check, Target.texts]
    cases rows target.table with
    | none => rfl
    | some records => exact congrArg target.verdict List.findSome?_map
  · intro leaf h
    have htext : (Value.scalar leaf).text = leaf.text := rfl
    rw [htext]
    exact ⟨intervalViolation?_leaf_eq_none_iff h, intervalViolation?_leaf_eq_outOfInterval_iff h,
      intervalViolation?_leaf_eq_notAnInteger_iff h, intervalViolation?_int_ne,
      intervalViolation?_of_bool_or_datetime⟩

/--
The bounds are those of 64 bits on one side and of 32 bits on the other.
-/
theorem check_interval_at_bounds :
    let type : RecordType := ⟨"rows", [⟨"n", .primitive .string⟩]⟩
    let row : String → Record := fun text => ⟨type, [.scalar (.string text)]⟩
    let rows : Rows := fun table =>
      if table = "rows" then
        some [row " -09223372036854775808 ", row "9223372036854775808"]
      else none
    let target : Target := ⟨"rows", "n", ["n"], rfl⟩
    let min : Int64 := -9223372036854775808
    let max : Int64 := 4294967294
    check rows (.interval target min max) =
        .error (.violation target ⟨"9223372036854775808", .notAnInteger min max⟩) ∧
      intervalViolation? min max (Scalar.uint 4294967294).text = none ∧
      intervalViolation? min max (Scalar.uint 4294967295).text =
        some ⟨"4294967295", .outOfInterval min max⟩ ∧
      intervalViolation? min max (Scalar.bool true).text =
        some ⟨"true", .notAnInteger min max⟩ := by
  intro type row rows target min max
  obtain ⟨hcheck, hleaf⟩ := check_interval rows target min max
  have hpass := (hleaf (.uint 4294967294) (by decide)).1.2
    ⟨4294967294, .uint 4294967294, by decide, by decide⟩
  have hout := (hleaf (.uint 4294967295) (by decide)).2.1.2
    ⟨4294967295, .uint 4294967295, by decide⟩
  have hbool := (hleaf (.bool true) (by decide)).2.2.2.2 (.inl rfl)
  exact ⟨hcheck.trans (by decide), hpass, hout, hbool⟩

end Rule

end RowTree
