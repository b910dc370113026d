import RowTree.Scalar.Basic

/-!
This module holds the conversion of a scalar to a primitive kind. A value that the kind cannot
represent is refused; nothing wraps and no fraction is cut off. `coerce_self` says that a value of
the kind stays as it is.
-/

namespace RowTree

namespace Scalar

/--
The integer that the value is or reads as. Truth values and timestamps are none.
-/
def integer? : Scalar → Option Int
  | .int n => some n.toInt
  | .uint n => some n.toNat
  | .float x => x.integer?
  | .double x => x.integer?
  | .string s => Text.integer? (Text.trimList s.toList)
  | .bool _ => none
  | .datetime _ => none

/--
The 64-bit number that the value is, reads as or is rounded to. Truth values and timestamps are
none.
-/
def number? : Scalar → Option Binary64
  | .int n => some (Binary.ofInt binary64 n.toInt)
  | .uint n => some (Binary.ofInt binary64 n.toNat)
  | .float x => some (x.convert binary64)
  | .double x => some x
  | .string s => Binary.ofList? binary64 (Text.trimList s.toList)
  | .bool _ => none
  | .datetime _ => none

def truth? (s : String) : Option Bool :=
  let word := String.ofList ((Text.trimList s.toList).map Char.toLower)
  if word = "true" then some true else if word = "false" then some false else none

/--
A 32-bit number, unless rounding made it infinite.
-/
def narrow? (x : Binary64) : Option Binary32 :=
  let narrowed := x.convert binary32
  if narrowed.isFinite || !x.isFinite then some narrowed else none

end Scalar

namespace Primitive

/--
Convert a scalar to the kind. Every scalar has a text; the other kinds take what is in their range.
-/
def coerce? (p : Primitive) (value : Scalar) : Option Scalar :=
  match p with
  | .string => some (.string value.text)
  | .int =>
    match value.integer? with
    | some n => if -0x80000000 ≤ n ∧ n < 0x80000000 then some (.int (Int32.ofInt n)) else none
    | none => none
  | .uint =>
    match value.integer? with
    | some n => if 0 ≤ n ∧ n < 0x100000000 then some (.uint (UInt32.ofNat n.toNat)) else none
    | none => none
  | .float => (value.number?.bind Scalar.narrow?).map .float
  | .double => value.number?.map .double
  | .bool =>
    match value with
    | .bool b => some (.bool b)
    | .string s => (Scalar.truth? s).map .bool
    | _ => none
  | .datetime =>
    match value with
    | .datetime t => some (.datetime t)
    | .string s => (Timestamp.ofList? (Text.trimList s.toList)).map .datetime
    | _ => none

theorem primitive_of_coerce? {p : Primitive} {value s : Scalar} (h : p.coerce? value = some s) :
    s.primitive = p := by
  cases p <;> simp only [coerce?, Option.map_eq_some_iff, Option.some.injEq] at h
  case int => grind [Scalar.primitive]
  case uint => grind [Scalar.primitive]
  case bool => grind [Scalar.primitive, Option.map_eq_some_iff]
  case datetime => grind [Scalar.primitive, Option.map_eq_some_iff]
  case string => subst h; rfl
  all_goals
    obtain ⟨x, _, rfl⟩ := h
    rfl

theorem coerce?_self (s : Scalar) : s.primitive.coerce? s = some s := by
  cases s with
  | int n =>
    have hlow := n.le_toInt
    have hhigh := n.toInt_lt
    simp only [Scalar.primitive, coerce?, Scalar.integer?]
    rw [if_pos ⟨by omega, by omega⟩, Int32.ofInt_toInt]
  | uint n =>
    have hhigh := n.toNat_lt
    simp only [Scalar.primitive, coerce?, Scalar.integer?]
    rw [if_pos ⟨by omega, by omega⟩, Int.toNat_natCast, UInt32.ofNat_toNat]
  | float x =>
    have hback : (x.convert binary64).convert binary32 = x := x.convert_binary64_binary32
    have hfinite : x.isFinite || !(x.convert binary64).isFinite := by
      cases x with
      | nan => rfl
      | infinite _ => rfl
      | finite _ _ _ _ => rfl
    simp [Scalar.primitive, coerce?, Scalar.number?, Scalar.narrow?, hback, hfinite]
  | _ => simp [Scalar.primitive, coerce?, Scalar.number?, Scalar.text]

end Primitive

end RowTree
