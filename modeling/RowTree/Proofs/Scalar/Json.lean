import RowTree.Scalar.Json
import RowTree.Proofs.Binary.Integers
import RowTree.Proofs.Document.Json
import RowTree.Proofs.Scalar.Text

/-!
This module contains the way of a scalar through JSON, which does not say of which kind a scalar
was. The kinds that are tried later never get their turn (`Scalar.ofJsonBy?_eq`). Where no rounding
takes part, something is always read, and the kind makes the scalar of it again, with one exception:
an unsigned integer that is too large for a signed one is read as a number of 32 bits, which rounds
it to a multiple of 256 (`Scalar.bind_ofJsonText?_toJsonText`).
-/

namespace RowTree

namespace Scalar

/-! ## The kinds in their order -/

section

variable (time? : List Char → Option Timestamp)

/--
An integer of more than 32 bits is a rounded number, also where an unsigned integer would hold it.
-/
theorem findSome?_integer (i : Int) :
    kinds.findSome? (Primitive.ofContent? time? · (.integer i)) =
      if -0x80000000 ≤ i ∧ i < 0x80000000 then some (.int (Int32.ofInt i))
      else some (.float (Binary.ofInt binary32 i)) := by
  rw [kinds, List.findSome?_cons, List.findSome?_cons, Primitive.ofContent?, Primitive.ofContent?]
  by_cases h : -0x80000000 ≤ i ∧ i < 0x80000000
  · rw [if_pos h, if_pos h]
  · rw [if_neg h, if_neg h]

/--
The kinds of unsigned integers, timestamps and 64-bit numbers never get their turn, so it does not
matter how timestamps are read.
-/
theorem ofJsonBy?_eq (json : Json) :
    ofJsonBy? time? json =
      match json with
      | .number n =>
        match n.integer? with
        | some i =>
          if -0x80000000 ≤ i ∧ i < 0x80000000 then some (.int (Int32.ofInt i))
          else some (.float (Binary.ofInt binary32 i))
        | none => n.toBinary64?.map fun x => .float (x.convert binary32)
      | .string text? => text?.map .string
      | .bool b => some (.bool b)
      | _ => none := by
  unfold ofJsonBy?
  cases json with
  | number n =>
    unfold Json.content?
    dsimp only
    cases n.integer? with
    | some i => exact findSome?_integer time? i
    | none => cases n.toBinary64? <;> rfl
  | string text? => cases text? <;> rfl
  | bool b => rfl
  | null => rfl
  | array items => rfl
  | object members => rfl

end

/-! ## What is read of the text of a scalar -/

theorem ofJsonText?_of_ofText? {text : String} {json : Json} (h : Json.ofText? text = some json) :
    ofJsonText? text = ofJson? json := by
  unfold ofJsonText?
  rw [h]
  rfl

theorem ofJsonText?_ofInt {n : Int} (hlow : -0x8000000000000000 ≤ n)
    (hhigh : n < 0x10000000000000000) :
    ofJsonText? (String.ofList (Text.ofInt n)) =
      if -0x80000000 ≤ n ∧ n < 0x80000000 then some (.int (Int32.ofInt n))
      else some (.float (Binary.ofInt binary32 n)) := by
  rw [ofJsonText?_of_ofText? (Json.ofText?_ofInt n), ofJson?, ofJsonBy?_eq]
  dsimp only
  rw [JsonNumber.integer?_ofInt hlow hhigh]

theorem ofJsonText?_int (n : Int32) : ofJsonText? (Scalar.int n).toJsonText = some (.int n) := by
  have hlow := n.le_toInt
  have hhigh := n.toInt_lt
  have hread := @ofJsonText?_ofInt n.toInt (by omega) (by omega)
  rw [if_pos ⟨by omega, by omega⟩, Int32.ofInt_toInt] at hread
  exact hread

theorem ofJsonText?_uint (n : UInt32) :
    ofJsonText? (Scalar.uint n).toJsonText =
      some (if n.toNat < 0x80000000 then .int (Int32.ofInt n.toNat)
        else .float (Binary.ofInt binary32 n.toNat)) := by
  have hhigh := n.toNat_lt
  have hread := @ofJsonText?_ofInt n.toNat (by omega) (by omega)
  by_cases hsmall : n.toNat < 0x80000000
  · rw [if_pos ⟨by omega, by omega⟩] at hread
    rw [if_pos hsmall]
    exact hread
  · rw [if_neg (by omega)] at hread
    rw [if_neg hsmall]
    exact hread

theorem ofJsonText?_string (s : String) :
    ofJsonText? (Scalar.string s).toJsonText = some (.string s) :=
  ofJsonText?_of_ofText? (Json.ofText?_quote s)

theorem ofJsonText?_bool (b : Bool) : ofJsonText? (Scalar.bool b).toJsonText = some (.bool b) :=
  ofJsonText?_of_ofText? (Json.ofText?_bool b)

theorem ofJsonText?_datetime (t : Timestamp) :
    ofJsonText? (Scalar.datetime t).toJsonText = some (.string t.toIsoText) :=
  ofJsonText?_of_ofText? (Json.ofText?_quote t.toIsoText)

/-! ## What the kind makes of it -/

theorem coerce?_datetime_isoText (t : Timestamp) :
    Primitive.datetime.coerce? (.string t.toIsoText) = some (.datetime t) := by
  simp only [Primitive.coerce?, Timestamp.ofList?_toIsoText, Option.map_some]

theorem coerce?_uint_of_integer? {value : Scalar} {n : Nat} (h : value.integer? = some (n : Int)) :
    Primitive.uint.coerce? value =
      if n < 0x100000000 then some (.uint (UInt32.ofNat n)) else none := by
  simp only [Primitive.coerce?, h]
  by_cases hn : n < 0x100000000
  · rw [if_pos ⟨by omega, by omega⟩, if_pos hn, Int.toNat_natCast]
  · rw [if_neg (by omega), if_neg hn]

theorem bind_coerce?_uint (n : UInt32) :
    (ofJsonText? (Scalar.uint n).toJsonText).bind Primitive.uint.coerce? =
      if n.toNat < 0x80000000 then some (.uint n)
      else if roundQuotient n.toNat 256 * 256 < 0x100000000 then
        some (.uint (UInt32.ofNat (roundQuotient n.toNat 256 * 256)))
      else none := by
  have hhigh := n.toNat_lt
  rw [ofJsonText?_uint, Option.bind_some]
  by_cases hsmall : n.toNat < 0x80000000
  · have hinteger : (Scalar.int (Int32.ofInt n.toNat)).integer? = some (n.toNat : Int) :=
      congrArg some (Int32.toInt_ofInt_of_le (by omega) (by omega))
    rw [if_pos hsmall, if_pos hsmall, coerce?_uint_of_integer? hinteger, if_pos (by omega),
      UInt32.ofNat_toNat]
  · have hinteger := Binary.integer?_ofInt_binary32 (Nat.le_of_not_lt hsmall) hhigh
    rw [if_neg hsmall, if_neg hsmall]
    exact coerce?_uint_of_integer? hinteger

theorem bind_coerce?_uint_eq_some_iff (n : UInt32) :
    (ofJsonText? (Scalar.uint n).toJsonText).bind Primitive.uint.coerce? = some (.uint n) ↔
      n.toNat < 0x80000000 ∨ n.toNat % 256 = 0 := by
  have hhigh := n.toNat_lt
  rw [bind_coerce?_uint]
  by_cases hsmall : n.toNat < 0x80000000
  · simp [hsmall]
  · rw [if_neg hsmall, or_iff_right hsmall, ← roundQuotient_mul_eq_iff (by decide)]
    split
    · next hround =>
      rw [Option.some.injEq, Scalar.uint.injEq, ← UInt32.toNat_inj,
        UInt32.toNat_ofNat_of_lt' hround]
    · next hround =>
      simp only [reduceCtorEq, false_iff]
      omega

/--
The JSON text of a scalar whose kind does not round is always read, and the kind makes the scalar
of it again, unless it is an unsigned integer beyond the signed ones and no multiple of 256. Such
an integer becomes the nearest multiple of 256, if there is one below `2 ^ 32`.
-/
theorem bind_ofJsonText?_toJsonText {s : Scalar} (h : s.primitive.IsExact) :
    (ofJsonText? s.toJsonText).isSome ∧
      ((ofJsonText? s.toJsonText).bind s.primitive.coerce? = some s ↔
        ∀ n, s = .uint n → n.toNat < 0x80000000 ∨ n.toNat % 256 = 0) ∧
      ∀ n, s = .uint n → 0x80000000 ≤ n.toNat →
        (ofJsonText? s.toJsonText).bind s.primitive.coerce? =
          if roundQuotient n.toNat 256 * 256 < 0x100000000 then
            some (.uint (UInt32.ofNat (roundQuotient n.toNat 256 * 256)))
          else none := by
  cases s with
  | int n =>
    rw [ofJsonText?_int, Option.bind_some, Primitive.coerce?_self]
    simp
  | string text =>
    rw [ofJsonText?_string, Option.bind_some, Primitive.coerce?_self]
    simp
  | bool b =>
    rw [ofJsonText?_bool, Option.bind_some, Primitive.coerce?_self]
    simp
  | datetime t =>
    have hback : (Scalar.datetime t).primitive.coerce? (.string t.toIsoText) =
        some (.datetime t) := coerce?_datetime_isoText t
    rw [ofJsonText?_datetime, Option.bind_some, hback]
    simp
  | uint n =>
    refine ⟨by rw [ofJsonText?_uint]; rfl, ?_, ?_⟩
    · have hkept := bind_coerce?_uint_eq_some_iff n
      constructor
      · rintro hback _ ⟨⟩
        exact hkept.1 hback
      · intro hsmall
        exact hkept.2 (hsmall n rfl)
    · rintro _ ⟨⟩ hlarge
      have hback := bind_coerce?_uint n
      rw [if_neg (Nat.not_lt.2 hlarge)] at hback
      exact hback
  | float x => exact absurd rfl h.1
  | double x => exact absurd rfl h.2

theorem bind_ofJsonText?_toJsonText_large_uints :
    (Scalar.uint 0x80000001).primitive.IsExact ∧
      (ofJsonText? (Scalar.uint 0x80000001).toJsonText).bind Primitive.uint.coerce? =
        some (.uint 0x80000000) ∧
      (ofJsonText? (Scalar.uint 0x80000100).toJsonText).bind Primitive.uint.coerce? =
        some (.uint 0x80000100) := by
  have hexact : (Scalar.uint 0x80000001).primitive.IsExact := by decide
  have hrounded := (bind_ofJsonText?_toJsonText hexact).2.2 0x80000001 rfl (by decide)
  have hkept := (bind_ofJsonText?_toJsonText (s := .uint 0x80000100) (by decide)).2.1
  refine ⟨hexact, hrounded.trans (by decide), hkept.2 ?_⟩
  rintro _ ⟨⟩
  decide

theorem greatest_uint_lost_in_json :
    (ofJsonText? (Scalar.uint 0xFFFFFFFF).toJsonText).bind Primitive.uint.coerce? = none := by
  rw [bind_coerce?_uint]
  decide

end Scalar

end RowTree
