import RowTree.Scalar.Coercion
import RowTree.Proofs.Calendar.RoundTrip

/-!
This module contains the way of a scalar through its text. Where no rounding takes part, the kind
reads the text back as the scalar without the fraction of its second (`Scalar.coerce?_text`), so
that two scalars of the kind have one text exactly if they differ in such a fraction at most
(`Scalar.text_eq_text_iff`).
-/

namespace RowTree

/--
The kinds whose values are not rounded.
-/
def Primitive.IsExact (p : Primitive) : Prop :=
  p ≠ .float ∧ p ≠ .double

instance (p : Primitive) : Decidable p.IsExact :=
  inferInstanceAs (Decidable (_ ∧ _))

namespace Scalar

def wholeSecond : Scalar → Scalar
  | .datetime t => .datetime t.wholeSecond
  | s => s

@[simp]
theorem primitive_wholeSecond (s : Scalar) : s.wholeSecond.primitive = s.primitive := by
  cases s <;> rfl

@[simp]
theorem text_wholeSecond (s : Scalar) : s.wholeSecond.text = s.text := by
  cases s <;> rfl

theorem integer?_string_ofInt (n : Int) :
    integer? (.string (String.ofList (Text.ofInt n))) = some n := by
  unfold integer?
  dsimp only
  rw [String.toList_ofList, Text.trimList_ofInt, Text.integer?_ofInt]

theorem integer?_text_int (n : Int32) :
    integer? (.string (Scalar.int n).text) = integer? (.int n) :=
  integer?_string_ofInt n.toInt

theorem integer?_text_uint (n : UInt32) :
    integer? (.string (Scalar.uint n).text) = integer? (.uint n) :=
  integer?_string_ofInt n.toNat

theorem truth?_text (b : Bool) : truth? (Scalar.bool b).text = some b := by
  cases b <;> decide

/--
A scalar whose kind does not round comes back from its text, but for the fraction of its second.
-/
theorem coerce?_text {s : Scalar} (h : s.primitive.IsExact) :
    s.primitive.coerce? (.string s.text) = some s.wholeSecond := by
  cases s with
  | int n =>
    have hself := Primitive.coerce?_self (.int n)
    simp only [primitive, Primitive.coerce?] at hself ⊢
    rw [integer?_text_int]
    exact hself
  | uint n =>
    have hself := Primitive.coerce?_self (.uint n)
    simp only [primitive, Primitive.coerce?] at hself ⊢
    rw [integer?_text_uint]
    exact hself
  | bool b =>
    simp only [primitive, Primitive.coerce?, truth?_text, Option.map_some]
    rfl
  | string s => rfl
  | datetime t =>
    simp only [primitive, Primitive.coerce?, text, Timestamp.ofList?_toText, Option.map_some]
    rfl
  | float x => exact absurd rfl h.1
  | double x => exact absurd rfl h.2

/--
Two scalars of a kind that does not round have one text exactly if they differ in the fraction of
their second at most.
-/
theorem text_eq_text_iff {s t : Scalar} (h : s.primitive.IsExact)
    (hkind : s.primitive = t.primitive) : s.text = t.text ↔ s.wholeSecond = t.wholeSecond := by
  constructor
  · intro htext
    have hs := coerce?_text h
    have ht := coerce?_text (hkind ▸ h)
    rw [htext, hkind, ht, Option.some.injEq] at hs
    exact hs.symm
  · intro hwhole
    rw [← text_wholeSecond s, hwhole, text_wholeSecond]

theorem text_forgets_fraction :
    let quarter : Scalar := .datetime ⟨⟨2021, 3, 4, by decide, by decide, by decide⟩,
      ⟨5, 6, 7, 250000000, by decide, by decide, by decide, by decide⟩⟩
    let half : Scalar := .datetime ⟨⟨2021, 3, 4, by decide, by decide, by decide⟩,
      ⟨5, 6, 7, 500000000, by decide, by decide, by decide, by decide⟩⟩
    Primitive.datetime.coerce? (.string "2021-03-04 05:06:07.25") = some quarter ∧
      Primitive.datetime.coerce? (.string "2021-03-04 05:06:07.5") = some half ∧
      quarter.text = half.text ∧ quarter ≠ half ∧
      Primitive.datetime.coerce? (.string quarter.text) ≠ some quarter := by
  decide

end Scalar

end RowTree
