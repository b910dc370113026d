import RowTree.Document.JsonNumber
import RowTree.Proofs.Text.Numeral

/-!
This module contains what is read of JSON text that was written: a quoted string comes back
(`Json.ofText?_quote`), and so does a decimal integer, with its digits (`Json.ofText?_ofInt`).
-/

namespace RowTree

namespace Json

/-! ## Strings -/

theorem hexValue?_hexChars :
    ∀ n < 32, TextReader.hexValue? ['0', '0', hexChar (n / 16), hexChar (n % 16)] = some n := by
  decide

theorem codes_of_plain {c : Char} (hquote : c ≠ '\x22') (hslash : c ≠ '\\')
    (hcontrol : ¬c.toNat < 0x20) (cs : List Char) :
    codes (c :: cs) = (codes cs).map fun read => (c.toNat :: read.1, read.2) := by
  rw [codes]
  · rw [if_neg (by simp [hcontrol, hslash])]
    cases codes cs <;> rfl
  · simpa using hquote
  · simp [hslash]
  · simp [hslash]

theorem codes_of_escape {c : Char} {code : Nat} (h : escapeCode? c = some code)
    (cs : List Char) :
    codes ('\\' :: c :: cs) = (codes cs).map fun read => (code :: read.1, read.2) := by
  rw [codes]
  · rw [h]
    cases codes cs <;> rfl
  · rintro _ _ _ _ _ rfl
    cases h

theorem codes_quoteChar (c : Char) (cs : List Char) :
    codes (quoteChar c ++ cs) = (codes cs).map fun read => (c.toNat :: read.1, read.2) := by
  unfold quoteChar
  split
  case h_8 hquote hslash _ _ _ _ _ =>
    split
    · next hcontrol =>
      simp only [List.cons_append, List.nil_append]
      rw [codes, hexValue?_hexChars _ hcontrol]
      cases codes cs <;> rfl
    · next hcontrol => exact codes_of_plain hquote hslash hcontrol cs
  all_goals exact codes_of_escape rfl cs

theorem codes_quoted (cs rest : List Char) :
    codes (cs.flatMap quoteChar ++ '\x22' :: rest) = some (cs.map Char.toNat, rest) := by
  induction cs with
  | nil => rfl
  | cons c cs ih =>
    rw [List.flatMap_cons, List.append_assoc, codes_quoteChar, ih]
    rfl

theorem charOfCode?_toNat (c : Char) : TextReader.charOfCode? c.toNat = some c :=
  dif_pos c.valid

/--
No character is half of a surrogate pair, so that each code is read alone.
-/
theorem charsOfCodes?_map_toNat (cs : List Char) : charsOfCodes? (cs.map Char.toNat) = some cs := by
  induction cs with
  | nil => rfl
  | cons c cs ih =>
    cases cs with
    | nil =>
      rw [List.map_cons, List.map_nil, charsOfCodes?, charOfCode?_toNat]
      rfl
    | cons d cs =>
      have hvalid : c.toNat < 0xD800 ∨ (0xDFFF < c.toNat ∧ c.toNat < 0x110000) := c.valid
      rw [List.map_cons] at ih ⊢
      rw [List.map_cons, charsOfCodes?, if_neg (by omega), charOfCode?_toNat]
      dsimp only [Option.bind_eq_bind, Option.bind_some]
      rw [ih]
      rfl

theorem stringBody_quoted (s : String) (rest : List Char) :
    stringBody (s.toList.flatMap quoteChar ++ '\x22' :: rest) = some (some s, rest) := by
  unfold stringBody
  rw [codes_quoted]
  dsimp only [Option.bind_eq_bind, Option.bind_some]
  rw [charsOfCodes?_map_toNat, Option.map_some, String.ofList_toList]

/-! ## Values by their first character -/

theorem skipBlanks_of_isDigit {c : Char} (hc : c.isDigit = true) (cs : List Char) :
    skipBlanks (c :: cs) = c :: cs := by
  apply List.dropWhile_cons_of_neg
  intro hblank
  simp only [Bool.or_eq_true, beq_iff_eq] at hblank
  rcases hblank with ((rfl | rfl) | rfl) | rfl <;> exact absurd hc (by decide)

theorem value_cons_quote (fuel : Nat) (cs : List Char) :
    value (fuel + 1) ('\x22' :: cs) =
      (stringBody cs).map fun read => (.string read.1, read.2) := by
  rw [value, show skipBlanks ('\x22' :: cs) = '\x22' :: cs from rfl]
  rfl

theorem value_cons_minus (fuel : Nat) (cs : List Char) :
    value (fuel + 1) ('-' :: cs) =
      (unsignedNumber true cs).map fun read => (.number read.1, read.2) := by
  rw [value, show skipBlanks ('-' :: cs) = '-' :: cs from rfl]
  rfl

theorem value_of_isDigit (fuel : Nat) {c : Char} (hc : c.isDigit = true) (cs : List Char) :
    value (fuel + 1) (c :: cs) =
      (unsignedNumber false (c :: cs)).map fun read => (.number read.1, read.2) := by
  rw [value, skipBlanks_of_isDigit hc]
  split
  case h_8 => rfl
  all_goals
    next heq =>
      cases heq
      exact absurd hc (by decide)

/-! ## Numbers -/

theorem unsignedNumber_ofNat (negative : Bool) (n : Nat) :
    unsignedNumber negative (Text.ofNat n) = some (⟨negative, Text.ofNat n, [], none⟩, []) := by
  have hdigit : ∀ c ∈ Text.ofNat n, c.isDigit = true := fun _ => Text.isDigit_of_mem_ofNat
  have hwhole : (Text.ofNat n).takeWhile Char.isDigit = Text.ofNat n := by
    have happend := @Text.takeWhile_isDigit_append _ [] hdigit (by simp)
    rwa [List.append_nil] at happend
  have hzero : ¬(Text.ofNat n = [] ∨
      ((Text.ofNat n).head? = some '0' ∧ (Text.ofNat n).length ≠ 1)) := by
    rintro (hnil | ⟨hhead, hlength⟩)
    · exact Text.ofNat_ne_nil n hnil
    · cases n with
      | zero => exact hlength rfl
      | succ n => exact Text.head?_ofNat (Nat.succ_pos n) hhead
  unfold unsignedNumber
  rw [hwhole]
  dsimp only [Option.bind_eq_bind]
  rw [if_neg hzero, List.drop_length]
  rfl

theorem value_ofInt (fuel : Nat) (n : Int) :
    value (fuel + 1) (Text.ofInt n) =
      some (.number ⟨decide (n < 0), Text.ofNat n.natAbs, [], none⟩, []) := by
  cases n with
  | ofNat n =>
    have hread := unsignedNumber_ofNat false n
    obtain ⟨c, cs, hcons, hc⟩ := Text.exists_cons_of_digits? (Text.digits?_ofNat n)
    unfold Text.ofInt
    dsimp only
    rw [hcons] at hread ⊢
    rw [value_of_isDigit fuel hc, hread, ← hcons]
    rfl
  | negSucc n =>
    unfold Text.ofInt
    dsimp only
    rw [value_cons_minus, unsignedNumber_ofNat, decide_eq_true (Int.negSucc_lt_zero n)]
    rfl

/-! ## Whole texts -/

theorem ofText?_of_value {text : String} {json : Json}
    (h : ∀ fuel, value (fuel + 1) text.toList = some (json, [])) : ofText? text = some json := by
  unfold ofText?
  rw [h]
  rfl

theorem ofText?_quote (s : String) : ofText? (quote s) = some (.string (some s)) := by
  apply ofText?_of_value
  intro fuel
  unfold quote
  rw [String.toList_ofList, List.cons_append, value_cons_quote, stringBody_quoted]
  rfl

theorem ofText?_ofInt (n : Int) :
    ofText? (String.ofList (Text.ofInt n)) =
      some (.number ⟨decide (n < 0), Text.ofNat n.natAbs, [], none⟩) := by
  apply ofText?_of_value
  intro fuel
  rw [String.toList_ofList, value_ofInt]

theorem ofText?_bool (b : Bool) :
    ofText? (if b then "true" else "false") = some (.bool b) := by
  cases b <;> exact ofText?_of_value fun _ => rfl

end Json

theorem JsonNumber.integer?_ofInt {n : Int} (hlow : -0x8000000000000000 ≤ n)
    (hhigh : n < 0x10000000000000000) :
    JsonNumber.integer? ⟨decide (n < 0), Text.ofNat n.natAbs, [], none⟩ = some n := by
  have hvalue : Nat.ofDigitChars 10 (Text.ofNat n.natAbs) 0 = n.natAbs :=
    Nat.ofDigitChars_ten_toDigits
  unfold JsonNumber.integer?
  dsimp only
  rw [if_pos ⟨rfl, rfl⟩, hvalue]
  split
  · next hnegative =>
    rw [decide_eq_true_eq] at hnegative
    rw [if_pos (by omega), Option.some.injEq]
    omega
  · next hpositive =>
    rw [decide_eq_true_eq] at hpositive
    rw [if_pos (by omega), Option.some.injEq]
    omega

end RowTree
