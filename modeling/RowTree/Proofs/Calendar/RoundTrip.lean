import RowTree.Calendar.Reader
import RowTree.Proofs.Text.Numeral

/-!
This module contains what becomes of written timestamps when they are read. Each part comes back
from its text, and so does a timestamp from its text for exchange, whatever its year and its
fraction (`Timestamp.ofList?_toIsoText`). The text for readers gives the timestamp without its
fraction (`Timestamp.ofList?_toText`).
-/

namespace RowTree

theorem daysInMonth_le (year : Int) (month : Nat) : daysInMonth year month ≤ 31 := by
  unfold daysInMonth
  repeat' split
  all_goals decide

theorem Date.month_lt_hundred (d : Date) : d.month < 10 ^ 2 :=
  Nat.lt_of_le_of_lt d.month_range.2 (by decide)

theorem Date.day_lt_hundred (d : Date) : d.day < 10 ^ 2 :=
  Nat.lt_of_le_of_lt (Nat.le_trans d.day_range.2 (daysInMonth_le _ _)) (by decide)

theorem TimeOfDay.hour_lt_hundred (t : TimeOfDay) : t.hour < 10 ^ 2 :=
  Nat.lt_trans t.hour_lt (by decide)

theorem TimeOfDay.minute_lt_hundred (t : TimeOfDay) : t.minute < 10 ^ 2 :=
  Nat.lt_trans t.minute_lt (by decide)

theorem TimeOfDay.second_lt_hundred (t : TimeOfDay) : t.second < 10 ^ 2 :=
  Nat.lt_of_le_of_lt t.second_le (by decide)

namespace Timestamp

/-! ## Padded numbers -/

@[simp]
theorem digits?_padded (width n : Nat) : Text.digits? (padded width n) = some n := by
  rw [Text.digits?_eq_some_iff]
  unfold padded
  refine ⟨by simp [Text.ofNat_ne_nil], ?_, ?_⟩
  · intro c hc
    rw [List.mem_append] at hc
    rcases hc with hzero | hdigit
    · rw [List.eq_of_mem_replicate hzero]
      decide
    · exact Text.isDigit_of_mem_ofNat hdigit
  · rw [Nat.ofDigitChars_append, Nat.ofDigitChars_replicate_zero, Nat.mul_zero]
    exact Nat.ofDigitChars_ten_toDigits

theorem length_padded {width n : Nat} (hwidth : 0 < width) (hn : n < 10 ^ width) :
    (padded width n).length = width := by
  have hlength := Text.length_ofNat_le hwidth hn
  unfold padded
  rw [List.length_append, List.length_replicate]
  omega

end Timestamp

namespace TextReader

open Timestamp

variable {rest : List Char}

theorem digits_padded {width n : Nat} (hwidth : 0 < width) (hn : n < 10 ^ width)
    (hrest : ∀ c ∈ rest.head?, c.isDigit = false) :
    digits width width (padded width n ++ rest) = some (n, rest) := by
  have hlength := length_padded hwidth hn
  exact digits_append (digits?_padded width n) (by omega) (by omega) hrest

theorem number_padded {width n : Nat} (hwidth : 0 < width) (hn : n < 10 ^ width)
    (hrest : ∀ c ∈ rest.head?, c.isDigit = false) :
    number width (padded width n ++ rest) = some (n, rest) := by
  have hlength := length_padded hwidth hn
  unfold number
  rw [Text.trimFront_digits_append (digits?_padded width n)]
  exact digits_append (digits?_padded width n) (by omega) (by omega) hrest

@[simp]
theorem char_cons (c : Char) (cs : List Char) : char c (c :: cs) = some ((), cs) := by
  simp [char]

/-! ## Years and dates -/

theorem digits_padded_of_sign {n : Nat} (hrest : ∀ c ∈ rest.head?, c.isDigit = false) :
    digits 1 (padded 4 n ++ rest).length (padded 4 n ++ rest) = some (n, rest) := by
  obtain ⟨c, cs, hcons, _⟩ := Text.exists_cons_of_digits? (digits?_padded 4 n)
  apply digits_append (digits?_padded 4 n) _ _ hrest
  · rw [hcons]
    simp
  · simp

theorem year_of_sign {sign : Char} (hsign : sign = '-' ∨ sign = '+') {cs : List Char} {n : Nat}
    (h : digits 1 cs.length cs = some (n, rest)) :
    year (sign :: cs) = some (if sign = '-' then -Int.ofNat n else Int.ofNat n, rest) := by
  have hblank : Text.isBlank sign = false := by
    obtain rfl | rfl := hsign <;> decide
  have htrim : Text.trimFront (sign :: cs) = sign :: cs :=
    Text.trimFront_eq_self (by simpa using hblank)
  have hread : year (sign :: cs) = (digits 1 cs.length cs).map fun x =>
      (if sign = '-' then -Int.ofNat x.1 else Int.ofNat x.1, x.2) := by
    unfold year
    rw [htrim]
    obtain rfl | rfl := hsign <;> rfl
  rw [hread, h]
  rfl

theorem year_of_isDigit {c : Char} {cs : List Char} {n : Nat} (hc : c.isDigit = true)
    (h : digits 1 4 (c :: cs) = some (n, rest)) : year (c :: cs) = some (Int.ofNat n, rest) := by
  have htrim : Text.trimFront (c :: cs) = c :: cs :=
    Text.trimFront_eq_self (by simpa using Text.isBlank_of_isDigit hc)
  unfold year
  rw [htrim]
  split
  · next heq =>
    cases heq
    exact absurd hc (by decide)
  · next heq =>
    cases heq
    exact absurd hc (by decide)
  · rw [h]
    rfl

theorem year_yearText (y : Int) (hrest : ∀ c ∈ rest.head?, c.isDigit = false) :
    year (yearText y ++ rest) = some (y, rest) := by
  unfold yearText
  split
  · have hback : -Int.ofNat y.natAbs = y := by
      rw [Int.ofNat_eq_natCast]
      omega
    rw [List.cons_append, year_of_sign (.inl rfl) (digits_padded_of_sign hrest), if_pos rfl, hback]
  · have hback : Int.ofNat y.natAbs = y := by
      rw [Int.ofNat_eq_natCast]
      omega
    split
    · rw [List.cons_append, year_of_sign (.inr rfl) (digits_padded_of_sign hrest),
        if_neg (by decide), hback]
    · have hlength : (padded 4 y.natAbs).length = 4 := length_padded (by decide) (by omega)
      have hread : digits 1 4 (padded 4 y.natAbs ++ rest) = some (y.natAbs, rest) :=
        digits_append (digits?_padded 4 y.natAbs) (by omega) (by omega) hrest
      obtain ⟨c, cs, hcons, hc⟩ := Text.exists_cons_of_digits? (digits?_padded 4 y.natAbs)
      rw [hcons, List.cons_append] at hread ⊢
      rw [year_of_isDigit hc hread, hback]

theorem date_text (d : Date) (hrest : ∀ c ∈ rest.head?, c.isDigit = false) :
    date (yearText d.year ++ '-' :: (padded 2 d.month ++ '-' :: (padded 2 d.day ++ rest))) =
      some (d, rest) := by
  unfold date
  rw [year_yearText _ (by simp)]
  dsimp only [Option.bind_eq_bind, Option.bind_some]
  rw [char_cons]
  dsimp only [Option.bind_some]
  rw [number_padded (by decide) d.month_lt_hundred (by simp)]
  dsimp only [Option.bind_some]
  rw [char_cons]
  dsimp only [Option.bind_some]
  rw [number_padded (by decide) d.day_lt_hundred hrest]
  dsimp only [Option.bind_some]
  rw [Date.ofParts?_self]
  rfl

/-! ## Fractions -/

theorem fraction_append {ds : List Char} {n : Nat} (h : Text.digits? ds = some n)
    (hlength : ds.length ≤ 9) (hrest : ∀ c ∈ rest.head?, c.isDigit = false) :
    fraction (ds ++ rest) = some (n * 10 ^ (9 - ds.length), rest) := by
  obtain ⟨hne, hdigit, hvalue⟩ := Text.digits?_eq_some_iff.1 h
  unfold fraction
  rw [Text.takeWhile_isDigit_append hdigit hrest]
  dsimp only
  rw [if_neg hne, List.take_of_length_le hlength, hvalue, List.drop_left]
  rfl

theorem fraction?_padded {width n : Nat} (hwidth : 0 < width) (hhigh : width ≤ 9)
    (hn : n < 10 ^ width) (hrest : ∀ c ∈ rest.head?, c.isDigit = false) :
    fraction? ('.' :: padded width n ++ rest) = some (n * 10 ^ (9 - width), rest) := by
  have hlength := length_padded hwidth hn
  have hread := fraction_append (digits?_padded width n) (by omega) hrest
  rw [hlength] at hread
  exact hread

theorem fraction?_fractionText {nanosecond : Nat} (h : nanosecond < 1000000000) :
    fraction? (fractionText nanosecond) = some (nanosecond, []) := by
  unfold fractionText
  split
  · next hzero =>
    rw [hzero]
    rfl
  · split
    · next hmilli =>
      have hread := @fraction?_padded [] 3 (nanosecond / 1000000) (by decide) (by decide)
        (by omega) (by simp)
      rw [List.append_nil] at hread
      have hback : nanosecond / 1000000 * 10 ^ (9 - 3) = nanosecond :=
        Nat.div_mul_cancel (Nat.dvd_of_mod_eq_zero hmilli)
      rw [hread, hback]
    · split
      · next hmicro =>
        have hread := @fraction?_padded [] 6 (nanosecond / 1000) (by decide) (by decide)
          (by omega) (by simp)
        rw [List.append_nil] at hread
        have hback : nanosecond / 1000 * 10 ^ (9 - 6) = nanosecond :=
          Nat.div_mul_cancel (Nat.dvd_of_mod_eq_zero hmicro)
        rw [hread, hback]
      · have hread := @fraction?_padded [] 9 nanosecond (by decide) (by decide) (by omega)
          (by simp)
        rw [List.append_nil] at hread
        rw [hread, Nat.sub_self, Nat.pow_zero, Nat.mul_one]

end TextReader

namespace Timestamp

open TextReader

/-! ## Timestamps -/

/--
The written form that keeps the fraction, with a separator of choice.
-/
def fullText (sep : Char) (t : Timestamp) : List Char :=
  t.secondsText sep ++ fractionText t.time.nanosecond

def wholeSecond (t : Timestamp) : Timestamp :=
  ⟨t.date, { t.time with nanosecond := 0, nanosecond_lt := Nat.zero_lt_succ _ }⟩

variable {sep : Char}

theorem fullText_eq (sep : Char) (t : Timestamp) :
    t.fullText sep = yearText t.date.year ++ '-' :: (padded 2 t.date.month ++
      '-' :: (padded 2 t.date.day ++ sep :: (padded 2 t.time.hour ++
        ':' :: (padded 2 t.time.minute ++ ':' :: (padded 2 t.time.second ++
          fractionText t.time.nanosecond))))) := by
  simp [fullText, secondsText]

theorem fullText_wholeSecond (sep : Char) (t : Timestamp) :
    t.wholeSecond.fullText sep = t.secondsText sep := by
  unfold fullText wholeSecond
  exact List.append_nil _

theorem head?_fractionText (nanosecond : Nat) :
    ∀ c ∈ (fractionText nanosecond).head?, c.isDigit = false := by
  unfold fractionText
  repeat' split
  all_goals simp

theorem head?_separator (hsep : sep = ' ' ∨ sep = 'T') {cs : List Char} :
    ∀ c ∈ (sep :: cs).head?, c.isDigit = false := by
  rcases hsep with rfl | rfl <;> simp

theorem separator_padded (hsep : sep = ' ' ∨ sep = 'T') {width n : Nat} {rest : List Char} :
    separator (sep :: (padded width n ++ rest)) = padded width n ++ rest := by
  rcases hsep with rfl | rfl
  · exact Text.trimFront_digits_append (digits?_padded width n)
  · rfl

theorem ofLocal?_fullText (hsep : sep = ' ' ∨ sep = 'T') (t : Timestamp) :
    ofLocal? (t.fullText sep) = some t := by
  unfold ofLocal?
  rw [fullText_eq, date_text t.date (head?_separator hsep)]
  dsimp only [Option.bind_eq_bind, Option.bind_some]
  rw [separator_padded hsep, number_padded (by decide) t.time.hour_lt_hundred (by simp)]
  dsimp only [Option.bind_some]
  rw [char_cons]
  dsimp only [Option.bind_some]
  rw [number_padded (by decide) t.time.minute_lt_hundred (by simp)]
  dsimp only [Option.bind_some]
  rw [char_cons]
  dsimp only [Option.bind_some]
  rw [number_padded (by decide) t.time.second_lt_hundred (head?_fractionText _)]
  dsimp only [Option.bind_some]
  rw [fraction?_fractionText t.time.nanosecond_lt]
  dsimp only [Option.bind_some]
  rw [TimeOfDay.ofParts?_self]
  rfl

/--
A written timestamp has no offset, which an internet timestamp must have.
-/
theorem ofInternet?_fullText (hsep : sep = ' ' ∨ sep = 'T') (t : Timestamp) :
    ofInternet? (t.fullText sep) = none := by
  have hkind : ¬(sep ≠ 'T' ∧ sep ≠ 't' ∧ sep ≠ ' ') := by
    rcases hsep with rfl | rfl <;> simp
  unfold ofInternet?
  rw [fullText_eq]
  by_cases hyear : 0 ≤ t.date.year ∧ t.date.year ≤ 9999
  · have htext : yearText t.date.year = padded 4 t.date.year.natAbs := by
      unfold yearText
      rw [if_neg (by omega), if_neg (by omega)]
    rw [htext, digits_padded (by decide) (by omega) (by simp)]
    dsimp only [Option.bind_eq_bind, Option.bind_some]
    rw [char_cons]
    dsimp only [Option.bind_some]
    rw [digits_padded (by decide) t.date.month_lt_hundred (by simp)]
    dsimp only [Option.bind_some]
    rw [char_cons]
    dsimp only [Option.bind_some]
    rw [digits_padded (by decide) t.date.day_lt_hundred (head?_separator hsep)]
    dsimp only [Option.bind_some, List.head?_cons, List.tail_cons]
    rw [if_neg hkind, digits_padded (by decide) t.time.hour_lt_hundred (by simp)]
    dsimp only [Option.bind_some]
    rw [char_cons]
    dsimp only [Option.bind_some]
    rw [digits_padded (by decide) t.time.minute_lt_hundred (by simp)]
    dsimp only [Option.bind_some]
    rw [char_cons]
    dsimp only [Option.bind_some]
    rw [digits_padded (by decide) t.time.second_lt_hundred (head?_fractionText _)]
    dsimp only [Option.bind_some]
    rw [fraction?_fractionText t.time.nanosecond_lt]
    rfl
  · have hnone : ∀ rest, digits 4 4 (yearText t.date.year ++ '-' :: rest) = none := by
      intro rest
      unfold yearText
      split
      · rfl
      · rw [if_pos (by omega)]
        rfl
    rw [hnone]
    rfl

theorem ofList?_fullText (hsep : sep = ' ' ∨ sep = 'T') (t : Timestamp) :
    ofList? (t.fullText sep) = some t := by
  unfold ofList?
  rw [ofInternet?_fullText hsep, ofLocal?_fullText hsep]
  rfl

/-! ## Blanks at the ends -/

theorem isBlank_head?_yearText (y : Int) {rest : List Char} :
    ∀ c ∈ (yearText y ++ rest).head?, Text.isBlank c = false := by
  unfold yearText
  split
  · rintro _ ⟨⟩
    decide
  · split
    · rintro _ ⟨⟩
      decide
    · obtain ⟨c, cs, hcons, hc⟩ := Text.exists_cons_of_digits? (digits?_padded 4 y.natAbs)
      rw [hcons]
      rintro _ ⟨⟩
      exact Text.isBlank_of_isDigit hc

theorem exists_padded_of_fullText (sep : Char) (t : Timestamp) :
    ∃ front width n, t.fullText sep = front ++ padded width n := by
  unfold fullText fractionText
  repeat' split
  · exact ⟨_, 2, t.time.second, by rw [List.append_nil, secondsText, List.append_cons]⟩
  all_goals exact ⟨_, _, _, by rw [List.append_cons]⟩

theorem trimList_fullText (sep : Char) (t : Timestamp) :
    Text.trimList (t.fullText sep) = t.fullText sep := by
  apply Text.trimList_eq_self_iff.2
  constructor
  · rw [fullText_eq]
    exact isBlank_head?_yearText _
  · obtain ⟨front, width, n, htext⟩ := exists_padded_of_fullText sep t
    obtain ⟨hne, hdigit, _⟩ := Text.digits?_eq_some_iff.1 (digits?_padded width n)
    rw [htext, List.getLast?_append, List.getLast?_eq_some_getLast hne, Option.some_or]
    rintro _ ⟨⟩
    exact Text.isBlank_of_isDigit (hdigit _ (List.getLast_mem hne))

theorem ofList?_toIsoText (t : Timestamp) :
    ofList? (Text.trimList t.toIsoText.toList) = some t := by
  have htext : t.toIsoText.toList = t.fullText 'T' := String.toList_ofList
  rw [htext, trimList_fullText, ofList?_fullText (.inr rfl)]

theorem trimList_toText (t : Timestamp) :
    Text.trimList t.toText.toList = t.wholeSecond.fullText ' ' := by
  have htext : t.toText.toList = t.wholeSecond.fullText ' ' := by
    rw [fullText_wholeSecond]
    exact String.toList_ofList
  rw [htext, trimList_fullText]

theorem ofList?_toText (t : Timestamp) :
    ofList? (Text.trimList t.toText.toList) = some t.wholeSecond := by
  rw [trimList_toText, ofList?_fullText (.inl rfl)]

end Timestamp

end RowTree
