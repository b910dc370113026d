import RowTree.Calendar.Date
import RowTree.Text.Integer

/-!
This module holds a date with a time of day, the shift to another offset from universal time, and
the two written forms: one for readers, down to the second, and one for exchange, which keeps the
fraction of the second.
-/

namespace RowTree

/--
A time of day. The second 60 is a leap second, which any minute may have. No text gives a leap
second behind any other second than the last one of a minute.
-/
structure TimeOfDay where
  hour : Nat
  minute : Nat
  second : Nat
  nanosecond : Nat
  hour_lt : hour < 24
  minute_lt : minute < 60
  second_le : second ≤ 60
  nanosecond_lt : nanosecond < 1000000000
  deriving DecidableEq

structure Timestamp where
  date : Date
  time : TimeOfDay
  deriving DecidableEq

namespace TimeOfDay

def ofParts? (hour minute second nanosecond : Nat) : Option TimeOfDay :=
  if h : hour < 24 ∧ minute < 60 ∧ second ≤ 60 ∧ nanosecond < 1000000000 then
    some ⟨hour, minute, second, nanosecond, h.1, h.2.1, h.2.2.1, h.2.2.2⟩
  else
    none

def midnight : TimeOfDay :=
  ⟨0, 0, 0, 0, by decide, by decide, by decide, by decide⟩

@[simp]
theorem ofParts?_self (t : TimeOfDay) :
    ofParts? t.hour t.minute t.second t.nanosecond = some t := by
  simp [ofParts?, t.hour_lt, t.minute_lt, t.second_le, t.nanosecond_lt]

/--
The nanoseconds since the last full second, where a leap second counts as the second before it
going on.
-/
def subsecond (t : TimeOfDay) : Nat :=
  if t.second = 60 then t.nanosecond + 1000000000 else t.nanosecond

end TimeOfDay

namespace Timestamp

/--
The timestamp some minutes earlier, at most a day.
-/
def minusMinutes? (t : Timestamp) (minutes : Int) : Option Timestamp :=
  let total : Int := t.time.hour * 60 + t.time.minute - minutes
  let date :=
    if total < 0 then t.date.previous? else if 1440 ≤ total then t.date.next? else some t.date
  let inDay := (total % 1440).toNat
  match date, TimeOfDay.ofParts? (inDay / 60) (inDay % 60) t.time.second t.time.nanosecond with
  | some date, some time => some ⟨date, time⟩
  | _, _ => none

def padded (width n : Nat) : List Char :=
  let digits := Text.ofNat n
  List.replicate (width - digits.length) '0' ++ digits

/--
A year has four digits, and more digits or a negative year also a sign.
-/
def yearText (year : Int) : List Char :=
  if year < 0 then
    '-' :: padded 4 year.natAbs
  else if 9999 < year then
    '+' :: padded 4 year.natAbs
  else
    padded 4 year.natAbs

def secondsText (separator : Char) (t : Timestamp) : List Char :=
  yearText t.date.year ++ '-' :: padded 2 t.date.month ++ '-' :: padded 2 t.date.day ++
    separator :: padded 2 t.time.hour ++ ':' :: padded 2 t.time.minute ++
    ':' :: padded 2 t.time.second

/--
The fraction of a second with as many places as it needs, in steps of three.
-/
def fractionText (nanosecond : Nat) : List Char :=
  if nanosecond = 0 then
    []
  else if nanosecond % 1000000 = 0 then
    '.' :: padded 3 (nanosecond / 1000000)
  else if nanosecond % 1000 = 0 then
    '.' :: padded 6 (nanosecond / 1000)
  else
    '.' :: padded 9 nanosecond

def toText (t : Timestamp) : String :=
  String.ofList (t.secondsText ' ')

def toIsoText (t : Timestamp) : String :=
  String.ofList (t.secondsText 'T' ++ fractionText t.time.nanosecond)

end Timestamp

end RowTree
