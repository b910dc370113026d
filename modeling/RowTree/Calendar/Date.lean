/-!
This module holds dates of the Gregorian calendar, continued to all years that a date can have,
and the step from a day to its neighbours.
-/

namespace RowTree

def isLeapYear (year : Int) : Bool :=
  year % 4 == 0 && (year % 100 != 0 || year % 400 == 0)

def daysInMonth (year : Int) (month : Nat) : Nat :=
  match month with
  | 2 => if isLeapYear year then 29 else 28
  | 4 | 6 | 9 | 11 => 30
  | _ => 31

/--
A date. The year before 1 is 0, and the year before that is -1.
-/
structure Date where
  year : Int
  month : Nat
  day : Nat
  year_range : -262143 ≤ year ∧ year ≤ 262142
  month_range : 1 ≤ month ∧ month ≤ 12
  day_range : 1 ≤ day ∧ day ≤ daysInMonth year month
  deriving DecidableEq

namespace Date

def ofParts? (year : Int) (month day : Nat) : Option Date :=
  if h : (-262143 ≤ year ∧ year ≤ 262142) ∧ (1 ≤ month ∧ month ≤ 12) ∧
      (1 ≤ day ∧ day ≤ daysInMonth year month) then
    some ⟨year, month, day, h.1, h.2.1, h.2.2⟩
  else
    none

def next? (d : Date) : Option Date :=
  if d.day < daysInMonth d.year d.month then
    ofParts? d.year d.month (d.day + 1)
  else if d.month < 12 then
    ofParts? d.year (d.month + 1) 1
  else
    ofParts? (d.year + 1) 1 1

def previous? (d : Date) : Option Date :=
  if 1 < d.day then
    ofParts? d.year d.month (d.day - 1)
  else if 1 < d.month then
    ofParts? d.year (d.month - 1) (daysInMonth d.year (d.month - 1))
  else
    ofParts? (d.year - 1) 12 31

@[simp]
theorem ofParts?_self (d : Date) : ofParts? d.year d.month d.day = some d := by
  simp [ofParts?, d.year_range, d.month_range, d.day_range]

end Date

end RowTree
