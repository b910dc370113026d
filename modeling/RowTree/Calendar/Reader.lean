import RowTree.Calendar.Timestamp
import RowTree.Text.Reader

/-!
This module holds the reading of timestamps. A text is first tried as an internet timestamp, with
its offset from universal time, then as a local date and time whose parts may be short and may
have blanks in front, and last as a date alone, which stands for its midnight.
-/

namespace RowTree

namespace TextReader

def number (high : Nat) : TextReader Nat := fun cs =>
  digits 1 high (Text.trimFront cs)

/--
A number of at most four digits, or of any length behind a sign, behind any blanks.
-/
def year : TextReader Int := fun cs =>
  match Text.trimFront cs with
  | '-' :: rest => (digits 1 rest.length rest).map fun (n, rest) => (-Int.ofNat n, rest)
  | '+' :: rest => (digits 1 rest.length rest).map fun (n, rest) => (Int.ofNat n, rest)
  | rest => (digits 1 4 rest).map fun (n, rest) => (Int.ofNat n, rest)

/--
The nanoseconds of a fraction: at least one digit, and digits beyond the ninth do not count.
-/
def fraction : TextReader Nat := fun cs =>
  let places := cs.takeWhile Char.isDigit
  if places = [] then
    none
  else
    let kept := places.take 9
    some (Nat.ofDigitChars 10 kept 0 * Nat.pow 10 (9 - kept.length), cs.drop places.length)

def fraction? : TextReader Nat
  | '.' :: cs => fraction cs
  | cs => some (0, cs)

def date : TextReader Date := fun cs => do
  let (year, cs) ← year cs
  let ((), cs) ← char '-' cs
  let (month, cs) ← number 2 cs
  let ((), cs) ← char '-' cs
  let (day, cs) ← number 2 cs
  let date ← Date.ofParts? year month day
  some (date, cs)

end TextReader

namespace Timestamp

open TextReader

/--
An offset from universal time in minutes, below a day: `Z`, or a sign, two digits, a colon and
two digits.
-/
def offset : TextReader Int
  | 'Z' :: cs | 'z' :: cs => some (0, cs)
  | sign :: cs => do
    let direction : Int ←
      if sign = '+' then some 1 else if sign = '-' ∨ sign = '\u2212' then some (-1) else none
    let (hours, cs) ← digits 2 2 cs
    let ((), cs) ← char ':' cs
    let (minutes, cs) ← digits 2 2 cs
    if hours < 24 ∧ minutes < 60 then
      some (direction * (hours * 60 + minutes), cs)
    else
      none
  | [] => none

/--
Read an internet timestamp and bring it to universal time. All parts have their full width.
-/
def ofInternet? (cs : List Char) : Option Timestamp := do
  let (year, cs) ← digits 4 4 cs
  let ((), cs) ← char '-' cs
  let (month, cs) ← digits 2 2 cs
  let ((), cs) ← char '-' cs
  let (day, cs) ← digits 2 2 cs
  let separator ← cs.head?
  let cs := cs.tail
  if separator ≠ 'T' ∧ separator ≠ 't' ∧ separator ≠ ' ' then
    none
  let (hour, cs) ← digits 2 2 cs
  let ((), cs) ← char ':' cs
  let (minute, cs) ← digits 2 2 cs
  let ((), cs) ← char ':' cs
  let (second, cs) ← digits 2 2 cs
  let (nanosecond, cs) ← fraction? cs
  let (minutes, cs) ← offset cs
  if cs ≠ [] then
    none
  let date ← Date.ofParts? year month day
  let time ← TimeOfDay.ofParts? hour minute second nanosecond
  minusMinutes? ⟨date, time⟩ minutes

def separator (cs : List Char) : List Char :=
  match cs with
  | 'T' :: rest => rest
  | _ => Text.trimFront cs

def ofLocal? (cs : List Char) : Option Timestamp := do
  let (date, cs) ← TextReader.date cs
  let (hour, cs) ← number 2 (separator cs)
  let ((), cs) ← char ':' cs
  let (minute, cs) ← number 2 cs
  let ((), cs) ← char ':' cs
  let (second, cs) ← number 2 cs
  let (nanosecond, cs) ← fraction? cs
  if cs ≠ [] then
    none
  let time ← TimeOfDay.ofParts? hour minute second nanosecond
  some ⟨date, time⟩

def ofDate? (cs : List Char) : Option Timestamp := do
  let (date, cs) ← TextReader.date cs
  if cs ≠ [] then
    none
  some ⟨date, .midnight⟩

/--
Read a timestamp in the first form that fits.
-/
def ofList? (cs : List Char) : Option Timestamp :=
  (ofInternet? cs).or ((ofLocal? cs).or (ofDate? cs))

end Timestamp

end RowTree
