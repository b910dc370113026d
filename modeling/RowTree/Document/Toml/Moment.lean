import RowTree.Calendar.Timestamp
import RowTree.Text.Reader

/-!
This module holds the dates and times of TOML, each of which stands for its text: the numbers with
all their digits, a `T` between a date and its time, and a fraction without zeros at its end.
-/

namespace RowTree

namespace Toml

namespace Moment

def date : TextReader (List Char) := fun cs => do
  let (year, cs) ← TextReader.digits 4 4 cs
  let ((), cs) ← TextReader.char '-' cs
  let (month, cs) ← TextReader.digits 2 2 cs
  let ((), cs) ← TextReader.char '-' cs
  let (day, cs) ← TextReader.digits 2 2 cs
  let _ ← Date.ofParts? year month day
  some (Timestamp.padded 4 year ++ '-' :: Timestamp.padded 2 month ++
    '-' :: Timestamp.padded 2 day, cs)

def fraction : TextReader (List Char)
  | '.' :: cs =>
    let places := cs.takeWhile Char.isDigit
    let kept := ((places.take 9).reverse.dropWhile (· == '0')).reverse
    if places = [] then
      none
    else
      some (if kept = [] then [] else '.' :: kept, cs.drop places.length)
  | cs => some ([], cs)

def time : TextReader (List Char) := fun cs => do
  let (hour, cs) ← TextReader.digits 2 2 cs
  let ((), cs) ← TextReader.char ':' cs
  let (minute, cs) ← TextReader.digits 2 2 cs
  let ((), cs) ← TextReader.char ':' cs
  let (second, cs) ← TextReader.digits 2 2 cs
  let (places, cs) ← fraction cs
  let _ ← TimeOfDay.ofParts? hour minute second 0
  some (Timestamp.padded 2 hour ++ ':' :: Timestamp.padded 2 minute ++
    ':' :: Timestamp.padded 2 second ++ places, cs)

/--
An offset from universal time below a day, or nothing. No offset is negative zero.
-/
def offset : TextReader (List Char)
  | 'Z' :: cs | 'z' :: cs => some (['Z'], cs)
  | sign :: cs =>
    if sign = '+' ∨ sign = '-' then do
      let (hours, cs) ← TextReader.digits 2 2 cs
      let ((), cs) ← TextReader.char ':' cs
      let (minutes, cs) ← TextReader.digits 2 2 cs
      if hours < 24 ∧ minutes < 60 then
        let shown := if hours = 0 ∧ minutes = 0 then '+' else sign
        some (shown :: Timestamp.padded 2 hours ++ ':' :: Timestamp.padded 2 minutes, cs)
      else
        none
    else
      some ([], sign :: cs)
  | [] => some ([], [])

/--
A date with a time, a date, or a time. Only a date with a time has an offset. A blank behind a date
that no time follows is left.
-/
def reader : TextReader (List Char) := fun cs =>
  match date cs with
  | none => time cs
  | some (day, rest) =>
    match rest with
    | c :: behind =>
      if c = 'T' ∨ c = 't' ∨ c = ' ' then
        match time behind with
        | some (clock, behind) =>
          (offset behind).map fun (shift, behind) => (day ++ 'T' :: clock ++ shift, behind)
        | none => if c = ' ' then some (day, rest) else none
      else
        some (day, rest)
    | [] => some (day, [])

def ofText? (text : String) : Option String :=
  match reader text.toList with
  | some (shown, []) => some (String.ofList shown)
  | _ => none

end Moment

end Toml

end RowTree
