import RowTree.Document.Ron.Literal

/-!
This module holds the reading of the object notation with named groups, `Name(part: value)`. Lists
stand in brackets, maps in braces, a comma may follow the last item, and a value that may be
missing is `None` or `Some(value)`. Values stand inside each other only up to a limit.
-/

namespace RowTree

namespace Ron

/-! ## Starts of values -/

/--
What a value starts with: it is complete in one piece, it is the content of `Some`, or it is a
list, a map or a group behind the opening mark.
-/
inductive Start where
  | single (datum : Datum)
  | content
  | list
  | map
  | group (tag? : Option String)

/--
The rest behind a word, if no character follows that could belong to the word.
-/
def afterWord? (word : String) (cs : List Char) : Option (List Char) :=
  (TextReader.rest? word.toList cs).filter fun rest => !rest.head?.any isNameChar

def keywords : List (String × Start) :=
  [("true", .single (.flag true)), ("false", .single (.flag false)), ("None", .single .other),
    ("inf", .single .other), ("NaN", .single .other), ("Some", .content)]

def keyword : TextReader Start := fun cs =>
  keywords.findSome? fun (word, start) => (afterWord? word cs).map (start, ·)

def named (tag : String) (cs : List Char) : Option (Start × List Char) := do
  match ← skip cs with
  | '(' :: cs => some (.group (some tag), cs)
  | cs => some (.single .other, cs)

def unnamed : TextReader Start := fun cs =>
  match cs with
  | '(' :: ')' :: cs => some (.single .other, cs)
  | '(' :: cs => some (.group none, cs)
  | '[' :: cs => some (.list, cs)
  | '\x7b' :: cs => some (.map, cs)
  | '\x27' :: _ => (character cs).map fun ((), cs) => (.single .other, cs)
  | cs =>
    match string cs with
    | some (s, cs) => some (.single (.text s), cs)
    | none => (number cs).map fun ((), cs) => (.single .other, cs)

def start : TextReader Start := fun cs =>
  match keyword cs with
  | some found => some found
  | none =>
    match name cs with
    | some (tag, cs) => named tag cs
    | none => unnamed cs

/-! ## Items -/

def sequence (item : TextReader Datum) (closing : Char) : Nat → TextReader (List Datum)
  | 0, _ => none
  | fuel + 1, cs => do
    let cs ← skip cs
    if cs.head? = some closing then
      some ([], cs.tail)
    else
      let (datum, cs) ← item cs
      let cs ← skip cs
      match cs with
      | ',' :: cs => (sequence item closing fuel cs).map fun (rest, cs) => (datum :: rest, cs)
      | c :: cs => if c = closing then some ([datum], cs) else none
      | [] => none

def parts (item : TextReader Datum) : Nat → TextReader (List (String × Datum))
  | 0, _ => none
  | fuel + 1, cs => do
    let cs ← skip cs
    match cs with
    | ')' :: cs => some ([], cs)
    | cs =>
      let (label, cs) ← name cs
      let cs ← skip cs
      let ((), cs) ← TextReader.char ':' cs
      let cs ← skip cs
      let (datum, cs) ← item cs
      let cs ← skip cs
      match cs with
      | ',' :: cs => (parts item fuel cs).map fun (rest, cs) => ((label, datum) :: rest, cs)
      | ')' :: cs => some ([(label, datum)], cs)
      | _ => none

def pairs (item : TextReader Datum) : Nat → TextReader Unit
  | 0, _ => none
  | fuel + 1, cs => do
    let cs ← skip cs
    match cs with
    | '\x7d' :: cs => some ((), cs)
    | cs =>
      let (_, cs) ← item cs
      let cs ← skip cs
      let ((), cs) ← TextReader.char ':' cs
      let cs ← skip cs
      let (_, cs) ← item cs
      let cs ← skip cs
      match cs with
      | ',' :: cs => pairs item fuel cs
      | '\x7d' :: cs => some ((), cs)
      | _ => none

/--
A group behind its opening parenthesis. Without the names of its parts it is no group that a
declaration could take.
-/
def group (item : TextReader Datum) (tag? : Option String) : TextReader Datum := fun cs => do
  let inner ← skip cs
  let hasNames :=
    match name inner with
    | some (_, behind) => ((skip behind).bind List.head?) == some ':'
    | none => false
  if hasNames then
    (parts item (inner.length + 1) inner).map fun (parts, cs) => (.group tag? parts, cs)
  else
    (sequence item ')' (inner.length + 1) inner).map fun (_, cs) => (.other, cs)

/--
The content of `Some` in its parentheses, which may be left out if the document says so.
-/
def content (implicit : Bool) (inner : TextReader Datum) : TextReader Datum := fun cs => do
  match ← skip cs with
  | '(' :: cs =>
    let (_, cs) ← inner (← skip cs)
    let cs ←
      match ← skip cs with
      | ',' :: cs => skip cs
      | cs => some cs
    let ((), cs) ← TextReader.char ')' cs
    some (.other, cs)
  | cs => if implicit then (inner cs).map fun (_, cs) => (.other, cs) else none

/-! ## Values -/

mutual

/--
A value without blanks in front, which may go down as many levels. A list, a map or a group is one
level, each of its items is one more, and so is the content of `Some`.
-/
def value (implicit : Bool) : Nat → TextReader Datum
  | 0, cs =>
    match start cs with
    | some (.single datum, cs) => some (datum, cs)
    | _ => none
  | levels + 1, cs =>
    match start cs with
    | some (.single datum, cs) => some (datum, cs)
    | some (.content, cs) => content implicit (value implicit levels) cs
    | some (.list, cs) =>
      (sequence (item implicit levels) ']' (cs.length + 1) cs).map fun (items, cs) =>
        (.list items, cs)
    | some (.map, cs) =>
      (pairs (item implicit levels) (cs.length + 1) cs).map fun ((), cs) => (.other, cs)
    | some (.group tag?, cs) => group (item implicit levels) tag? cs
    | none => none
termination_by structural levels => levels

def item (implicit : Bool) : Nat → TextReader Datum
  | 0, _ => none
  | levels + 1, cs => value implicit levels cs
termination_by structural levels => levels

end

/-! ## Documents -/

def implicitContent : String :=
  "implicit_some"

def features : List String :=
  ["unwrap_newtypes", implicitContent, "unwrap_variant_newtypes"]

def featureList : Nat → TextReader (List String)
  | 0, _ => none
  | fuel + 1, cs => do
    let cs ← skip cs
    let (feature, cs) ← name cs
    if features.contains feature = false then
      none
    let cs ← skip cs
    match cs with
    | ',' :: cs =>
      let cs ← skip cs
      match cs with
      | ')' :: cs => some ([feature], cs)
      | cs => (featureList fuel cs).map fun (rest, cs) => (feature :: rest, cs)
    | ')' :: cs => some ([feature], cs)
    | _ => none

def header : Nat → TextReader (List String)
  | 0, _ => none
  | fuel + 1, cs => do
    let cs ← skip cs
    match cs with
    | '#' :: cs =>
      let cs ← skip cs
      let ((), cs) ← TextReader.char '!' cs
      let cs ← skip cs
      let ((), cs) ← TextReader.char '[' cs
      let cs ← skip cs
      let cs ← TextReader.rest? "enable".toList cs
      let cs ← skip cs
      let ((), cs) ← TextReader.char '(' cs
      let (enabled, cs) ← featureList cs.length cs
      let cs ← skip cs
      let ((), cs) ← TextReader.char ']' cs
      (header fuel cs).map fun (rest, cs) => (enabled ++ rest, cs)
    | cs => some ([], cs)

def maxLevels : Nat :=
  128

def ofText? (text : String) : Option Datum := do
  let (enabled, cs) ← header (text.length + 1) text.toList
  let (datum, cs) ← value (enabled.contains implicitContent) maxLevels cs
  let cs ← skip cs
  if cs = [] then some datum else none

end Ron

end RowTree
