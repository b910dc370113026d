import RowTree.Text.Blank
import RowTree.Text.Pieces

/-!
This module holds comma-separated text: its lines, and the cells of a line.
-/

namespace RowTree
namespace Text

/--
A line without the carriage return in front of its line feed.
-/
def dropReturn (line : List Char) : List Char :=
  if line.getLast? = some '\r' then line.dropLast else line

/--
The lines of a text. A carriage return belongs to the end of a line only in front of a line feed,
and no empty line follows the last line feed.
-/
def lines (cs : List Char) : List (List Char) :=
  let ended := pieces '\n' cs
  let last := ended.getLast?.getD []
  ended.dropLast.map dropReturn ++ if last = [] then [] else [last]

/--
The lines with something other than blanks on them, without the first line if it is a header.
-/
def dataLines (hasHeader : Bool) (text : String) : List String :=
  let all := lines text.toList
  let data := if hasHeader then all.drop 1 else all
  (data.filter fun line => !line.all isBlank).map String.ofList

def cells (line : String) : List String :=
  (pieces ',' line.toList).map fun cell => String.ofList (trimList cell)

end Text
end RowTree
