import RowTree.Document.JsonNumber
import RowTree.Scalar.Basic

/-!
This module holds scalars as JSON. The JSON text does not say of which kind the scalar was, so
reading tries the kinds one after the other and takes the first that fits.
-/

namespace RowTree

namespace Json

/--
What a JSON value says before a kind is chosen for it. An integer of 64 bits stays one, any other
number has been rounded.
-/
inductive Content where
  | bool (b : Bool)
  | integer (n : Int)
  | number (x : Binary64)
  | string (s : String)
  | other

/--
A number that is too large, or a string that is no text, has no content.
-/
def content? : Json → Option Content
  | .number n =>
    match n.integer? with
    | some i => some (.integer i)
    | none => n.toBinary64?.map .number
  | .string text? => text?.map .string
  | .bool b => some (.bool b)
  | _ => some .other

end Json

namespace Primitive

/--
The content as a scalar of the kind. Numbers of both widths also take integers, and `time?` reads
the text of a timestamp.
-/
def ofContent? (time? : List Char → Option Timestamp) :
    Primitive → Json.Content → Option Scalar
  | .int, .integer i =>
    if -0x80000000 ≤ i ∧ i < 0x80000000 then some (.int (Int32.ofInt i)) else none
  | .float, .integer i => some (.float (Binary.ofInt binary32 i))
  | .float, .number x => some (.float (x.convert binary32))
  | .string, .string s => some (.string s)
  | .bool, .bool b => some (.bool b)
  | .uint, .integer i =>
    if 0 ≤ i ∧ i < 0x100000000 then some (.uint (UInt32.ofNat i.toNat)) else none
  | .datetime, .string s => (time? s.toList).map .datetime
  | .double, .integer i => some (.double (Binary.ofInt binary64 i))
  | .double, .number x => some (.double x)
  | _, _ => none

end Primitive

namespace Scalar

/--
The exponents of the first digit that 32-bit numbers have without an exponent.
-/
def plainRange32 : Int × Int := (-6, 12)

def plainRange64 : Int × Int := (-5, 15)

def toJsonText : Scalar → String
  | .int n => String.ofList (Text.ofInt n.toInt)
  | .float x => x.toText (.json plainRange32)
  | .string s => Json.quote s
  | .bool b => if b then "true" else "false"
  | .uint n => String.ofList (Text.ofNat n.toNat)
  | .datetime t => Json.quote t.toIsoText
  | .double x => x.toText (.json plainRange64)

def kinds : List Primitive :=
  [.int, .float, .string, .bool, .uint, .datetime, .double]

def ofJsonBy? (time? : List Char → Option Timestamp) (json : Json) : Option Scalar := do
  let content ← json.content?
  kinds.findSome? fun kind => kind.ofContent? time? content

-- strings are taken before timestamps are tried, so any reader of timestamps would do
def ofJson? : Json → Option Scalar :=
  ofJsonBy? Timestamp.ofLocal?

def ofJsonText? (text : String) : Option Scalar :=
  (Json.ofText? text).bind ofJson?

end Scalar

end RowTree
