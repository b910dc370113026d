import RowTree.Primitive
import RowTree.Binary.Printer
import RowTree.Calendar.Reader

/-!
This module holds scalars: the values of the primitive kinds, their text, and when two of them are
equal as values.
-/

namespace RowTree

inductive Scalar where
  | int (n : Int32)
  | float (x : Binary32)
  | string (s : String)
  | bool (b : Bool)
  | uint (n : UInt32)
  | datetime (t : Timestamp)
  | double (x : Binary64)
  deriving DecidableEq

namespace Scalar

def primitive : Scalar → Primitive
  | .int _ => .int
  | .float _ => .float
  | .string _ => .string
  | .bool _ => .bool
  | .uint _ => .uint
  | .datetime _ => .datetime
  | .double _ => .double

/--
The text of the value. A timestamp loses the fraction of its second.
-/
def text : Scalar → String
  | .int n => String.ofList (Text.ofInt n.toInt)
  | .float x => x.toText .natural
  | .string s => s
  | .bool b => if b then "true" else "false"
  | .uint n => String.ofList (Text.ofNat n.toNat)
  | .datetime t => t.toText
  | .double x => x.toText .natural

def string? : Scalar → Option String
  | .string s => some s
  | _ => none

/--
Equality as values of one kind: what is not a number equals nothing, and zero has no sign.
-/
def same : Scalar → Scalar → Bool
  | .float x, .float y => x.same y
  | .double x, .double y => x.same y
  | a, b => a == b

def IsDefined : Scalar → Prop
  | .float x => x ≠ .nan
  | .double x => x ≠ .nan
  | _ => True

theorem same_self {s : Scalar} (h : s.IsDefined) : s.same s = true := by
  cases s <;> simp_all [same, IsDefined, Binary.same_self]

end Scalar

end RowTree
