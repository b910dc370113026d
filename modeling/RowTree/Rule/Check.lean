import RowTree.Rule.Basic
import RowTree.Record.Text

/-!
This module holds the checking of rules. A target reaches values in every row of its table: a name
leads into a record, an index picks an element of a collection, and a collection that is met
without an index leads into each of its elements. The first value that breaks the rule is reported.
-/

namespace RowTree

/-! ## The values at a target -/

mutual

/--
The values that a path reaches from a value. A collection is never reached itself, but its
elements are.
-/
def Value.reach (path : Path) : Value → List Value
  | .unset => []
  | .scalar s => if path = [] then [.scalar s] else []
  | .nested record =>
    match path with
    | [] => [.nested record]
    | name :: rest => record.reachField name rest
  | .collection items =>
    match path with
    | [] => Value.reachEach [] items
    | segment :: rest =>
      match Text.index? segment with
      | some i => Value.reachAt rest i items
      | none => Value.reachEach (segment :: rest) items
termination_by structural v => v

def Record.reachField (name : String) (rest : Path) : Record → List Value
  | ⟨type, slots⟩ =>
    match type.slot? name with
    | some i => Value.reachAt rest i slots
    | none => []
termination_by structural r => r

def Value.reachEach (path : Path) : List Value → List Value
  | [] => []
  | value :: values => value.reach path ++ Value.reachEach path values
termination_by structural vs => vs

def Value.reachAt (path : Path) : Nat → List Value → List Value
  | _, [] => []
  | 0, value :: _ => value.reach path
  | i + 1, _ :: values => Value.reachAt path i values
termination_by structural _ vs => vs

end

def Record.reach (record : Record) : Path → List Value
  | [] => []
  | name :: rest => record.reachField name rest

theorem Value.reachEach_eq_flatMap (path : Path) (values : List Value) :
    Value.reachEach path values = values.flatMap (Value.reach path) := by
  induction values with
  | nil => rfl
  | cons value values ih => rw [Value.reachEach, ih, List.flatMap_cons]

theorem Value.reachAt_eq (path : Path) (i : Nat) (values : List Value) :
    Value.reachAt path i values = (values[i]?.map (Value.reach path)).getD [] := by
  induction values generalizing i with
  | nil => simp [Value.reachAt]
  | cons value values ih => cases i <;> simp [Value.reachAt, ih]

/-! ## Violations -/

inductive Reason where
  | notInTable (source : Target)
  | notInValues (allowed : List String)
  | notAnInteger (min : Int64) (max : Int64)
  | outOfInterval (min : Int64) (max : Int64)
  | duplicate
  deriving DecidableEq, Repr

def Reason.message : Reason → String
  | .notInTable source => "was not found in " ++ source.text
  | .notInValues allowed => "was not found in " ++ ",".intercalate allowed
  | .notAnInteger min max =>
    "is not an integer in interval [" ++ Rule.boundText min ++ ", " ++ Rule.boundText max ++ "]"
  | .outOfInterval min max =>
    "is not in interval [" ++ Rule.boundText min ++ ", " ++ Rule.boundText max ++ "]"
  | .duplicate => "is present multiple times"

structure Violation where
  value : String
  reason : Reason
  deriving DecidableEq, Repr

inductive RuleError where
  | violation (target : Target) (found : Violation)
  | unknownTable (table : String)
  deriving DecidableEq, Repr

def RuleError.message : RuleError → String
  | .violation target found =>
    "value '" ++ found.value ++ "' from " ++ target.text ++ " " ++ found.reason.message
  | .unknownTable table => "rule references unknown table '" ++ table ++ "'"

abbrev Rows := String → Option (List Record)

def Target.texts (target : Target) (rows : Rows) : Except RuleError (List String) :=
  match rows target.table with
  | some records =>
    .ok ((records.flatMap fun record => record.reach target.segments).map Value.text)
  | none => .error (.unknownTable target.table)

/-! ## Single values -/

/--
The parts of a text between commas, without quotes around the whole.
-/
def tokens (text : String) : List String :=
  let bare := ((text.toList.dropWhile (· == '\x22')).reverse.dropWhile (· == '\x22')).reverse
  (Text.pieces ',' bare).map String.ofList

def intervalViolation? (min max : Int64) (text : String) : Option Violation :=
  match Text.int64? (Text.trimList text.toList) with
  | none => some ⟨text, .notAnInteger min max⟩
  | some n => if n < min ∨ max < n then some ⟨text, .outOfInterval min max⟩ else none

/--
The first text that occurs in front of itself or among `seen`.
-/
def firstRepeat? (seen : List String) : List String → Option String
  | [] => none
  | text :: rest => if seen.contains text then some text else firstRepeat? (text :: seen) rest

/-! ## Rules -/

def Target.verdict (target : Target) : Option Violation → Except RuleError Unit
  | some found => .error (.violation target found)
  | none => .ok ()

/--
Check a rule against the rows of all tables. Reports the first value that breaks the rule.
-/
def Rule.check (rows : Rows) : Rule → Except RuleError Unit
  | .mapping target source => do
    let allowed ← source.texts rows
    let texts ← target.texts rows
    target.verdict ((texts.find? fun text => !allowed.contains text).map fun text =>
      ⟨text, .notInTable source⟩)
  | .valueSet target allowed => do
    let texts ← target.texts rows
    target.verdict (((texts.flatMap tokens).find? fun token => !allowed.contains token).map
      fun token => ⟨token, .notInValues allowed⟩)
  | .interval target min max => do
    let texts ← target.texts rows
    target.verdict (texts.findSome? (intervalViolation? min max))
  | .uniqueness target => do
    let texts ← target.texts rows
    target.verdict ((firstRepeat? [] texts).map fun text => ⟨text, .duplicate⟩)

end RowTree
