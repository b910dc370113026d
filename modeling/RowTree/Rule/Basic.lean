import RowTree.Rule.Target

/-!
This module holds rules and the declarations that they are made from: a word for the kind of rule
and arguments in a fixed order, the target first.
-/

namespace RowTree

inductive Rule where
  /-- Each value occurs at the source. -/
  | mapping (target : Target) (source : Target)
  /-- Each part of a value between commas is allowed. -/
  | valueSet (target : Target) (allowed : List String)
  /-- Each value is an integer between the bounds, which it may equal. -/
  | interval (target : Target) (min : Int64) (max : Int64)
  /-- No value occurs twice. -/
  | uniqueness (target : Target)
  deriving DecidableEq, Repr

structure RuleDecl where
  kind : String
  args : List String
  deriving DecidableEq, Repr

namespace Rule

def target : Rule → Target
  | .mapping target _ => target
  | .valueSet target _ => target
  | .interval target _ _ => target
  | .uniqueness target => target

def boundText (n : Int64) : String :=
  String.ofList (Text.ofInt n.toInt)

def text : Rule → String
  | .mapping target source => "table " ++ target.text ++ " " ++ source.text
  | .valueSet target allowed => "values " ++ target.text ++ " " ++ ",".intercalate allowed
  | .interval target min max =>
    "interval " ++ target.text ++ " " ++ boundText min ++ " " ++ boundText max
  | .uniqueness target => "unique " ++ target.text

def toDecl : Rule → RuleDecl
  | .mapping target source => ⟨"table", [target.text, source.text]⟩
  | .valueSet target allowed => ⟨"values", target.text :: allowed⟩
  | .interval target min max => ⟨"interval", [target.text, boundText min, boundText max]⟩
  | .uniqueness target => ⟨"unique", [target.text]⟩

end Rule

namespace RuleDecl

def argument (decl : RuleDecl) (kind : String) (i : Nat) (name : String) :
    Except DeclarationError String :=
  match decl.args[i]? with
  | some text => .ok (Text.trim text)
  | none => .error (.missingArgument kind name)

def bound (decl : RuleDecl) (kind : String) (i : Nat) (name : String) :
    Except DeclarationError Int64 := do
  let text ← decl.argument kind i name
  match Text.int64? text.toList with
  | some n => .ok n
  | none => .error (.invalidBound kind text)

/--
The rule that a declaration stands for. The arguments are looked at from left to right, and the
form of the targets comes last.
-/
def toRule (decl : RuleDecl) : Except DeclarationError Rule :=
  match Text.trim decl.kind with
  | "table" => do
    let target ← decl.argument "table" 0 "target"
    let source ← decl.argument "table" 1 "source"
    let target ← Target.ofText target
    let source ← Target.ofText source
    .ok (.mapping target source)
  | "values" => do
    let target ← decl.argument "values" 0 "target"
    let target ← Target.ofText target
    .ok (.valueSet target (decl.args.tail.map Text.trim))
  | "interval" => do
    let target ← decl.argument "interval" 0 "target"
    let min ← decl.bound "interval" 1 "min"
    let max ← decl.bound "interval" 2 "max"
    let target ← Target.ofText target
    .ok (.interval target min max)
  | "unique" => do
    let target ← decl.argument "unique" 0 "target"
    let target ← Target.ofText target
    .ok (.uniqueness target)
  | kind => .error (.unknownKind kind)

end RuleDecl

end RowTree
