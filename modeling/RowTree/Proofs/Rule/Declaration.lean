import Mathlib.Data.List.Forall2
import RowTree.Project.Rules
import RowTree.Proofs.Text.Blank
import RowTree.Proofs.Text.Decimal

/-!
This module contains which declarations make rules, and which rules they make. What is asked of a
declaration is looked at in a fixed order, and the first requirement that it misses is reported. A
list of declarations makes a list of rules, or ends at the first declaration that makes none, with
its number (`RuleDecl.toRules_outcome`).
-/

namespace RowTree

/-! ## Targets -/

namespace Target

variable {text : String} {target : Target}

/--
The stripped text is the table and the path of the target with a dot between them, the first one of
the text. Neither of them is blank, and both are stripped.
-/
def IsNamedBy (target : Target) (text : String) : Prop :=
  ∃ before after, (Text.trim text).toList = before ++ '.' :: after ∧ '.' ∉ before ∧
    (∃ c ∈ before, Text.isBlank c = false) ∧ (∃ c ∈ after, Text.isBlank c = false) ∧
    target = .ofPath (String.ofList (Text.trimList before)) (String.ofList (Text.trimList after))

theorem IsNamedBy.exists_split (h : target.IsNamedBy text) :
    ∃ before after, Text.splitFirst? '.' (Text.trimList text.toList) = some (before, after) ∧
      ¬(Text.trimList before = [] ∨ Text.trimList after = []) ∧
      target =
        .ofPath (String.ofList (Text.trimList before)) (String.ofList (Text.trimList after)) := by
  obtain ⟨before, after, htext, hdot, hbefore, hafter, htarget⟩ := h
  rw [Text.toList_trim] at htext
  refine ⟨before, after, Text.splitFirst?_eq_some_iff.2 ⟨htext, hdot⟩, ?_, htarget⟩
  exact not_or.2 ⟨Text.trimList_ne_nil_iff.2 hbefore, Text.trimList_ne_nil_iff.2 hafter⟩

theorem ofText_outcome (text : String) :
    (∃ target : Target, target.IsNamedBy text ∧ ofText text = .ok target) ∨
      (∀ target : Target, ¬target.IsNamedBy text) ∧
        ofText text = .error (.invalidTarget (Text.trim text)) := by
  unfold ofText
  dsimp only
  cases hsplit : Text.splitFirst? '.' (Text.trimList text.toList) with
  | none =>
    refine .inr ⟨fun target h => ?_, rfl⟩
    obtain ⟨before, after, hsome, _⟩ := h.exists_split
    rw [hsplit] at hsome
    cases hsome
  | some parts =>
    obtain ⟨before, after⟩ := parts
    dsimp only
    split_ifs with hblank
    · refine .inr ⟨fun target h => ?_, rfl⟩
      obtain ⟨_, _, hsome, hne, _⟩ := h.exists_split
      rw [hsplit] at hsome
      cases hsome
      exact hne hblank
    · have hne := not_or.1 hblank
      obtain ⟨htext, hdot⟩ := Text.splitFirst?_eq_some_iff.1 hsplit
      refine .inl ⟨_, ⟨before, after, ?_, hdot, ?_, ?_, rfl⟩, rfl⟩
      · rw [Text.toList_trim, htext]
      · exact Text.trimList_ne_nil_iff.1 hne.1
      · exact Text.trimList_ne_nil_iff.1 hne.2

theorem ofText_of_isNamedBy (h : target.IsNamedBy text) : ofText text = .ok target := by
  obtain ⟨before, after, hsplit, hne, rfl⟩ := h.exists_split
  unfold ofText
  dsimp only
  rw [hsplit]
  exact if_neg hne

theorem isNamedBy_trim_iff : target.IsNamedBy (Text.trim text) ↔ target.IsNamedBy text := by
  unfold IsNamedBy
  rw [Text.trim_trim]

end Target

/-! ## What is asked of a declaration -/

namespace RuleDecl

inductive Requirement where
  | kind
  | argument (i : Nat) (name : String)
  | bound (i : Nat)
  | target (i : Nat)

/--
What is asked of a declaration with this word as its kind, in the order in which it is looked at.
-/
def requirements : String → List Requirement
  | "table" => [.kind, .argument 0 "target", .argument 1 "source", .target 0, .target 1]
  | "values" => [.kind, .argument 0 "target", .target 0]
  | "interval" =>
    [.kind, .argument 0 "target", .argument 1 "min", .bound 1, .argument 2 "max", .bound 2,
      .target 0]
  | "unique" => [.kind, .argument 0 "target", .target 0]
  | _ => [.kind]

/--
The declaration misses a requirement, and how this is reported.
-/
inductive Misses (decl : RuleDecl) : Requirement → DeclarationError → Prop where
  | kind (h : Text.trim decl.kind ∉ ["table", "values", "interval", "unique"]) :
      Misses decl .kind (.unknownKind (Text.trim decl.kind))
  | argument {i : Nat} {name : String} (h : decl.args.length ≤ i) :
      Misses decl (.argument i name) (.missingArgument (Text.trim decl.kind) name)
  | bound {i : Nat} {text : String} (htext : decl.args[i]? = some text)
      (h : ∀ n : Int64, ¬Text.IsInteger (Text.trim text).toList n.toInt) :
      Misses decl (.bound i) (.invalidBound (Text.trim decl.kind) (Text.trim text))
  | target {i : Nat} {text : String} (htext : decl.args[i]? = some text)
      (h : ∀ target : Target, ¬target.IsNamedBy text) :
      Misses decl (.target i) (.invalidTarget (Text.trim text))

/--
The first requirement that the declaration misses, by how this is reported.
-/
def FirstMisses (decl : RuleDecl) (reason : DeclarationError) : Prop :=
  ∃ before requirement after,
    requirements (Text.trim decl.kind) = before ++ requirement :: after ∧
      decl.Misses requirement reason ∧
      ∀ earlier ∈ before, ∀ other, ¬decl.Misses earlier other

/--
The rule that a declaration makes. Arguments behind those that the rule needs do not count, unless
they are allowed values.
-/
inductive Makes (decl : RuleDecl) : Rule → Prop where
  | mapping {first second : String} {target source : Target}
      (hkind : Text.trim decl.kind = "table") (hfirst : decl.args[0]? = some first)
      (hsecond : decl.args[1]? = some second) (htarget : target.IsNamedBy first)
      (hsource : source.IsNamedBy second) : Makes decl (.mapping target source)
  | valueSet {first : String} {target : Target} (hkind : Text.trim decl.kind = "values")
      (hfirst : decl.args[0]? = some first) (htarget : target.IsNamedBy first) :
      Makes decl (.valueSet target (decl.args.tail.map Text.trim))
  | interval {first low high : String} {target : Target} {min max : Int64}
      (hkind : Text.trim decl.kind = "interval") (hfirst : decl.args[0]? = some first)
      (hlow : decl.args[1]? = some low) (hhigh : decl.args[2]? = some high)
      (htarget : target.IsNamedBy first)
      (hmin : Text.IsInteger (Text.trim low).toList min.toInt)
      (hmax : Text.IsInteger (Text.trim high).toList max.toInt) :
      Makes decl (.interval target min max)
  | uniqueness {first : String} {target : Target} (hkind : Text.trim decl.kind = "unique")
      (hfirst : decl.args[0]? = some first) (htarget : target.IsNamedBy first) :
      Makes decl (.uniqueness target)

def Acceptable (decl : RuleDecl) : Prop :=
  ∃ rule, decl.Makes rule

variable {decl : RuleDecl} {rule : Rule} {reason : DeclarationError} {i : Nat}

/-! ## The parts of a declaration -/

theorem argument_eq_ok {text : String} (h : decl.args[i]? = some text) (kind name : String) :
    decl.argument kind i name = .ok (Text.trim text) := by
  unfold argument
  rw [h]

theorem argument_eq_error (h : decl.args.length ≤ i) (kind name : String) :
    decl.argument kind i name = .error (.missingArgument kind name) := by
  unfold argument
  rw [List.getElem?_eq_none h]

theorem bound_eq_ok {text : String} {n : Int64} (h : decl.args[i]? = some text)
    (hn : Text.IsInteger (Text.trim text).toList n.toInt) (kind name : String) :
    decl.bound kind i name = .ok n := by
  unfold bound
  rw [argument_eq_ok h]
  dsimp only [bind, Except.bind]
  rw [Text.int64?_eq_some_iff.2 hn]

theorem Makes.toRule_eq (h : decl.Makes rule) : decl.toRule = .ok rule := by
  cases h with
  | mapping hkind hfirst hsecond htarget hsource =>
    rw [← Target.isNamedBy_trim_iff] at htarget hsource
    simp only [toRule, hkind]
    rw [argument_eq_ok hfirst, argument_eq_ok hsecond]
    dsimp only [bind, Except.bind]
    rw [Target.ofText_of_isNamedBy htarget, Target.ofText_of_isNamedBy hsource]
  | valueSet hkind hfirst htarget =>
    rw [← Target.isNamedBy_trim_iff] at htarget
    simp only [toRule, hkind]
    rw [argument_eq_ok hfirst]
    dsimp only [bind, Except.bind]
    rw [Target.ofText_of_isNamedBy htarget]
  | interval hkind hfirst hlow hhigh htarget hmin hmax =>
    rw [← Target.isNamedBy_trim_iff] at htarget
    simp only [toRule, hkind]
    rw [argument_eq_ok hfirst, bound_eq_ok hlow hmin, bound_eq_ok hhigh hmax]
    dsimp only [bind, Except.bind]
    rw [Target.ofText_of_isNamedBy htarget]
  | uniqueness hkind hfirst htarget =>
    rw [← Target.isNamedBy_trim_iff] at htarget
    simp only [toRule, hkind]
    rw [argument_eq_ok hfirst]
    dsimp only [bind, Except.bind]
    rw [Target.ofText_of_isNamedBy htarget]

/-! ## Requirements in order -/

/--
How a declaration ends from which these requirements are still asked in order: with the first one
that it misses, or with a rule.
-/
inductive Follows (decl : RuleDecl) : List Requirement → Except DeclarationError Rule → Prop where
  | made {rule : Rule} (h : decl.Makes rule) : Follows decl [] (.ok rule)
  | missed {requirement : Requirement} {rest : List Requirement} {reason : DeclarationError}
      (h : decl.Misses requirement reason) : Follows decl (requirement :: rest) (.error reason)
  | met {requirement : Requirement} {rest : List Requirement}
      {outcome : Except DeclarationError Rule} (h : ∀ reason, ¬decl.Misses requirement reason)
      (hrest : Follows decl rest outcome) : Follows decl (requirement :: rest) outcome

section

variable {rest : List Requirement} {kind name : String}

theorem follows_argument {next : String → Except DeclarationError Rule}
    (hkind : Text.trim decl.kind = kind)
    (h : ∀ text, decl.args[i]? = some text → decl.Follows rest (next (Text.trim text))) :
    decl.Follows (.argument i name :: rest)
      (decl.argument kind i name >>= next) := by
  subst hkind
  cases htext : decl.args[i]? with
  | none =>
    rw [List.getElem?_eq_none_iff] at htext
    rw [argument_eq_error htext]
    exact .missed (.argument htext)
  | some text =>
    rw [argument_eq_ok htext]
    refine .met (fun reason hmisses => ?_) (h text htext)
    cases hmisses with
    | argument hlength =>
      rw [List.getElem?_eq_none hlength] at htext
      cases htext

theorem follows_bound {next : Int64 → Except DeclarationError Rule}
    (hkind : Text.trim decl.kind = kind)
    (h : ∀ text n, decl.args[i]? = some text →
      Text.IsInteger (Text.trim text).toList n.toInt → decl.Follows rest (next n)) :
    decl.Follows (.argument i name :: .bound i :: rest)
      (decl.bound kind i name >>= next) := by
  subst hkind
  unfold bound
  rw [bind_assoc]
  refine follows_argument rfl fun text htext => ?_
  cases hread : Text.int64? (Text.trim text).toList with
  | none =>
    refine .missed (.bound htext fun n hn => ?_)
    rw [Text.int64?_eq_some_iff.2 hn] at hread
    cases hread
  | some n =>
    have hn := Text.int64?_eq_some_iff.1 hread
    refine .met (fun reason hmisses => ?_) (h text n htext hn)
    cases hmisses with
    | bound hother hnone =>
      rw [htext, Option.some.injEq] at hother
      exact hnone n (hother ▸ hn)

theorem follows_target {text : String} {next : Target → Except DeclarationError Rule}
    (htext : decl.args[i]? = some text)
    (h : ∀ target : Target, target.IsNamedBy text → decl.Follows rest (next target)) :
    decl.Follows (.target i :: rest) (Target.ofText (Text.trim text) >>= next) := by
  obtain ⟨target, htarget, hread⟩ | ⟨hnone, hread⟩ := Target.ofText_outcome (Text.trim text)
  · rw [Target.isNamedBy_trim_iff] at htarget
    rw [hread]
    refine .met (fun reason hmisses => ?_) (h target htarget)
    cases hmisses with
    | target hother hnone =>
      rw [htext, Option.some.injEq] at hother
      exact hnone target (hother ▸ htarget)
  · simp only [Target.isNamedBy_trim_iff] at hnone
    rw [hread, Text.trim_trim]
    exact .missed (.target htext hnone)

end

/--
A declaration is looked at for its requirements in order, and then makes a rule.
-/
theorem follows_toRule (decl : RuleDecl) :
    decl.Follows (requirements (Text.trim decl.kind)) decl.toRule := by
  have known (h : Text.trim decl.kind ∈ ["table", "values", "interval", "unique"])
      (reason : DeclarationError) : ¬decl.Misses .kind reason := by
    rintro ⟨hkind⟩
    exact hkind h
  unfold toRule
  split
  · next hkind =>
    rw [hkind]
    refine .met (known (by simp [hkind])) ?_
    refine follows_argument hkind fun first hfirst => ?_
    refine follows_argument hkind fun second hsecond => ?_
    refine follows_target hfirst fun target htarget => ?_
    refine follows_target hsecond fun source hsource => ?_
    exact .made (.mapping hkind hfirst hsecond htarget hsource)
  · next hkind =>
    rw [hkind]
    refine .met (known (by simp [hkind])) ?_
    refine follows_argument hkind fun first hfirst => ?_
    refine follows_target hfirst fun target htarget => ?_
    exact .made (.valueSet hkind hfirst htarget)
  · next hkind =>
    rw [hkind]
    refine .met (known (by simp [hkind])) ?_
    refine follows_argument hkind fun first hfirst => ?_
    refine follows_bound hkind fun low min hlow hmin => ?_
    refine follows_bound hkind fun high max hhigh hmax => ?_
    refine follows_target hfirst fun target htarget => ?_
    exact .made (.interval hkind hfirst hlow hhigh htarget hmin hmax)
  · next hkind =>
    rw [hkind]
    refine .met (known (by simp [hkind])) ?_
    refine follows_argument hkind fun first hfirst => ?_
    refine follows_target hfirst fun target htarget => ?_
    exact .made (.uniqueness hkind hfirst htarget)
  · next htable hvalues hinterval hunique =>
    rw [requirements.eq_5 _ htable hvalues hinterval hunique]
    refine .missed (.kind ?_)
    simpa using ⟨htable, hvalues, hinterval, hunique⟩

theorem Misses.reason_eq {requirement : Requirement} {other : DeclarationError}
    (h : decl.Misses requirement reason) (hother : decl.Misses requirement other) :
    other = reason := by
  cases h with
  | kind | argument =>
    cases hother
    rfl
  | bound htext | target htext =>
    cases hother with
    | _ hagain =>
      rw [htext, Option.some.injEq] at hagain
      rw [hagain]

theorem Follows.makes {requirements : List Requirement}
    {outcome : Except DeclarationError Rule} (h : decl.Follows requirements outcome) :
    ∀ rule, outcome = .ok rule → decl.Makes rule := by
  induction h with
  | made h =>
    rintro _ ⟨⟩
    exact h
  | missed => exact nofun
  | met _ _ ih => exact ih

theorem Follows.eq_error_iff {requirements : List Requirement}
    {outcome : Except DeclarationError Rule} (h : decl.Follows requirements outcome) :
    outcome = .error reason ↔
      ∃ before requirement after, requirements = before ++ requirement :: after ∧
        decl.Misses requirement reason ∧
          ∀ earlier ∈ before, ∀ other, ¬decl.Misses earlier other := by
  induction h with
  | made h => simp
  | @missed requirement rest first hmisses =>
    rw [Except.error.injEq]
    constructor
    · rintro rfl
      exact ⟨[], requirement, rest, rfl, hmisses, by simp⟩
    · rintro ⟨before, other, after, hsplit, hother, hmet⟩
      cases before with
      | nil =>
        obtain ⟨rfl, _⟩ := List.cons.inj hsplit
        exact hother.reason_eq hmisses
      | cons earlier before =>
        obtain ⟨rfl, _⟩ := List.cons.inj hsplit
        exact absurd hmisses (hmet requirement List.mem_cons_self first)
  | @met requirement rest outcome hmet _ ih =>
    rw [ih]
    constructor
    · rintro ⟨before, other, after, rfl, hother, hbefore⟩
      refine ⟨requirement :: before, other, after, rfl, hother, ?_⟩
      exact List.forall_mem_cons.2 ⟨hmet, hbefore⟩
    · rintro ⟨before, other, after, hsplit, hother, hbefore⟩
      cases before with
      | nil =>
        obtain ⟨rfl, _⟩ := List.cons.inj hsplit
        exact absurd hother (hmet reason)
      | cons earlier before =>
        obtain ⟨rfl, rfl⟩ := List.cons.inj hsplit
        exact ⟨before, other, after, rfl, hother, (List.forall_mem_cons.1 hbefore).2⟩

theorem toRule_eq_ok_iff : decl.toRule = .ok rule ↔ decl.Makes rule :=
  ⟨(follows_toRule decl).makes rule, Makes.toRule_eq⟩

theorem toRule_eq_error_iff : decl.toRule = .error reason ↔ decl.FirstMisses reason :=
  (follows_toRule decl).eq_error_iff

theorem FirstMisses.not_acceptable (h : decl.FirstMisses reason) : ¬decl.Acceptable := by
  rintro ⟨rule, hrule⟩
  have hok := toRule_eq_ok_iff.2 hrule
  rw [toRule_eq_error_iff.2 h] at hok
  cases hok

/-! ## Lists of declarations -/

variable {file : String} {index : Nat} {decls : List RuleDecl}

theorem toRules_cons_eq_ok_iff {rules : List Rule} :
    toRules file index (decl :: decls) = .ok rules ↔
      ∃ rule others, decl.Makes rule ∧ toRules file (index + 1) decls = .ok others ∧
        rules = rule :: others := by
  simp only [toRules, ← toRule_eq_ok_iff]
  cases decl.toRule with
  | error => simp
  | ok rule => cases toRules file (index + 1) decls <;> simp [Except.map, eq_comm]

theorem toRules_cons_eq_error_iff {error : LoadError} :
    toRules file index (decl :: decls) = .error error ↔
      (∃ reason, decl.FirstMisses reason ∧ error = .rule file index reason) ∨
        decl.Acceptable ∧ toRules file (index + 1) decls = .error error := by
  simp only [toRules, Acceptable, ← toRule_eq_ok_iff, ← toRule_eq_error_iff]
  cases decl.toRule with
  | error => simp [eq_comm]
  | ok rule => cases toRules file (index + 1) decls <;> simp [Except.map]

theorem toRules_eq_ok_iff {rules : List Rule} :
    toRules file index decls = .ok rules ↔ List.Forall₂ Makes decls rules := by
  induction decls generalizing index rules with
  | nil =>
    rw [toRules, Except.ok.injEq, List.forall₂_nil_left_iff]
    exact eq_comm
  | cons decl rest ih =>
    rw [toRules_cons_eq_ok_iff, List.forall₂_cons_left_iff]
    simp only [ih]

theorem toRules_eq_error_iff {error : LoadError} :
    toRules file index decls = .error error ↔
      ∃ before decl after reason, decls = before ++ decl :: after ∧
        (∀ earlier ∈ before, earlier.Acceptable) ∧ decl.FirstMisses reason ∧
          error = .rule file (index + before.length) reason := by
  induction decls generalizing index with
  | nil => simp [toRules]
  | cons decl rest ih =>
    rw [toRules_cons_eq_error_iff, ih]
    constructor
    · rintro (⟨reason, hmisses, rfl⟩ | ⟨hdecl, hlater⟩)
      · exact ⟨[], decl, rest, reason, rfl, by simp, hmisses, rfl⟩
      · obtain ⟨before, other, after, reason, rfl, hbefore, hother, rfl⟩ := hlater
        refine ⟨decl :: before, other, after, reason, rfl, ?_, hother, ?_⟩
        · exact List.forall_mem_cons.2 ⟨hdecl, hbefore⟩
        · rw [List.length_cons, Nat.add_assoc, Nat.add_comm 1]
    · rintro ⟨before, other, after, reason, hsplit, hbefore, hother, rfl⟩
      cases before with
      | nil =>
        obtain ⟨rfl, _⟩ := List.cons.inj hsplit
        exact .inl ⟨reason, hother, rfl⟩
      | cons earlier before =>
        obtain ⟨rfl, rfl⟩ := List.cons.inj hsplit
        obtain ⟨hdecl, hbefore⟩ := List.forall_mem_cons.1 hbefore
        refine .inr ⟨hdecl, before, other, after, reason, rfl, hbefore, hother, ?_⟩
        rw [List.length_cons, Nat.add_assoc, Nat.add_comm 1]

theorem exists_forall₂_makes_iff :
    (∃ rules, List.Forall₂ Makes decls rules) ↔ ∀ decl ∈ decls, decl.Acceptable := by
  constructor
  · rintro ⟨rules, h⟩
    induction h with
    | nil => simp
    | cons hmakes _ ih => exact List.forall_mem_cons.2 ⟨⟨_, hmakes⟩, ih⟩
  · intro h
    induction decls with
    | nil => exact ⟨[], .nil⟩
    | cons decl rest ih =>
      obtain ⟨⟨rule, hrule⟩, hrest⟩ := List.forall_mem_cons.1 h
      obtain ⟨rules, hrules⟩ := ih hrest
      exact ⟨rule :: rules, .cons hrule hrules⟩

/-! ## The cut behind the target -/

/--
The arguments from a place on. A place behind the end has no arguments, and `beyond` stands for
what happens there.
-/
def argumentsFrom (decl : RuleDecl) (beyond : Except DeclarationError (List String)) (i : Nat) :
    Except DeclarationError (List String) :=
  if i ≤ decl.args.length then .ok (decl.args.drop i) else beyond

/--
The rule that a declaration stands for, with the allowed values cut off behind the target.
-/
def toRuleOr (decl : RuleDecl) (beyond : Except DeclarationError (List String)) :
    Except DeclarationError Rule :=
  match Text.trim decl.kind with
  | "values" => do
    let target ← decl.argument "values" 0 "target"
    let values ← decl.argumentsFrom beyond 1
    let target ← Target.ofText target
    .ok (.valueSet target (values.map Text.trim))
  | _ => decl.toRule

theorem toRuleOr_eq (decl : RuleDecl) (beyond : Except DeclarationError (List String)) :
    decl.toRuleOr beyond = decl.toRule := by
  unfold toRuleOr
  split
  · next hkind =>
    simp only [toRule, hkind]
    cases hfirst : decl.args with
    | nil =>
      have hlength : decl.args.length ≤ 0 := by simp [hfirst]
      rw [argument_eq_error hlength]
      rfl
    | cons first rest =>
      have hget : decl.args[0]? = some first := by simp [hfirst]
      rw [argument_eq_ok hget, argumentsFrom, if_pos (by simp [hfirst]), hfirst]
      rfl
  · rfl

/--
Every end of a list of declarations: the rules that they make, one for each declaration, or the
number of the first declaration that makes none with the first requirement that it misses. A cut
of the arguments never goes beyond their end.
-/
theorem toRules_outcome (file : String) (decls : List RuleDecl) :
    ((∃ rules, toRules file 1 decls = .ok rules) ↔ ∀ decl ∈ decls, decl.Acceptable) ∧
      (∀ rules, toRules file 1 decls = .ok rules ↔ List.Forall₂ Makes decls rules) ∧
      (∀ error, toRules file 1 decls = .error error ↔
        ∃ before decl after reason, decls = before ++ decl :: after ∧
          (∀ earlier ∈ before, earlier.Acceptable) ∧ ¬decl.Acceptable ∧
            decl.FirstMisses reason ∧ error = .rule file (before.length + 1) reason) ∧
      ∀ (decl : RuleDecl) beyond, decl.toRuleOr beyond = decl.toRule := by
  refine ⟨?_, fun _ => toRules_eq_ok_iff, fun error => ?_, toRuleOr_eq⟩
  · simp only [toRules_eq_ok_iff]
    exact exists_forall₂_makes_iff
  · rw [toRules_eq_error_iff]
    refine exists_congr fun before => exists_congr fun decl => exists_congr fun after => ?_
    refine exists_congr fun reason => and_congr_right fun _ => and_congr_right fun _ => ?_
    rw [Nat.add_comm 1]
    exact ⟨fun h => ⟨h.1.not_acceptable, h⟩, And.right⟩

end RuleDecl

end RowTree
