import RowTree.Rule.Check

/-!
This module contains the walks of a check through the rows of a table. A visitor with a state sees
one value after the other, and the walk stops at its first error. Each walk is the fold of its
visitor over the values that the target reaches (`Value.walk_eq_foldlM`), so that a check by
visitors finds what a search in these values finds (`Rule.checkByWalk_eq`).
-/

namespace RowTree

variable {σ ε : Type}

/-! ## Walks through values -/

mutual

/--
Lead a visitor to the values at the end of a path from a value.
-/
def Value.walk (visit : σ → Value → Except ε σ) (path : Path) : Value → σ → Except ε σ
  | .unset, state => .ok state
  | .scalar s, state => if path = [] then visit state (.scalar s) else .ok state
  | .nested record, state =>
    match path with
    | [] => visit state (.nested record)
    | name :: rest => record.walkField visit name rest state
  | .collection items, state =>
    match path with
    | [] => Value.walkEach visit [] items state
    | segment :: rest =>
      match Text.index? segment with
      | some i => Value.walkAt visit rest i items state
      | none => Value.walkEach visit (segment :: rest) items state
termination_by structural v => v

def Record.walkField (visit : σ → Value → Except ε σ) (name : String) (rest : Path) :
    Record → σ → Except ε σ
  | ⟨type, slots⟩, state =>
    match type.slot? name with
    | some i => Value.walkAt visit rest i slots state
    | none => .ok state
termination_by structural r => r

def Value.walkEach (visit : σ → Value → Except ε σ) (path : Path) :
    List Value → σ → Except ε σ
  | [], state => .ok state
  | value :: values, state => do
    let next ← value.walk visit path state
    Value.walkEach visit path values next
termination_by structural vs => vs

def Value.walkAt (visit : σ → Value → Except ε σ) (path : Path) :
    Nat → List Value → σ → Except ε σ
  | _, [], state => .ok state
  | 0, value :: _, state => value.walk visit path state
  | i + 1, _ :: values, state => Value.walkAt visit path i values state
termination_by structural _ vs => vs

end

def Record.walk (visit : σ → Value → Except ε σ) (record : Record) :
    Path → σ → Except ε σ
  | [], state => .ok state
  | name :: rest, state => record.walkField visit name rest state

def Target.walk (target : Target) (rows : Rows) (visit : σ → Value → Except RuleError σ)
    (state : σ) : Except RuleError σ :=
  match rows target.table with
  | some records =>
    records.foldlM (fun state record => record.walk visit target.segments state) state
  | none => .error (.unknownTable target.table)

mutual

theorem Value.walk_eq_foldlM (visit : σ → Value → Except ε σ) (path : Path) :
    ∀ (value : Value) (state : σ),
      value.walk visit path state = (value.reach path).foldlM visit state
  | .unset, state => rfl
  | .scalar s, state => by
    rw [Value.walk, Value.reach]
    split
    · rw [List.foldlM_cons]
      cases visit state (.scalar s) <;> rfl
    · rfl
  | .nested record, state => by
    cases path with
    | nil =>
      rw [Value.walk, Value.reach, List.foldlM_cons]
      cases visit state (.nested record) <;> rfl
    | cons name rest => exact Record.walkField_eq_foldlM visit name rest record state
  | .collection items, state => by
    cases path with
    | nil => exact Value.walkEach_eq_foldlM visit [] items state
    | cons segment rest =>
      rw [Value.walk, Value.reach]
      cases Text.index? segment with
      | some i => exact Value.walkAt_eq_foldlM visit rest i items state
      | none => exact Value.walkEach_eq_foldlM visit (segment :: rest) items state
termination_by structural v => v

theorem Record.walkField_eq_foldlM (visit : σ → Value → Except ε σ) (name : String)
    (rest : Path) :
    ∀ (record : Record) (state : σ),
      record.walkField visit name rest state = (record.reachField name rest).foldlM visit state
  | ⟨type, slots⟩, state => by
    rw [Record.walkField, Record.reachField]
    cases type.slot? name with
    | some i => exact Value.walkAt_eq_foldlM visit rest i slots state
    | none => rfl
termination_by structural r => r

theorem Value.walkEach_eq_foldlM (visit : σ → Value → Except ε σ) (path : Path) :
    ∀ (values : List Value) (state : σ),
      Value.walkEach visit path values state = (Value.reachEach path values).foldlM visit state
  | [], state => rfl
  | value :: values, state => by
    rw [Value.walkEach, Value.reachEach, List.foldlM_append,
      Value.walk_eq_foldlM visit path value state]
    congr 1
    funext next
    exact Value.walkEach_eq_foldlM visit path values next
termination_by structural vs => vs

theorem Value.walkAt_eq_foldlM (visit : σ → Value → Except ε σ) (path : Path) :
    ∀ (i : Nat) (values : List Value) (state : σ),
      Value.walkAt visit path i values state = (Value.reachAt path i values).foldlM visit state
  | _, [], state => by
    rw [Value.walkAt, Value.reachAt]
    rfl
  | 0, value :: _, state => Value.walk_eq_foldlM visit path value state
  | i + 1, _ :: values, state => Value.walkAt_eq_foldlM visit path i values state
termination_by structural _ vs => vs

end

theorem Record.walk_eq_foldlM (visit : σ → Value → Except ε σ) (record : Record) (path : Path)
    (state : σ) : record.walk visit path state = (record.reach path).foldlM visit state := by
  cases path with
  | nil => rfl
  | cons name rest => exact Record.walkField_eq_foldlM visit name rest record state

theorem Target.walk_eq_foldlM (target : Target) (rows : Rows)
    (visit : σ → String → Except RuleError σ) (state : σ) :
    target.walk rows (fun state value => visit state value.text) state =
      (target.texts rows).bind fun texts => texts.foldlM visit state := by
  unfold Target.walk Target.texts
  cases rows target.table with
  | none => rfl
  | some records =>
    change _ = List.foldlM visit state _
    rw [List.foldlM_map]
    simp only [Record.walk_eq_foldlM]
    induction records generalizing state with
    | nil => rfl
    | cons record rest ih =>
      rw [List.foldlM_cons, List.flatMap_cons, List.foldlM_append]
      congr 1
      funext next
      exact ih next

/-! ## Checks by visitors -/

def sourceViolation? (source : Target) (allowed : List String) (text : String) :
    Option Violation :=
  if allowed.contains text then none else some ⟨text, .notInTable source⟩

def tokenViolation? (allowed : List String) (text : String) : Option Violation :=
  ((tokens text).find? fun token => !allowed.contains token).map fun token =>
    ⟨token, .notInValues allowed⟩

/--
Check a rule by walks through the rows, which stop at the first value that breaks the rule. Only
the visitors that collect texts have a state.
-/
def Rule.checkByWalk (rows : Rows) : Rule → Except RuleError Unit
  | .mapping target source => do
    let allowed ← source.walk rows (fun texts value => .ok (value.text :: texts)) []
    target.walk rows (fun _ value => target.verdict
      (sourceViolation? source allowed value.text)) ()
  | .valueSet target allowed =>
    target.walk rows (fun _ value => target.verdict (tokenViolation? allowed value.text)) ()
  | .interval target min max =>
    target.walk rows (fun _ value => target.verdict (intervalViolation? min max value.text)) ()
  | .uniqueness target => do
    let _ ← target.walk rows (fun seen value =>
      if seen.contains value.text then
        .error (.violation target ⟨value.text, .duplicate⟩)
      else
        .ok (value.text :: seen)) []
    .ok ()

theorem Target.walk_verdict (target : Target) (rows : Rows) (find : String → Option Violation) :
    target.walk rows (fun _ value => target.verdict (find value.text)) () =
      (target.texts rows).bind fun texts => target.verdict (texts.findSome? find) := by
  rw [target.walk_eq_foldlM rows fun _ text => target.verdict (find text)]
  congr 1
  funext texts
  induction texts with
  | nil => rfl
  | cons text rest ih =>
    rw [List.foldlM_cons, List.findSome?_cons]
    cases find text with
    | none => exact ih
    | some found => rfl

theorem Target.walk_collect (target : Target) (rows : Rows) :
    target.walk rows (fun texts value => .ok (value.text :: texts)) [] =
      (target.texts rows).map List.reverse := by
  rw [target.walk_eq_foldlM rows fun texts text => .ok (text :: texts)]
  have hcollect : ∀ texts seen : List String,
      texts.foldlM (fun seen text => (.ok (text :: seen) : Except RuleError (List String))) seen =
        .ok (texts.reverse ++ seen) := by
    intro texts
    induction texts with
    | nil => exact fun _ => rfl
    | cons text rest ih =>
      intro seen
      rw [List.foldlM_cons, List.reverse_cons, List.append_assoc]
      exact ih (text :: seen)
  cases target.texts rows with
  | error error => rfl
  | ok texts =>
    rw [Except.bind, hcollect, List.append_nil]
    rfl

theorem Target.walk_repeat (target : Target) (rows : Rows) :
    ((target.walk rows (fun seen value =>
        if List.contains seen value.text then
          .error (.violation target ⟨value.text, .duplicate⟩)
        else
          .ok (value.text :: seen)) []).bind fun _ => .ok ()) =
      (target.texts rows).bind fun texts =>
        target.verdict ((firstRepeat? [] texts).map fun text => ⟨text, .duplicate⟩) := by
  rw [target.walk_eq_foldlM rows fun seen text =>
    if List.contains seen text then
      .error (.violation target ⟨text, .duplicate⟩)
    else
      .ok (text :: seen)]
  cases target.texts rows with
  | error error => rfl
  | ok texts =>
    dsimp only [Except.bind]
    generalize [] = seen
    induction texts generalizing seen with
    | nil => rfl
    | cons text rest ih =>
      rw [List.foldlM_cons, firstRepeat?]
      by_cases hseen : seen.contains text = true
      · rw [if_pos hseen, if_pos hseen]
        rfl
      · rw [if_neg hseen, if_neg hseen]
        exact ih (text :: seen)

theorem map_find?_eq_findSome? (source : Target) (allowed texts : List String) :
    ((texts.find? fun text => !allowed.contains text).map fun text =>
      ⟨text, .notInTable source⟩) = texts.findSome? (sourceViolation? source allowed) := by
  rw [List.find?_eq_findSome?_guard, List.map_findSome?]
  congr 1
  funext text
  unfold sourceViolation?
  dsimp only [Function.comp_apply, Option.guard]
  by_cases hmem : allowed.contains text = true
  · rw [if_pos hmem, if_neg (by simpa using hmem)]
    rfl
  · rw [if_neg hmem, if_pos (by simpa using hmem)]
    rfl

theorem map_find?_tokens_eq_findSome? (allowed texts : List String) :
    (((texts.flatMap tokens).find? fun token => !allowed.contains token).map fun token =>
      ⟨token, .notInValues allowed⟩) = texts.findSome? (tokenViolation? allowed) := by
  rw [List.find?_flatMap, List.map_findSome?]
  rfl

theorem Rule.checkByWalk_eq (rows : Rows) (rule : Rule) :
    rule.checkByWalk rows = rule.check rows := by
  cases rule with
  | mapping target source =>
    rw [checkByWalk, check, source.walk_collect]
    cases source.texts rows with
    | error error => rfl
    | ok allowed =>
      have hfind : sourceViolation? source allowed.reverse = sourceViolation? source allowed := by
        funext text
        unfold sourceViolation?
        rw [List.contains_reverse]
      dsimp only [Except.map, bind, Except.bind]
      rw [target.walk_verdict rows (sourceViolation? source allowed.reverse), hfind]
      simp only [map_find?_eq_findSome?]
      rfl
  | valueSet target allowed =>
    rw [checkByWalk, check, target.walk_verdict rows (tokenViolation? allowed)]
    simp only [map_find?_tokens_eq_findSome?]
    rfl
  | interval target min max =>
    rw [checkByWalk, check, target.walk_verdict rows (intervalViolation? min max)]
    rfl
  | uniqueness target => exact target.walk_repeat rows

end RowTree
