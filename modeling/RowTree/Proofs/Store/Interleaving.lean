import Mathlib.Data.List.Nodup
import RowTree.Proofs.Store.History

/-!
This module contains that the tables of a store do not disturb each other. A call reads and changes
the table that it is about and no other one (`Store.effect_eq`, `Store.table?_apply_of_ne`). So the
answers to the calls about a table, and what becomes of it, are the same without the other calls
(`Store.filter_transcript`, `Store.table?_run`), and the order in which calls about different
tables come shows in the order of the names only (`Store.run_of_interleaved`).
-/

namespace RowTree

namespace Store

def Call.table : Call → String
  | .create schema => schema.name
  | .add name _ => name

def Call.about (name : String) (calls : List Call) : List Call :=
  calls.filter (·.table = name)

/--
The answer to a call and the table that it is about afterwards, by what this table was before.
-/
def Call.effect (before : Option Table) :
    Call → Except StoreError (Option RecordType) × Option Table
  | .create schema =>
    match before, schema.build with
    | some _, _ => (.error (.duplicateTable schema.name), before)
    | none, .error error => (.error (.schema error), none)
    | none, .ok (type, _) => (.ok (some type), some ⟨type, []⟩)
  | .add name entries =>
    match before with
    | none => (.error (.unknownTable name), none)
    | some table =>
      let (row, errors) := (Record.empty table.type).importEntries entries
      if errors = [] then
        (.ok none, some (table.append row))
      else
        (.error (.entry name (table.rows.length + 1) errors), before)

def transcript (store : Store) : List Call → List (Call × Except StoreError (Option RecordType))
  | [] => []
  | call :: rest => (call, store.answer call) :: (store.apply call).transcript rest

/-! ## What a call sees and changes -/

theorem effect_eq (store : Store) (call : Call) :
    call.effect (store.table? call.table) =
      (store.answer call, (store.apply call).table? call.table) := by
  have hstep := store.step call
  generalize store.answer call = answer at hstep ⊢
  generalize store.apply call = larger at hstep ⊢
  cases hstep with
  | created hnew hbuild =>
    have hname := name_of_build hbuild
    have hfree := hnew
    rw [← hname] at hfree
    dsimp only [Call.table, Call.effect]
    rw [table?_appendTable hfree, if_pos hname.symm, hnew, hbuild]
  | duplicate hfind =>
    dsimp only [Call.table, Call.effect]
    rw [hfind]
  | rejected hnew hbuild =>
    dsimp only [Call.table, Call.effect]
    rw [hnew, hbuild]
  | added hfind himport =>
    dsimp only [Call.table, Call.effect]
    rw [table?_appendRow, if_pos rfl, hfind]
    dsimp only
    rw [himport]
    exact if_pos rfl
  | unknown hfind =>
    dsimp only [Call.table, Call.effect]
    rw [hfind]
  | refused hfind himport hne =>
    dsimp only [Call.table, Call.effect]
    rw [hfind]
    dsimp only
    rw [himport]
    exact if_neg hne

theorem table?_apply_of_ne {call : Call} {name : String} (h : call.table ≠ name) (store : Store) :
    (store.apply call).table? name = store.table? name := by
  have hstep := store.step call
  generalize store.answer call = answer at hstep
  generalize store.apply call = larger at hstep ⊢
  cases hstep with
  | created hnew hbuild =>
    rw [← name_of_build hbuild] at hnew
    rw [table?_appendTable hnew, if_neg]
    rw [name_of_build hbuild]
    exact Ne.symm h
  | added =>
    rw [table?_appendRow]
    exact if_neg (Ne.symm h)
  | duplicate | rejected | unknown | refused => rfl

theorem names_apply_add (store : Store) (name : String) (entries : List Entry) :
    (store.apply (.add name entries)).names = store.names := by
  have hstep := store.step (.add name entries)
  generalize store.answer (.add name entries) = answer at hstep
  generalize store.apply (.add name entries) = larger at hstep ⊢
  cases hstep with
  | added => exact names_appendRow _ _ _
  | unknown | refused => rfl

theorem names_apply_create {store : Store} {schema : Schema} {type : RecordType}
    {registry : Registry} (hbuild : schema.build = .ok (type, registry)) :
    (store.apply (.create schema)).names =
      if schema.name ∈ store.names then store.names else store.names ++ [schema.name] := by
  have hstep := store.step (.create schema)
  generalize store.answer (.create schema) = answer at hstep
  generalize store.apply (.create schema) = larger at hstep ⊢
  cases hstep with
  | created hnew hbuilt =>
    rw [names_appendTable, name_of_build hbuilt, if_neg (table?_eq_none_iff.1 hnew)]
  | duplicate hfind =>
    rw [if_pos]
    apply Classical.byContradiction
    intro hnone
    rw [table?_eq_none_iff.2 hnone] at hfind
    cases hfind
  | rejected hnew hfailed =>
    rw [hbuild] at hfailed
    cases hfailed

section

variable {store other : Store} {name : String}

/--
Stores that have the same table under a name answer a call about it alike, and have the same table
afterwards.
-/
theorem answer_eq_of_table?_eq {call : Call}
    (h : store.table? call.table = other.table? call.table) :
    store.answer call = other.answer call ∧
      (store.apply call).table? call.table = (other.apply call).table? call.table := by
  have heffect := store.effect_eq call
  rw [h, other.effect_eq call, Prod.mk.injEq] at heffect
  exact ⟨heffect.1.symm, heffect.2.symm⟩

/-! ## What a run does with a single table -/

theorem filter_transcript (h : store.table? name = other.table? name) (calls : List Call) :
    (store.transcript calls).filter (·.1.table = name) =
      other.transcript (Call.about name calls) := by
  induction calls generalizing store other with
  | nil => rfl
  | cons call rest ih =>
    unfold Call.about
    by_cases hname : call.table = name
    · subst hname
      obtain ⟨hanswer, hafter⟩ := answer_eq_of_table?_eq h
      rw [transcript, List.filter_cons_of_pos (by simp), List.filter_cons_of_pos (by simp),
        transcript, hanswer, ih hafter]
      rfl
    · rw [transcript, List.filter_cons_of_neg (by simpa), List.filter_cons_of_neg (by simpa)]
      rw [← table?_apply_of_ne hname store] at h
      exact ih h

theorem table?_run (h : store.table? name = other.table? name) (calls : List Call) :
    (store.run calls).table? name = (other.run (Call.about name calls)).table? name := by
  induction calls generalizing store other with
  | nil => exact h
  | cons call rest ih =>
    unfold Call.about
    by_cases hname : call.table = name
    · subst hname
      rw [List.filter_cons_of_pos (by simp)]
      exact ih (answer_eq_of_table?_eq h).2
    · rw [List.filter_cons_of_neg (by simpa)]
      rw [← table?_apply_of_ne hname store] at h
      exact ih h

end

/-! ## Interleaved calls -/

theorem names_run_empty_perm {calls others : List Call}
    (h : ∀ name, (empty.run calls).table? name = (empty.run others).table? name) :
    (empty.run calls).names.Perm (empty.run others).names := by
  rw [List.perm_ext_iff_of_nodup (MadeBy.empty.run calls).nodup (MadeBy.empty.run others).nodup]
  intro name
  rw [← not_iff_not, ← table?_eq_none_iff, ← table?_eq_none_iff, h]

/--
Two runs on an empty store with the same calls about each table answer each of these calls alike,
whatever other calls come in between. Both have the same tables in the end, with the same types and
rows, and show the same in projections and in the checks of rules. Their names are the same up to
order.
-/
theorem run_of_interleaved {calls others : List Call}
    (h : ∀ name, Call.about name calls = Call.about name others) :
    (∀ name, (empty.transcript calls).filter (·.1.table = name) =
      (empty.transcript others).filter (·.1.table = name)) ∧
    (∀ name, (empty.run calls).table? name = (empty.run others).table? name) ∧
    (∀ name headers,
      (empty.run calls).project name headers = (empty.run others).project name headers) ∧
    (∀ rule, (empty.run calls).check rule = (empty.run others).check rule) ∧
    (empty.run calls).names.Perm (empty.run others).names := by
  have htable (name : String) :
      (empty.run calls).table? name = (empty.run others).table? name := by
    rw [table?_run rfl, h, ← table?_run rfl]
  refine ⟨?_, htable, ?_, ?_, names_run_empty_perm htable⟩
  · intro name
    rw [filter_transcript rfl, h, ← filter_transcript rfl]
  · intro name headers
    unfold project table
    rw [htable]
  · intro rule
    have hrows : (empty.run calls).rows = (empty.run others).rows := by
      funext name
      unfold rows
      rw [htable]
    rw [check, hrows, check]

theorem run_of_interleaved_people :
    let people : Schema := ⟨"people", [⟨"age", "int", false⟩], [], []⟩
    let towns : Schema := ⟨"towns", [⟨"name", "string", false⟩], [], []⟩
    let person : RecordType := ⟨"people", [⟨"age", .primitive .int⟩]⟩
    let refused : Call := .add "people" [⟨"age", .string "old"⟩]
    let reason : StoreError := .entry "people" 2 [⟨"age", .invalidValue "age" "int" "old"⟩]
    let calls : List Call :=
      [.create people, .add "people" [⟨"age", .int 7⟩], refused,
        .add "towns" [⟨"name", .string "A"⟩], .create towns, .add "towns" [⟨"name", .string "B"⟩],
        .create people]
    let others : List Call :=
      [.add "towns" [⟨"name", .string "A"⟩], .create towns, .create people,
        .add "people" [⟨"age", .int 7⟩], .add "towns" [⟨"name", .string "B"⟩], refused,
        .create people]
    (∀ name, Call.about name calls = Call.about name others) ∧
      (∀ name, (empty.transcript calls).filter (·.1.table = name) =
        (empty.transcript others).filter (·.1.table = name)) ∧
      ((refused, .error reason) ∈ empty.transcript calls ∧
        (refused, .error reason) ∈ empty.transcript others) ∧
      ((empty.run calls).table? "people" = some ⟨person, [⟨person, [.scalar (.int 7)]⟩]⟩ ∧
        (empty.run others).table? "people" = some ⟨person, [⟨person, [.scalar (.int 7)]⟩]⟩) ∧
      ((empty.run calls).project "people" ["age"] = .ok [[some "7"]] ∧
        (empty.run others).project "people" ["age"] = .ok [[some "7"]]) ∧
      (empty.run calls).names = ["people", "towns"] ∧
      (empty.run others).names = ["towns", "people"] := by
  intro people towns person refused reason calls others
  have habout : ∀ name, Call.about name calls = Call.about name others := by
    intro name
    by_cases hpeople : "people" = name
    · subst hpeople
      rfl
    · by_cases htowns : "towns" = name
      · subst htowns
        rfl
      · simp [Call.about, calls, others, refused, Call.table, people, towns, hpeople, htowns]
  have hrefused : (refused, .error reason) ∈ empty.transcript calls := by
    apply List.mem_of_getElem? (i := 2)
    with_unfolding_all rfl
  have htable : (empty.run calls).table? "people" =
      some ⟨person, [⟨person, [.scalar (.int 7)]⟩]⟩ := by
    dsimp only [calls, refused, people, towns, person]
    with_unfolding_all rfl
  have hproject : (empty.run calls).project "people" ["age"] = .ok [[some "7"]] := by
    unfold project table
    rw [htable]
    rfl
  obtain ⟨_, _, hpeople⟩ : ∃ type registry, people.build = .ok (type, registry) :=
    ⟨_, _, by with_unfolding_all rfl⟩
  obtain ⟨_, _, htowns⟩ : ∃ type registry, towns.build = .ok (type, registry) :=
    ⟨_, _, by with_unfolding_all rfl⟩
  have hempty : empty.names = [] := rfl
  obtain ⟨htranscript, htables, hprojects, _⟩ := run_of_interleaved habout
  have hother : (refused, .error reason) ∈ empty.transcript others := by
    have hfiltered := List.mem_filter_of_mem hrefused (p := (·.1.table = "people")) (by decide)
    rw [htranscript] at hfiltered
    exact List.mem_of_mem_filter hfiltered
  refine ⟨habout, htranscript, ⟨hrefused, hother⟩, ⟨htable, ?_⟩, ⟨hproject, ?_⟩, ?_, ?_⟩
  · exact (htables "people").symm.trans htable
  · exact (hprojects "people" ["age"]).symm.trans hproject
  · simp only [calls, refused, run, List.foldl_cons, List.foldl_nil, names_apply_add,
      names_apply_create hpeople, names_apply_create htowns, hempty]
    decide
  · simp only [others, refused, run, List.foldl_cons, List.foldl_nil, names_apply_add,
      names_apply_create hpeople, names_apply_create htowns, hempty]
    decide

end Store

end RowTree
