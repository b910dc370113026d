import RowTree.Proofs.Record.Order
import RowTree.Proofs.Rule.Rows
import RowTree.Proofs.Store.Run

/-!
This module contains how the checks of a store change with its calls. Calls only append rows, so
that a violation stays the one that is reported, unless a mapping gets new rows at its source
(`Store.check_run_of_violation`), and a mapping that holds stays so, unless it gets new rows at its
target (`Store.check_run_mapping_of_ok`). What a single row can change is said in `Store.check_add`.
-/

namespace RowTree

namespace Store

variable {store larger : Store} {name : String} {rule : Rule}

/-! ## The rows behind a call -/

theorem rows_appendTable {type : RecordType} (h : store.table? type.name = none) (name : String) :
    (store.appendTable type).rows name =
      if name = type.name then some [] else store.rows name := by
  unfold rows
  rw [table?_appendTable h]
  split <;> rfl

theorem rows_appendRow (store : Store) (name : String) (row : Record) (other : String) :
    (store.appendRow name row).rows other =
      if other = name then (store.rows other).map (· ++ [row]) else store.rows other := by
  unfold rows
  rw [table?_appendRow]
  split
  · rw [Option.map_map, Option.map_map]
    rfl
  · rfl

theorem rows_add_of_ne {entries : List Entry} (h : store.add name entries = .ok larger)
    {other : String} (hother : other ≠ name) : larger.rows other = store.rows other := by
  have hstep := store.step_add name entries
  rw [(answer_add_of_ok h).1, (answer_add_of_ok h).2] at hstep
  cases hstep with
  | added => rw [rows_appendRow, if_neg hother]

theorem rows_apply {records : List Record} (h : store.rows name = some records) (call : Call) :
    (store.apply call).rows name = some records ∨
      ∃ entries row, call = .add name entries ∧
        (store.apply call).rows name = some (records ++ [row]) := by
  have hstep := store.step call
  generalize store.answer call = answered, store.apply call = larger at hstep ⊢
  cases hstep with
  | created hnew hbuild =>
    rw [← name_of_build hbuild] at hnew
    rw [rows_appendTable hnew, if_neg]
    · exact .inl h
    · rintro rfl
      rw [rows, hnew] at h
      cases h
  | added =>
    rw [rows_appendRow, h]
    split
    · next heq =>
      subst heq
      exact .inr ⟨_, _, rfl, rfl⟩
    · exact .inl rfl
  | duplicate | rejected | unknown | refused => exact .inl h

theorem growsTo_apply (store : Store) (call : Call) :
    store.rows.GrowsTo (store.apply call).rows := by
  intro name records hrecords
  obtain hkept | ⟨_, row, _, hadded⟩ := rows_apply hrecords call
  · exact ⟨[], by rw [hkept, List.append_nil]⟩
  · exact ⟨[row], hadded⟩

theorem growsTo_run (store : Store) (calls : List Call) :
    store.rows.GrowsTo (store.run calls).rows := by
  induction calls generalizing store with
  | nil => exact .refl _
  | cons call calls ih => exact (store.growsTo_apply call).trans (ih _)

theorem rows_run_of_not_mem {calls : List Call} (hsome : (store.rows name).isSome)
    (hcalls : ∀ entries, Call.add name entries ∉ calls) :
    (store.run calls).rows name = store.rows name := by
  -- a table that does not exist yet may be created on the way, so the induction keeps the rows
  obtain ⟨records, hrecords⟩ := Option.isSome_iff_exists.1 hsome
  rw [hrecords]
  clear hsome
  induction calls generalizing store with
  | nil => exact hrecords
  | cons call calls ih =>
    obtain hkept | ⟨entries, _, rfl, _⟩ := rows_apply hrecords call
    · exact ih (fun entries h => hcalls entries (List.mem_cons_of_mem call h)) hkept
    · exact absurd List.mem_cons_self (hcalls entries)

/-! ## Checks behind calls -/

theorem check_run_of_violation {calls : List Call} {target : Target} {found : Violation}
    (hsource : ∀ target source, rule = .mapping target source →
      ∀ entries, Call.add source.table entries ∉ calls)
    (h : store.check rule = .error (.violation target found)) :
    (store.run calls).check rule = .error (.violation target found) := by
  apply Rule.check_eq_violation_of_growsTo (store.growsTo_run calls) _ h
  rintro target source rfl
  obtain ⟨htables, _⟩ := Rule.check_eq_violation_iff.1 h
  exact Target.reached_congr (rows_run_of_not_mem (htables source.table (by simp [Rule.tables]))
    (hsource target source rfl))

theorem check_run_mapping_of_ok {calls : List Call} {target source : Target}
    (htarget : ∀ entries, Call.add target.table entries ∉ calls)
    (h : store.check (.mapping target source) = .ok ()) :
    (store.run calls).check (.mapping target source) = .ok () := by
  apply Rule.check_mapping_eq_ok_of_growsTo (store.growsTo_run calls) _ h
  obtain ⟨htables, _⟩ := Rule.check_eq_ok_iff.1 h
  exact Target.reached_congr
    (rows_run_of_not_mem (htables target.table (by simp [Rule.tables])) htarget)

/--
A row that is added to a table keeps the violation that a rule reports, unless the rule is a
mapping with its source there. It keeps a mapping that holds, unless the mapping has its target
there, and all that is said of rules on other tables.
-/
theorem check_add {entries : List Entry} (h : store.add name entries = .ok larger) (rule : Rule) :
    ((∀ target source, rule = .mapping target source → source.table ≠ name) →
      ∀ target found, store.check rule = .error (.violation target found) →
        larger.check rule = .error (.violation target found)) ∧
    (∀ target source, rule = .mapping target source → target.table ≠ name →
      store.check rule = .ok () → larger.check rule = .ok ()) ∧
    (name ∉ rule.tables → larger.check rule = store.check rule) := by
  have hrun : store.run [.add name entries] = larger := (answer_add_of_ok h).2
  have hother {table : String} (hne : table ≠ name) (added : List Entry) :
      Call.add table added ∉ [Call.add name entries] := by simp [hne]
  refine ⟨?_, ?_, ?_⟩
  · intro hsource target found hcheck
    rw [← hrun]
    exact check_run_of_violation
      (fun target source hrule => hother (hsource target source hrule)) hcheck
  · rintro target source rfl htarget hcheck
    rw [← hrun]
    exact check_run_mapping_of_ok (hother htarget) hcheck
  · intro hname
    apply Rule.check_congr
    intro table htable
    exact rows_add_of_ne h fun heq => hname (heq ▸ htable)

theorem check_add_people :
    let people : RecordType := ⟨"people", [⟨"name", .primitive .string⟩]⟩
    let pets : RecordType := ⟨"pets", [⟨"owner", .primitive .string⟩]⟩
    let row : RecordType → String → Record := fun type text => ⟨type, [.scalar (.string text)]⟩
    let store : Store :=
      ⟨[⟨people, [row people "a", row people "b", row people "b"]⟩, ⟨pets, [row pets "b"]⟩]⟩
    let entries : List Entry := [⟨"name", .string "a"⟩]
    let names : Target := ⟨"people", "name", ["name"], rfl⟩
    let owners : Target := ⟨"pets", "owner", ["owner"], rfl⟩
    let larger : Store :=
      ⟨[⟨people, [row people "a", row people "b", row people "b", row people "a"]⟩,
        ⟨pets, [row pets "b"]⟩]⟩
    store.add "people" entries = .ok larger ∧
      store.check (.uniqueness names) = .error (.violation names ⟨"b", .duplicate⟩) ∧
      larger.check (.uniqueness names) = .error (.violation names ⟨"b", .duplicate⟩) ∧
      store.check (.mapping owners names) = .ok () ∧
      larger.check (.mapping owners names) = .ok () ∧
      "people" ∉ (Rule.valueSet owners ["a"]).tables ∧
      larger.check (.valueSet owners ["a"]) = store.check (.valueSet owners ["a"]) := by
  intro people pets row store entries names owners larger
  have himport : (Record.empty people).importEntries entries = (row people "a", []) := by
    unfold Record.importEntries
    rw [Entry.inPathOrder_of_sorted (by decide)]
    rfl
  have hfind : store.table? "people" =
      some ⟨people, [row people "a", row people "b", row people "b"]⟩ := rfl
  have hadd : store.add "people" entries = .ok larger := add_eq_appendRow hfind himport
  have hunique : store.check (.uniqueness names) = .error (.violation names ⟨"b", .duplicate⟩) := by
    cbv
  have hmapping : store.check (.mapping owners names) = .ok () := by cbv
  have hother : "people" ∉ (Rule.valueSet owners ["a"]).tables := by decide
  refine ⟨hadd, hunique, ?_, hmapping, ?_, hother, ?_⟩
  · exact (check_add hadd _).1 (by simp) _ _ hunique
  · exact (check_add hadd _).2.1 owners names rfl (by decide) hmapping
  · exact (check_add hadd _).2.2 hother

end Store

end RowTree
