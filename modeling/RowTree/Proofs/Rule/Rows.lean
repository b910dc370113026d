import RowTree.Proofs.Rule.Outcome

/-!
This module contains how checks depend on the rows. The order of the rows has no influence on
whether a rule holds (`Rule.check_of_reordered`). Rows behind the others keep a violation that was
reported, since it is the first one, and at the source of a mapping they keep success
(`Rule.check_eq_violation_of_growsTo`, `Rule.check_mapping_eq_ok_of_growsTo`).
-/

namespace RowTree

/-! ## Rows in another order -/

/--
The same tables with the same rows, in another order.
-/
def Rows.Reordered (rows others : Rows) : Prop :=
  ∀ name, Option.Rel List.Perm (rows name) (others name)

namespace Rows.Reordered

variable {rows others : Rows}

theorem isSome_eq (h : rows.Reordered others) (name : String) :
    (rows name).isSome = (others name).isSome := by
  have hname := h name
  generalize rows name = records, others name = reordered at hname ⊢
  cases hname <;> rfl

theorem missing?_eq (h : rows.Reordered others) (rule : Rule) :
    rule.missing? rows = rule.missing? others := by
  unfold Rule.missing?
  congr 1
  funext table
  rw [← Option.not_isSome, ← Option.not_isSome, h.isSome_eq]

theorem reached_perm (h : rows.Reordered others) (target : Target) :
    (target.reached rows).Perm (target.reached others) := by
  unfold Target.reached
  have htable := h target.table
  generalize rows target.table = records, others target.table = reordered at htable ⊢
  apply List.Perm.map
  cases htable with
  | none => exact .rfl
  | some hperm => exact hperm.flatMap_right _

theorem holds_iff (h : rows.Reordered others) (rule : Rule) :
    rule.Holds rows ↔ rule.Holds others := by
  have hmem (target : Target) (text : String) :
      text ∈ target.reached rows ↔ text ∈ target.reached others :=
    (h.reached_perm target).mem_iff
  cases rule with
  | mapping target source => simp only [Rule.Holds, hmem]
  | valueSet target allowed => simp only [Rule.Holds, hmem]
  | interval target min max => simp only [Rule.Holds, hmem]
  | uniqueness target => exact (h.reached_perm target).nodup_iff

end Rows.Reordered

namespace Rule

variable {rows others : Rows} {rule : Rule}

theorem exists_violation_iff {target : Target} :
    (∃ found, rule.check rows = .error (.violation target found)) ↔
      (∀ table ∈ rule.tables, (rows table).isSome) ∧ rule.target = target ∧ ¬rule.Holds rows := by
  simp only [check_eq_violation_iff, exists_and_left, ← search?_eq_some_iff]
  rw [← Option.isSome_iff_exists, Option.isSome_iff_ne_none, ne_eq, search?_eq_none_iff]

/--
The order of the rows has no influence on whether a check succeeds, misses a table or finds a
violation. Only which violation it finds may differ.
-/
theorem check_of_reordered (h : rows.Reordered others) (rule : Rule) :
    (rule.check rows = .ok () ↔ rule.check others = .ok ()) ∧
      (∀ table, rule.check rows = .error (.unknownTable table) ↔
        rule.check others = .error (.unknownTable table)) ∧
      ∀ target, (∃ found, rule.check rows = .error (.violation target found)) ↔
        ∃ found, rule.check others = .error (.violation target found) := by
  have htables : (∀ table ∈ rule.tables, (rows table).isSome) ↔
      ∀ table ∈ rule.tables, (others table).isSome := by
    simp only [h.isSome_eq]
  refine ⟨?_, fun table => ?_, fun target => ?_⟩
  · rw [check_eq_ok_iff, check_eq_ok_iff, htables, h.holds_iff rule]
  · rw [check_eq_unknownTable_iff, check_eq_unknownTable_iff, h.missing?_eq rule]
  · rw [exists_violation_iff, exists_violation_iff, htables, h.holds_iff rule]

theorem check_of_reordered_names :
    let type : RecordType := ⟨"pet", [⟨"name", .primitive .string⟩]⟩
    let row : String → Record := fun text => ⟨type, [.scalar (.string text)]⟩
    let pets : List String → Rows := fun texts name =>
      if name = "pet" then some (texts.map row) else none
    let rows := pets ["a", "b", "b", "a"]
    let others := pets ["b", "a", "a", "b"]
    let target : Target := ⟨"pet", "name", ["name"], rfl⟩
    let mapping : Rule := .mapping target ⟨"dog", "name", ["name"], rfl⟩
    rows.Reordered others ∧
      (Rule.uniqueness target).check rows = .error (.violation target ⟨"b", .duplicate⟩) ∧
      (Rule.uniqueness target).check others = .error (.violation target ⟨"a", .duplicate⟩) ∧
      ((Rule.uniqueness target).check rows = .ok () ↔
        (Rule.uniqueness target).check others = .ok ()) ∧
      (mapping.check rows = .error (.unknownTable "dog") ↔
        mapping.check others = .error (.unknownTable "dog")) := by
  intro type row pets rows others target mapping
  have hreordered : rows.Reordered others := by
    intro name
    by_cases hname : name = "pet"
    · simp only [rows, others, pets, if_pos hname]
      exact .some (List.Perm.map row (by decide))
    · simp only [rows, others, pets, if_neg hname]
      exact .none
  refine ⟨hreordered, by cbv, by cbv, ?_, ?_⟩
  · exact (check_of_reordered hreordered _).1
  · exact (check_of_reordered hreordered _).2.1 "dog"

end Rule

/-! ## More rows -/

/--
All tables are still there, and rows were added behind the others only.
-/
def Rows.GrowsTo (rows larger : Rows) : Prop :=
  ∀ name records, rows name = some records → ∃ more, larger name = some (records ++ more)

namespace Rows.GrowsTo

variable {rows larger largest : Rows}

theorem refl (rows : Rows) : rows.GrowsTo rows :=
  fun _ records h => ⟨[], by rw [h, List.append_nil]⟩

theorem trans (h : rows.GrowsTo larger) (hlarger : larger.GrowsTo largest) :
    rows.GrowsTo largest := by
  intro name records hrecords
  obtain ⟨more, hmore⟩ := h name records hrecords
  obtain ⟨rest, hrest⟩ := hlarger name _ hmore
  exact ⟨more ++ rest, by rw [hrest, List.append_assoc]⟩

theorem isSome (h : rows.GrowsTo larger) {name : String} (hname : (rows name).isSome) :
    (larger name).isSome := by
  obtain ⟨records, hrecords⟩ := Option.isSome_iff_exists.1 hname
  obtain ⟨more, hmore⟩ := h name records hrecords
  rw [hmore]
  rfl

theorem exists_reached_append (h : rows.GrowsTo larger) {target : Target}
    (htable : (rows target.table).isSome) :
    ∃ more, target.reached larger = target.reached rows ++ more := by
  obtain ⟨records, hrecords⟩ := Option.isSome_iff_exists.1 htable
  obtain ⟨more, hmore⟩ := h target.table records hrecords
  unfold Target.reached
  rw [hmore, hrecords, Option.getD_some, Option.getD_some, List.flatMap_append, List.map_append]
  exact ⟨_, rfl⟩

end Rows.GrowsTo

theorem Target.reached_congr {rows others : Rows} {target : Target}
    (h : others target.table = rows target.table) :
    target.reached others = target.reached rows := by
  unfold reached
  rw [h]

namespace Rule

variable {rows larger : Rows} {rule : Rule} {found : Violation}

theorem Breaks.of_source (hsource : ∀ target source, rule = .mapping target source →
    source.reached larger = source.reached rows) {earlier : List String} {text : String}
    (h : rule.Breaks rows earlier text found) : rule.Breaks larger earlier text found := by
  cases h with
  | notInTable h => exact .notInTable (by rwa [hsource _ _ rfl])
  | notInValues hparts hfront htoken => exact .notInValues hparts hfront htoken
  | notAnInteger h => exact .notAnInteger h
  | outOfInterval hn h => exact .outOfInterval hn h
  | duplicate h => exact .duplicate h

theorem FirstBreaks.append (hsource : ∀ target source, rule = .mapping target source →
    source.reached larger = source.reached rows) {texts : List String}
    (h : rule.FirstBreaks rows texts found) (more : List String) :
    rule.FirstBreaks larger (texts ++ more) found := by
  obtain ⟨front, text, back, htexts, hbreaks, hfirst⟩ := h
  refine ⟨front, text, back ++ more, by simp [htexts], hbreaks.of_source hsource, ?_⟩
  intro before other after hfront first hother
  apply hfirst before other after hfront first
  exact hother.of_source fun target source hrule => (hsource target source hrule).symm

theorem check_eq_violation_of_growsTo (h : rows.GrowsTo larger)
    (hsource : ∀ target source, rule = .mapping target source →
      source.reached larger = source.reached rows) {target : Target}
    (hcheck : rule.check rows = .error (.violation target found)) :
    rule.check larger = .error (.violation target found) := by
  obtain ⟨htables, htarget, hfirst⟩ := check_eq_violation_iff.1 hcheck
  have hmem : rule.target.table ∈ rule.tables := by cases rule <;> simp [Rule.target, tables]
  obtain ⟨more, hmore⟩ := h.exists_reached_append (htables _ hmem)
  refine check_eq_violation_iff.2 ⟨fun table htable => h.isSome (htables table htable), htarget, ?_⟩
  rw [hmore]
  exact hfirst.append hsource more

theorem check_mapping_eq_ok_of_growsTo (h : rows.GrowsTo larger) {target source : Target}
    (htarget : target.reached larger = target.reached rows)
    (hcheck : (Rule.mapping target source).check rows = .ok ()) :
    (Rule.mapping target source).check larger = .ok () := by
  obtain ⟨htables, hholds⟩ := check_eq_ok_iff.1 hcheck
  obtain ⟨more, hmore⟩ := h.exists_reached_append (htables source.table (by simp [tables]))
  refine check_eq_ok_iff.2 ⟨fun table htable => h.isSome (htables table htable), ?_⟩
  intro text htext
  rw [htarget] at htext
  rw [hmore]
  exact List.mem_append_left more (hholds text htext)

theorem check_congr (h : ∀ table ∈ rule.tables, larger table = rows table) :
    rule.check larger = rule.check rows := by
  have htexts (target : Target) (htable : target.table ∈ rule.tables) :
      target.texts larger = target.texts rows := by
    unfold Target.texts
    rw [h target.table htable]
  cases rule with
  | mapping target source =>
    simp only [check, htexts target (by simp [tables]), htexts source (by simp [tables])]
  | valueSet target allowed => simp only [check, htexts target (by simp [tables])]
  | interval target min max => simp only [check, htexts target (by simp [tables])]
  | uniqueness target => simp only [check, htexts target (by simp [tables])]

end Rule

end RowTree
