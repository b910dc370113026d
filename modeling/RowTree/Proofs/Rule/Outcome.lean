import RowTree.Proofs.Rule.Walk

/-!
This module contains what a check of a rule says about the rows. It succeeds if the tables of the
rule exist and the rule holds of the texts at its target; otherwise it names the first missing
table, or the first text that breaks the rule (`Rule.check_outcome`).
-/

namespace RowTree

/-! ## Parts of a text -/

/--
The parts between the commas of the text without the quotes around it.
-/
def IsTokens (text : String) (parts : List String) : Prop :=
  ∃ m n bare, text.toList = List.replicate m '\x22' ++ bare ++ List.replicate n '\x22' ∧
    bare.head? ≠ some '\x22' ∧ bare.getLast? ≠ some '\x22' ∧ parts ≠ [] ∧
    (∀ part ∈ parts, ',' ∉ part.toList) ∧ Text.join ',' (parts.map String.toList) = bare

def bareText (cs : List Char) : List Char :=
  ((cs.dropWhile (· == '\x22')).reverse.dropWhile (· == '\x22')).reverse

theorem dropWhile_replicate_append (c : Char) (n : Nat) (cs : List Char) :
    (List.replicate n c ++ cs).dropWhile (· == c) = cs.dropWhile (· == c) := by
  apply List.dropWhile_append_of_pos
  intro d hd
  simpa using List.eq_of_mem_replicate hd

theorem dropWhile_eq_self_of_head? {c : Char} {cs : List Char} (h : cs.head? ≠ some c) :
    cs.dropWhile (· == c) = cs := by
  cases cs with
  | nil => rfl
  | cons d cs => exact List.dropWhile_cons_of_neg (by simpa using h)

theorem head?_dropWhile_ne (c : Char) (cs : List Char) :
    (cs.dropWhile (· == c)).head? ≠ some c := by
  intro h
  have hnot := List.head?_dropWhile_not (· == c) cs
  rw [h] at hnot
  simp at hnot

theorem exists_replicate_append_dropWhile (c : Char) (cs : List Char) :
    ∃ n, cs = List.replicate n c ++ cs.dropWhile (· == c) := by
  refine ⟨(cs.takeWhile (· == c)).length, ?_⟩
  have hall : cs.takeWhile (· == c) = List.replicate (cs.takeWhile (· == c)).length c := by
    apply List.eq_replicate_of_mem
    intro d hd
    simpa using List.all_eq_true.1 List.all_takeWhile d hd
  rw [← hall, List.takeWhile_append_dropWhile]

theorem bareText_eq {m n : Nat} {bare : List Char} (hhead : bare.head? ≠ some '\x22')
    (hlast : bare.getLast? ≠ some '\x22') :
    bareText (List.replicate m '\x22' ++ bare ++ List.replicate n '\x22') = bare := by
  unfold bareText
  rw [List.append_assoc, dropWhile_replicate_append]
  cases bare with
  | nil =>
    have hquotes := dropWhile_replicate_append '\x22' n []
    rw [List.append_nil] at hquotes
    rw [List.nil_append, hquotes]
    rfl
  | cons c cs =>
    have hfront : (c :: cs ++ List.replicate n '\x22').head? ≠ some '\x22' := hhead
    have hback : (c :: cs).reverse.head? ≠ some '\x22' := by rwa [List.head?_reverse]
    rw [dropWhile_eq_self_of_head? hfront, List.reverse_append, List.reverse_replicate,
      dropWhile_replicate_append, dropWhile_eq_self_of_head? hback, List.reverse_reverse]

theorem exists_replicate_bareText (cs : List Char) :
    ∃ m n, cs = List.replicate m '\x22' ++ bareText cs ++ List.replicate n '\x22' ∧
      (bareText cs).head? ≠ some '\x22' ∧ (bareText cs).getLast? ≠ some '\x22' := by
  obtain ⟨m, hfront⟩ := exists_replicate_append_dropWhile '\x22' cs
  obtain ⟨n, hback⟩ := exists_replicate_append_dropWhile '\x22'
    (cs.dropWhile (· == '\x22')).reverse
  have hdrop : cs.dropWhile (· == '\x22') = bareText cs ++ List.replicate n '\x22' := by
    rw [← List.reverse_inj, hback, List.reverse_append, List.reverse_replicate]
    unfold bareText
    rw [List.reverse_reverse]
  refine ⟨m, n, by rw [List.append_assoc, ← hdrop]; exact hfront, ?_, ?_⟩
  · have hhead := head?_dropWhile_ne '\x22' cs
    rw [hdrop] at hhead
    intro h
    obtain ⟨rest, hrest⟩ := List.head?_eq_some_iff.1 h
    rw [hrest] at hhead
    exact hhead rfl
  · unfold bareText
    rw [List.getLast?_reverse]
    exact head?_dropWhile_ne _ _

theorem isTokens_iff {text : String} {parts : List String} :
    IsTokens text parts ↔ tokens text = parts := by
  have htokens : tokens text = (Text.pieces ',' (bareText text.toList)).map String.ofList := rfl
  rw [htokens]
  constructor
  · rintro ⟨m, n, bare, htext, hhead, hlast, hne, hparts, hjoin⟩
    rw [htext, bareText_eq hhead hlast, ← hjoin, Text.pieces_join (by simpa using hne)]
    · simp
    · intro piece hpiece
      obtain ⟨part, hpart, rfl⟩ := List.mem_map.1 hpiece
      exact hparts part hpart
  · rintro rfl
    obtain ⟨m, n, htext, hhead, hlast⟩ := exists_replicate_bareText text.toList
    refine ⟨m, n, _, htext, hhead, hlast, by simpa using Text.pieces_ne_nil ',' _, ?_, ?_⟩
    · intro part hpart
      obtain ⟨piece, hpiece, rfl⟩ := List.mem_map.1 hpart
      rw [String.toList_ofList]
      exact Text.not_mem_of_mem_pieces hpiece
    · rw [List.map_map]
      have hself : String.toList ∘ String.ofList = id := by
        funext cs
        exact String.toList_ofList
      rw [hself, List.map_id, Text.join_pieces]

/-! ## What a rule says -/

def Target.reached (target : Target) (rows : Rows) : List String :=
  (((rows target.table).getD []).flatMap fun record => record.reach target.segments).map Value.text

theorem Target.texts_eq (target : Target) (rows : Rows) :
    target.texts rows =
      match (rows target.table).isNone with
      | true => .error (.unknownTable target.table)
      | false => .ok (target.reached rows) := by
  unfold texts reached
  cases rows target.table <;> rfl

namespace Rule

def tables : Rule → List String
  | .mapping target source => [source.table, target.table]
  | .valueSet target _ => [target.table]
  | .interval target _ _ => [target.table]
  | .uniqueness target => [target.table]

def missing? (rows : Rows) (rule : Rule) : Option String :=
  rule.tables.find? fun table => (rows table).isNone

def Holds (rows : Rows) : Rule → Prop
  | .mapping target source => ∀ text ∈ target.reached rows, text ∈ source.reached rows
  | .valueSet target allowed =>
    ∀ text ∈ target.reached rows, ∃ parts, IsTokens text parts ∧ ∀ token ∈ parts, token ∈ allowed
  | .interval target min max =>
    ∀ text ∈ target.reached rows,
      ∃ n, Text.int64? (Text.trim text).toList = some n ∧ min ≤ n ∧ n ≤ max
  | .uniqueness target => (target.reached rows).Nodup

/--
A text breaks the rule behind some other texts, and how this is reported.
-/
inductive Breaks (rows : Rows) : Rule → List String → String → Violation → Prop where
  | notInTable {target source : Target} {earlier : List String} {text : String}
      (h : text ∉ source.reached rows) :
      Breaks rows (.mapping target source) earlier text ⟨text, .notInTable source⟩
  | notInValues {target : Target} {allowed earlier front back : List String}
      {text token : String} (hparts : IsTokens text (front ++ token :: back))
      (hfront : ∀ other ∈ front, other ∈ allowed) (htoken : token ∉ allowed) :
      Breaks rows (.valueSet target allowed) earlier text ⟨token, .notInValues allowed⟩
  | notAnInteger {target : Target} {min max : Int64} {earlier : List String} {text : String}
      (h : Text.int64? (Text.trim text).toList = none) :
      Breaks rows (.interval target min max) earlier text ⟨text, .notAnInteger min max⟩
  | outOfInterval {target : Target} {min max n : Int64} {earlier : List String} {text : String}
      (hn : Text.int64? (Text.trim text).toList = some n) (h : n < min ∨ max < n) :
      Breaks rows (.interval target min max) earlier text ⟨text, .outOfInterval min max⟩
  | duplicate {target : Target} {earlier : List String} {text : String} (h : text ∈ earlier) :
      Breaks rows (.uniqueness target) earlier text ⟨text, .duplicate⟩

/--
The first of the texts that breaks the rule, and how it is reported.
-/
def FirstBreaks (rows : Rows) (rule : Rule) (texts : List String) (found : Violation) : Prop :=
  ∃ front text back, texts = front ++ text :: back ∧ rule.Breaks rows front text found ∧
    ∀ before other after, front = before ++ other :: after →
      ∀ first, ¬rule.Breaks rows before other first

end Rule

/-! ## Single texts -/

theorem sourceViolation?_eq_some_iff {source : Target} {allowed : List String} {text : String}
    {found : Violation} :
    sourceViolation? source allowed text = some found ↔
      text ∉ allowed ∧ ⟨text, .notInTable source⟩ = found := by
  unfold sourceViolation?
  by_cases hmem : text ∈ allowed <;> simp [hmem]

theorem tokenViolation?_eq_some_iff {allowed : List String} {text : String} {found : Violation} :
    tokenViolation? allowed text = some found ↔
      ∃ front token back, IsTokens text (front ++ token :: back) ∧
        (∀ other ∈ front, other ∈ allowed) ∧ token ∉ allowed ∧
        ⟨token, .notInValues allowed⟩ = found := by
  unfold tokenViolation?
  rw [Option.map_eq_some_iff]
  simp only [isTokens_iff, List.find?_eq_some_iff_append]
  constructor
  · rintro ⟨token, ⟨htoken, front, back, hparts, hfront⟩, hfound⟩
    exact ⟨front, token, back, hparts, by simpa using hfront, by simpa using htoken, hfound⟩
  · rintro ⟨front, token, back, hparts, hfront, htoken, hfound⟩
    exact ⟨token, ⟨by simpa using htoken, front, back, hparts, by simpa using hfront⟩, hfound⟩

theorem tokenViolation?_eq_none_iff {allowed : List String} {text : String} :
    tokenViolation? allowed text = none ↔
      ∃ parts, IsTokens text parts ∧ ∀ token ∈ parts, token ∈ allowed := by
  unfold tokenViolation?
  rw [Option.map_eq_none_iff, List.find?_eq_none]
  simp [isTokens_iff]

theorem intervalViolation?_eq_some_iff {min max : Int64} {text : String} {found : Violation} :
    intervalViolation? min max text = some found ↔
      Text.int64? (Text.trim text).toList = none ∧ ⟨text, .notAnInteger min max⟩ = found ∨
        ∃ n, Text.int64? (Text.trim text).toList = some n ∧ (n < min ∨ max < n) ∧
          ⟨text, .outOfInterval min max⟩ = found := by
  unfold intervalViolation?
  rw [← Text.toList_trim]
  cases Text.int64? (Text.trim text).toList with
  | none => simp
  | some n => by_cases hn : n < min ∨ max < n <;> simp [hn]

theorem intervalViolation?_eq_none_iff {min max : Int64} {text : String} :
    intervalViolation? min max text = none ↔
      ∃ n, Text.int64? (Text.trim text).toList = some n ∧ min ≤ n ∧ n ≤ max := by
  unfold intervalViolation?
  rw [← Text.toList_trim]
  cases Text.int64? (Text.trim text).toList with
  | none => simp
  | some n =>
    rw [ite_eq_right_iff]
    simp [Int64.not_lt]

theorem firstRepeat?_eq_none_iff {seen texts : List String} :
    firstRepeat? seen texts = none ↔ texts.Nodup ∧ ∀ text ∈ texts, text ∉ seen := by
  induction texts generalizing seen with
  | nil => simp [firstRepeat?]
  | cons text rest ih =>
    rw [firstRepeat?]
    split
    · next hmem =>
      simp only [reduceCtorEq, false_iff, not_and]
      intro _ hall
      exact hall text List.mem_cons_self (by simpa using hmem)
    · next hmem =>
      rw [ih, List.nodup_cons]
      simp only [List.mem_cons, not_or, forall_eq_or_imp]
      constructor
      · rintro ⟨hnodup, hall⟩
        exact ⟨⟨fun h => (hall text h).1 rfl, hnodup⟩, by simpa using hmem,
          fun other h => (hall other h).2⟩
      · rintro ⟨⟨hnot, hnodup⟩, _, hall⟩
        exact ⟨hnodup, fun other h => ⟨fun heq => hnot (heq ▸ h), hall other h⟩⟩

theorem firstRepeat?_eq_some_iff {seen texts : List String} {text : String} :
    firstRepeat? seen texts = some text ↔
      ∃ front back, texts = front ++ text :: back ∧ (text ∈ seen ∨ text ∈ front) ∧
        ∀ before other after, front = before ++ other :: after →
          other ∉ seen ∧ other ∉ before := by
  induction texts generalizing seen with
  | nil => simp [firstRepeat?]
  | cons first rest ih =>
    unfold firstRepeat?
    by_cases hmem : first ∈ seen
    · rw [if_pos (List.contains_iff_mem.2 hmem), Option.some.injEq]
      constructor
      · rintro rfl
        exact ⟨[], rest, rfl, .inl hmem, by simp⟩
      · rintro ⟨front, back, htexts, _, hfirst⟩
        cases front with
        | nil => exact (List.cons.inj htexts).1
        | cons other front =>
          obtain ⟨rfl, _⟩ := List.cons.inj htexts
          exact absurd hmem (hfirst [] first front rfl).1
    · rw [if_neg (mt List.contains_iff_mem.1 hmem), ih]
      constructor
      · rintro ⟨front, back, rfl, hseen, hfirst⟩
        refine ⟨first :: front, back, rfl, ?_, ?_⟩
        · rw [List.mem_cons] at hseen ⊢
          grind
        · intro before other after hfront
          cases before with
          | nil =>
            rw [← (List.cons.inj hfront).1]
            exact ⟨hmem, List.not_mem_nil⟩
          | cons same before =>
            obtain ⟨rfl, htail⟩ := List.cons.inj hfront
            have hother := hfirst before other after htail
            rw [List.mem_cons] at hother ⊢
            grind
      · rintro ⟨front, back, htexts, hseen, hfirst⟩
        cases front with
        | nil =>
          obtain ⟨rfl, _⟩ := List.cons.inj htexts
          simp [hmem] at hseen
        | cons same front =>
          obtain ⟨rfl, rfl⟩ := List.cons.inj htexts
          refine ⟨front, back, rfl, ?_, ?_⟩
          · rw [List.mem_cons] at hseen ⊢
            grind
          · intro before other after hfront
            have hother := hfirst (first :: before) other after (by rw [hfront]; rfl)
            rw [List.mem_cons] at hother ⊢
            grind

/-! ## The search for a violation -/

namespace Rule

variable {rows : Rows} {rule : Rule} {texts : List String} {found : Violation}

def search? (rows : Rows) : Rule → List String → Option Violation
  | .mapping _ source, texts =>
    texts.findSome? (sourceViolation? source (source.reached rows))
  | .valueSet _ allowed, texts => texts.findSome? (tokenViolation? allowed)
  | .interval _ min max, texts => texts.findSome? (intervalViolation? min max)
  | .uniqueness _, texts => (firstRepeat? [] texts).map fun text => ⟨text, .duplicate⟩

theorem firstBreaks_iff_findSome? {find : String → Option Violation}
    (h : ∀ earlier text found, find text = some found ↔ rule.Breaks rows earlier text found) :
    rule.FirstBreaks rows texts found ↔ texts.findSome? find = some found := by
  unfold FirstBreaks
  rw [List.findSome?_eq_some_iff]
  simp only [← h]
  refine exists_congr fun front => exists_congr fun text => exists_congr fun back => ?_
  refine and_congr_right fun _ => and_congr_right fun _ => ?_
  constructor
  · intro hfirst other hother
    obtain ⟨before, after, hfront⟩ := List.append_of_mem hother
    exact Option.eq_none_iff_forall_ne_some.2 (hfirst before other after hfront)
  · intro hnone before other after hfront first
    rw [hnone other (by simp [hfront])]
    exact nofun

theorem search?_eq_some_iff :
    rule.search? rows texts = some found ↔ rule.FirstBreaks rows texts found := by
  cases rule with
  | mapping target source =>
    rw [search?, firstBreaks_iff_findSome?]
    intro earlier text found
    rw [sourceViolation?_eq_some_iff]
    constructor
    · rintro ⟨hmem, rfl⟩
      exact .notInTable hmem
    · rintro ⟨hmem⟩
      exact ⟨hmem, rfl⟩
  | valueSet target allowed =>
    rw [search?, firstBreaks_iff_findSome?]
    intro earlier text found
    rw [tokenViolation?_eq_some_iff]
    constructor
    · rintro ⟨front, token, back, hparts, hfront, htoken, rfl⟩
      exact .notInValues hparts hfront htoken
    · rintro ⟨⟩
      exact ⟨_, _, _, ‹_›, ‹_›, ‹_›, rfl⟩
  | interval target min max =>
    rw [search?, firstBreaks_iff_findSome?]
    intro earlier text found
    rw [intervalViolation?_eq_some_iff]
    constructor
    · rintro (⟨hnone, rfl⟩ | ⟨n, hn, hout, rfl⟩)
      · exact .notAnInteger hnone
      · exact .outOfInterval hn hout
    · rintro ⟨⟩
      · exact .inl ⟨‹_›, rfl⟩
      · exact .inr ⟨_, ‹_›, ‹_›, rfl⟩
  | uniqueness target =>
    rw [search?, Option.map_eq_some_iff]
    simp only [firstRepeat?_eq_some_iff, List.not_mem_nil, not_false_eq_true, true_and, false_or]
    constructor
    · rintro ⟨text, ⟨front, back, htexts, hmem, hfirst⟩, rfl⟩
      refine ⟨front, text, back, htexts, .duplicate hmem, ?_⟩
      intro before other after hfront first hbreaks
      cases hbreaks with
      | duplicate hother => exact hfirst before other after hfront hother
    · rintro ⟨front, text, back, htexts, hbreaks, hfirst⟩
      cases hbreaks with
      | duplicate hmem =>
        refine ⟨text, ⟨front, back, htexts, hmem, ?_⟩, rfl⟩
        intro before other after hfront hother
        exact hfirst before other after hfront _ (.duplicate hother)

theorem search?_eq_none_iff :
    rule.search? rows (rule.target.reached rows) = none ↔ rule.Holds rows := by
  cases rule with
  | mapping target source =>
    rw [search?, List.findSome?_eq_none_iff]
    simp [Holds, sourceViolation?, Rule.target]
  | valueSet target allowed =>
    rw [search?, List.findSome?_eq_none_iff]
    simp only [tokenViolation?_eq_none_iff]
    rfl
  | interval target min max =>
    rw [search?, List.findSome?_eq_none_iff]
    simp only [intervalViolation?_eq_none_iff]
    rfl
  | uniqueness target =>
    rw [search?, Option.map_eq_none_iff, firstRepeat?_eq_none_iff]
    simp [Holds, Rule.target]

/-! ## Checks -/

theorem missing?_eq_none_iff :
    rule.missing? rows = none ↔ ∀ table ∈ rule.tables, (rows table).isSome := by
  rw [missing?, List.find?_eq_none]
  simp [Option.isSome_iff_ne_none]

/--
A check looks up the tables of the rule and then searches for a violation.
-/
theorem check_eq (rows : Rows) (rule : Rule) :
    rule.check rows =
      match rule.missing? rows with
      | some table => .error (.unknownTable table)
      | none => rule.target.verdict (rule.search? rows (rule.target.reached rows)) := by
  unfold check missing? tables
  cases rule with
  | mapping target source =>
    simp only [source.texts_eq, target.texts_eq, map_find?_eq_findSome?, List.find?_cons]
    cases (rows source.table).isNone <;> cases (rows target.table).isNone <;> rfl
  | valueSet target allowed =>
    simp only [target.texts_eq, map_find?_tokens_eq_findSome?, List.find?_cons]
    cases (rows target.table).isNone <;> rfl
  | interval target min max =>
    simp only [target.texts_eq, List.find?_cons]
    cases (rows target.table).isNone <;> rfl
  | uniqueness target =>
    simp only [target.texts_eq, List.find?_cons]
    cases (rows target.table).isNone <;> rfl

theorem check_eq_ok_iff :
    rule.check rows = .ok () ↔
      (∀ table ∈ rule.tables, (rows table).isSome) ∧ rule.Holds rows := by
  rw [check_eq, ← missing?_eq_none_iff, ← search?_eq_none_iff]
  cases rule.missing? rows with
  | some table => simp
  | none => cases rule.search? rows (rule.target.reached rows) <;> simp [Target.verdict]

theorem check_eq_unknownTable_iff {table : String} :
    rule.check rows = .error (.unknownTable table) ↔ rule.missing? rows = some table := by
  rw [check_eq]
  cases rule.missing? rows with
  | some missing => simp
  | none => cases rule.search? rows (rule.target.reached rows) <;> simp [Target.verdict]

theorem check_eq_violation_iff {target : Target} :
    rule.check rows = .error (.violation target found) ↔
      (∀ table ∈ rule.tables, (rows table).isSome) ∧ rule.target = target ∧
        rule.FirstBreaks rows (rule.target.reached rows) found := by
  rw [check_eq, ← missing?_eq_none_iff, ← search?_eq_some_iff]
  cases rule.missing? rows with
  | some table => simp
  | none => cases rule.search? rows (rule.target.reached rows) <;> simp [Target.verdict]

/--
Every end of a check: success if the tables of the rule exist and the rule holds, the first
missing table, or the first text at the target that breaks the rule. Walking through the rows with
visitors ends in the same way.
-/
theorem check_outcome (rows : Rows) (rule : Rule) :
    rule.checkByWalk rows = rule.check rows ∧
      (rule.check rows = .ok () ↔
        (∀ table ∈ rule.tables, (rows table).isSome) ∧ rule.Holds rows) ∧
      (∀ table, rule.check rows = .error (.unknownTable table) ↔
        rule.missing? rows = some table) ∧
      ∀ target found, rule.check rows = .error (.violation target found) ↔
        (∀ table ∈ rule.tables, (rows table).isSome) ∧ rule.target = target ∧
          rule.FirstBreaks rows (rule.target.reached rows) found :=
  ⟨checkByWalk_eq rows rule, check_eq_ok_iff, fun _ => check_eq_unknownTable_iff,
    fun _ _ => check_eq_violation_iff⟩

end Rule

end RowTree
