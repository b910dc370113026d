import RowTree.Proofs.Rule.Declaration

/-!
This module contains what the texts of targets and rules make when they are read again. A target
that was read stands in its text as it is (`Target.IsNamedBy.of_text`), and the declaration of a
rule that was declared makes that rule (`RuleDecl.Makes.toDecl`). All stripping happens on the first
reading.
-/

namespace RowTree

/-! ## Targets -/

namespace Target

variable {text : String} {target : Target}

theorem IsNamedBy.of_text (h : target.IsNamedBy text) : target.IsNamedBy target.text := by
  obtain ⟨before, after, _, hdot, hbefore, hafter, rfl⟩ := h
  have htable := Text.trimList_ne_nil_iff.2 hbefore
  have hpath := Text.trimList_ne_nil_iff.2 hafter
  refine ⟨Text.trimList before, Text.trimList after, ?_, ?_, ?_, ?_, ?_⟩
  · -- neither end of the text can be stripped further
    have hstripped := Text.trimList_append_append (Text.trimList_trimList before) htable
      (Text.trimList_trimList after) hpath ['.']
    rw [List.append_assoc, List.singleton_append] at hstripped
    rw [Text.toList_trim, Target.text, String.append_assoc]
    simpa using hstripped
  · exact fun hmem => hdot (Text.trimList_subset before hmem)
  · exact Text.trimList_ne_nil_iff.1 (by rwa [Text.trimList_trimList])
  · exact Text.trimList_ne_nil_iff.1 (by rwa [Text.trimList_trimList])
  · rw [Text.trimList_trimList, Text.trimList_trimList]

theorem ofText_eq_ok_iff : ofText text = .ok target ↔ target.IsNamedBy text := by
  constructor
  · intro h
    obtain ⟨other, hother, hread⟩ | ⟨_, hread⟩ := ofText_outcome text
    · rw [hread, Except.ok.injEq] at h
      exact h ▸ hother
    · rw [hread] at h
      cases h
  · exact ofText_of_isNamedBy

end Target

/--
A target with nothing that keeps the segments and the path in step.
-/
structure SplitTarget where
  table : String
  path : String
  segments : Path
  deriving DecidableEq

namespace SplitTarget

def text (split : SplitTarget) : String :=
  split.table ++ "." ++ split.path

def ofText (text : String) : Except DeclarationError SplitTarget :=
  let trimmed := Text.trimList text.toList
  let refusal := DeclarationError.invalidTarget (String.ofList trimmed)
  match Text.splitFirst? '.' trimmed with
  | none => .error refusal
  | some (before, after) =>
    let table := Text.trimList before
    let path := Text.trimList after
    if table = [] ∨ path = [] then
      .error refusal
    else
      let segments := (Text.pieces '.' path).map fun piece => String.ofList (Text.trimList piece)
      .ok ⟨String.ofList table, String.ofList path, segments⟩

def ofTarget (target : Target) : SplitTarget :=
  ⟨target.table, target.path, target.segments⟩

theorem ofText_eq (text : String) : ofText text = (Target.ofText text).map ofTarget := by
  unfold ofText Target.ofText
  dsimp only
  cases Text.splitFirst? '.' (Text.trimList text.toList) with
  | none => rfl
  | some parts =>
    dsimp only
    split
    · rfl
    · simp [Except.map, ofTarget, Path.ofText]

theorem ofText_eq_ok_iff {text : String} {split : SplitTarget} :
    ofText text = .ok split ↔
      ∃ target : Target, target.IsNamedBy text ∧ ofTarget target = split := by
  rw [ofText_eq]
  simp only [← Target.ofText_eq_ok_iff]
  cases Target.ofText text <;> simp [Except.map]

/--
The segments are what stands between the dots of the text, without blanks around it.
-/
def Cuts (segments : Path) (text : String) : Prop :=
  ∃ pieces : Path, pieces ≠ [] ∧ (∀ piece ∈ pieces, '.' ∉ piece.toList) ∧
    Path.text pieces = text ∧ segments = pieces.map Text.trim

theorem cuts_ofText (text : String) : Cuts (Path.ofText text) text := by
  refine ⟨(Text.pieces '.' text.toList).map String.ofList, ?_, ?_, ?_, ?_⟩
  · simpa using Text.pieces_ne_nil '.' text.toList
  · intro piece hpiece
    obtain ⟨cs, hcs, rfl⟩ := List.mem_map.1 hpiece
    rw [String.toList_ofList]
    exact Text.not_mem_of_mem_pieces hcs
  · rw [Path.text, List.map_map]
    have hid : String.toList ∘ String.ofList = id := by
      funext cs
      exact String.toList_ofList
    rw [hid, List.map_id, Text.join_pieces, String.ofList_toList]
  · rw [Path.ofText, List.map_map]
    apply List.map_congr_left
    intro cs _
    simp [Text.trim]

theorem cuts_iff {segments : Path} {text : String} :
    Cuts segments text ↔ segments = Path.ofText text := by
  constructor
  · rintro ⟨pieces, hne, hdot, rfl, rfl⟩
    exact (Path.ofText_text_of_dot_not_mem hne hdot).symm
  · rintro rfl
    exact cuts_ofText text

end SplitTarget

/-! ## Rules -/

theorem Text.trim_comp_trim : Text.trim ∘ Text.trim = Text.trim :=
  funext Text.trim_trim

theorem Text.isInteger_boundText (n : Int64) :
    Text.IsInteger (Text.trim (Rule.boundText n)).toList n.toInt := by
  rw [Text.toList_trim, Rule.boundText, String.toList_ofList, Text.trimList_ofInt]
  exact Text.integer?_eq_some_iff.1 (Text.integer?_ofInt n.toInt)

theorem Rule.trim_kind_toDecl (rule : Rule) : Text.trim rule.toDecl.kind = rule.toDecl.kind := by
  have hkinds : ∀ kind ∈ ["table", "values", "interval", "unique"], Text.trim kind = kind := by
    decide
  cases rule <;> exact hkinds _ (by simp [Rule.toDecl])

namespace RuleDecl

theorem Makes.toDecl {decl : RuleDecl} {rule : Rule} (h : decl.Makes rule) :
    rule.toDecl.Makes rule := by
  have hkind := rule.trim_kind_toDecl
  cases h with
  | mapping _ _ _ htarget hsource => exact .mapping hkind rfl rfl htarget.of_text hsource.of_text
  | @valueSet first target _ _ htarget =>
    have hmakes := Makes.valueSet hkind rfl htarget.of_text
    -- the allowed values were stripped when the rule was made
    rwa [Rule.toDecl, List.tail_cons, List.map_map, Text.trim_comp_trim] at hmakes
  | interval _ _ _ _ htarget _ _ =>
    exact .interval hkind rfl rfl rfl htarget.of_text (Text.isInteger_boundText _)
      (Text.isInteger_boundText _)
  | uniqueness _ _ htarget => exact .uniqueness hkind rfl htarget.of_text

/--
What was read from a text or a declaration is read again from its own: a target from its text, with
the same segments, and a rule from its declaration. The segments are cut out of the path of the
target, and no others are.
-/
theorem toRule_toDecl :
    (∀ text split, SplitTarget.ofText text = .ok split →
      SplitTarget.ofText split.text = .ok split ∧ split.segments = Path.ofText split.path ∧
        ∀ segments, SplitTarget.Cuts segments split.path ↔ segments = split.segments) ∧
      (∀ text, SplitTarget.ofText text = (Target.ofText text).map SplitTarget.ofTarget) ∧
      ∀ (decl : RuleDecl) (rule : Rule),
        decl.toRule = .ok rule → rule.toDecl.toRule = .ok rule := by
  refine ⟨fun text split h => ?_, SplitTarget.ofText_eq, fun decl rule h => ?_⟩
  · obtain ⟨target, htarget, rfl⟩ := SplitTarget.ofText_eq_ok_iff.1 h
    have hsegments : (SplitTarget.ofTarget target).segments =
        Path.ofText (SplitTarget.ofTarget target).path := target.segments_eq
    refine ⟨SplitTarget.ofText_eq_ok_iff.2 ⟨target, htarget.of_text, rfl⟩, hsegments, ?_⟩
    intro segments
    rw [hsegments]
    exact SplitTarget.cuts_iff
  · exact toRule_eq_ok_iff.2 (toRule_eq_ok_iff.1 h).toDecl

/--
Stripping and signs show in the texts that are read first, not in those that are read again.
-/
theorem toRule_toDecl_blanks :
    let split : SplitTarget := ⟨"a b", "x..y .", ["x", "", "y", ""]⟩
    let values : RuleDecl := ⟨" values", ["T . p ", " red", "", "a b "]⟩
    let allowed := Rule.valueSet ⟨"T", "p", ["p"], rfl⟩ ["red", "", "a b"]
    let bounds : RuleDecl := ⟨"interval", ["T.p", " +007", "-9223372036854775808 "]⟩
    let interval := Rule.interval ⟨"T", "p", ["p"], rfl⟩ 7 (-9223372036854775808)
    (SplitTarget.ofText " a b . x..y . " = .ok split ∧
        SplitTarget.ofText "a b.x..y ." = .ok split) ∧
      (values.toRule = .ok allowed ∧ allowed.toDecl.toRule = .ok allowed) ∧
      bounds.toRule = .ok interval ∧ interval.toDecl.toRule = .ok interval := by
  intro split values allowed bounds interval
  have hsplit : SplitTarget.ofText " a b . x..y . " = .ok split := by decide
  have hvalues : values.toRule = .ok allowed := by decide
  have hbounds : bounds.toRule = .ok interval := by decide
  obtain ⟨htargets, _, hrules⟩ := toRule_toDecl
  exact ⟨⟨hsplit, (htargets _ _ hsplit).1⟩, ⟨hvalues, hrules _ _ hvalues⟩, hbounds,
    hrules _ _ hbounds⟩

end RuleDecl

end RowTree
