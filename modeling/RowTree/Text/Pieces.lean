/-!
This module holds the pieces of a text between the occurrences of a separator, and the way back.
`join_pieces` says that no character is lost, and `pieces_join` that texts without the separator
come back from what joins them.
-/

namespace RowTree
namespace Text

/--
The pieces between the occurrences of `sep`. There is one more of them than there are separators,
so the empty text has one piece, the empty one.
-/
def pieces (sep : Char) : List Char → List (List Char)
  | [] => [[]]
  | c :: cs =>
    if c = sep then
      [] :: pieces sep cs
    else
      match pieces sep cs with
      | [] => [[c]]
      | piece :: rest => (c :: piece) :: rest

def join (sep : Char) : List (List Char) → List Char
  | [] => []
  | [piece] => piece
  | piece :: next :: rest => piece ++ sep :: join sep (next :: rest)

def splitFirst? (sep : Char) : List Char → Option (List Char × List Char)
  | [] => none
  | c :: cs =>
    if c = sep then
      some ([], cs)
    else
      (splitFirst? sep cs).map fun (before, after) => (c :: before, after)

theorem pieces_ne_nil (sep : Char) (cs : List Char) : pieces sep cs ≠ [] := by
  cases cs with
  | nil => simp [pieces]
  | cons c cs =>
    rw [pieces]
    split
    · simp
    · split <;> simp

theorem pieces_cons_of_ne {sep c : Char} (h : c ≠ sep) (cs : List Char) :
    ∃ piece rest, pieces sep cs = piece :: rest ∧ pieces sep (c :: cs) = (c :: piece) :: rest := by
  cases hp : pieces sep cs with
  | nil => exact absurd hp (pieces_ne_nil sep cs)
  | cons piece rest => exact ⟨piece, rest, rfl, by simp [pieces, h, hp]⟩

@[simp]
theorem pieces_sep_cons (sep : Char) (cs : List Char) :
    pieces sep (sep :: cs) = [] :: pieces sep cs := by
  simp [pieces]

theorem join_cons_cons {sep : Char} (c : Char) (piece : List Char) (rest : List (List Char)) :
    join sep ((c :: piece) :: rest) = c :: join sep (piece :: rest) := by
  cases rest <;> simp [join]

theorem join_pieces (sep : Char) (cs : List Char) : join sep (pieces sep cs) = cs := by
  induction cs with
  | nil => rfl
  | cons c cs ih =>
    by_cases h : c = sep
    · subst h
      rw [pieces_sep_cons]
      cases hp : pieces c cs with
      | nil => exact absurd hp (pieces_ne_nil c cs)
      | cons piece rest => rw [join, ← hp, ih, List.nil_append]
    · obtain ⟨piece, rest, hp, hcons⟩ := pieces_cons_of_ne h cs
      rw [hcons, join_cons_cons, ← hp, ih]

theorem not_mem_of_mem_pieces {sep : Char} {cs piece : List Char} (h : piece ∈ pieces sep cs) :
    sep ∉ piece := by
  induction cs generalizing piece with
  | nil => simp_all [pieces]
  | cons c cs ih =>
    by_cases hc : c = sep
    · subst hc
      rw [pieces_sep_cons, List.mem_cons] at h
      rcases h with rfl | h
      · simp
      · exact ih h
    · obtain ⟨first, rest, hp, hcons⟩ := pieces_cons_of_ne hc cs
      rw [hcons, List.mem_cons] at h
      rcases h with rfl | h
      · have hfirst : sep ∉ first := ih (by simp [hp])
        simp [hfirst, Ne.symm hc]
      · exact ih (by simp [hp, h])

theorem pieces_of_not_mem {sep : Char} {cs : List Char} (h : sep ∉ cs) : pieces sep cs = [cs] := by
  induction cs with
  | nil => rfl
  | cons c cs ih =>
    simp only [List.mem_cons, not_or] at h
    rw [pieces, ih h.2]
    simp [Ne.symm h.1]

theorem pieces_append_sep {sep : Char} {piece : List Char} (h : sep ∉ piece) (cs : List Char) :
    pieces sep (piece ++ sep :: cs) = piece :: pieces sep cs := by
  induction piece with
  | nil => simp
  | cons c piece ih =>
    simp only [List.mem_cons, not_or] at h
    rw [List.cons_append, pieces, ih h.2]
    simp [Ne.symm h.1]

theorem pieces_join {sep : Char} {ps : List (List Char)} (hne : ps ≠ [])
    (h : ∀ piece ∈ ps, sep ∉ piece) : pieces sep (join sep ps) = ps := by
  induction ps with
  | nil => exact absurd rfl hne
  | cons piece rest ih =>
    cases rest with
    | nil => exact pieces_of_not_mem (h piece (by simp))
    | cons next rest =>
      rw [join, pieces_append_sep (h piece (by simp)),
        ih (by simp) fun p hp => h p (List.mem_cons_of_mem _ hp)]

theorem length_pieces (sep : Char) (cs : List Char) :
    (pieces sep cs).length = cs.count sep + 1 := by
  induction cs with
  | nil => rfl
  | cons c cs ih =>
    by_cases h : c = sep
    · subst h
      rw [pieces_sep_cons, List.length_cons, ih, List.count_cons_self]
    · obtain ⟨piece, rest, hp, hcons⟩ := pieces_cons_of_ne h cs
      rw [hcons, List.length_cons, List.count_cons_of_ne h, ← ih, hp, List.length_cons]

theorem count_join {sep : Char} {ps : List (List Char)} (hne : ps ≠ []) :
    (join sep ps).count sep + 1 = ps.flatten.count sep + ps.length := by
  induction ps with
  | nil => exact absurd rfl hne
  | cons piece rest ih =>
    cases rest with
    | nil => simp [join]
    | cons next rest =>
      have hrest := ih (by simp)
      rw [join, List.count_append, List.count_cons_self, List.flatten_cons, List.count_append,
        List.length_cons]
      omega

/--
The two parts of a text around its first separator: the first part does not hold it.
-/
theorem splitFirst?_eq_some_iff {sep : Char} {cs before after : List Char} :
    splitFirst? sep cs = some (before, after) ↔ cs = before ++ sep :: after ∧ sep ∉ before := by
  induction cs generalizing before with
  | nil => simp [splitFirst?]
  | cons c cs ih =>
    by_cases h : c = sep
    · subst h
      cases before with
      | nil => simp [splitFirst?, eq_comm]
      | cons b before =>
        simp only [splitFirst?, if_true, Option.some.injEq, Prod.mk.injEq, List.cons_append,
          List.cons.injEq, List.mem_cons, not_or]
        grind
    · cases before with
      | nil => simp [splitFirst?, h]
      | cons b before =>
        simp only [splitFirst?, if_neg h, Option.map_eq_some_iff, Prod.exists, Prod.mk.injEq,
          List.cons_append, List.cons.injEq, List.mem_cons, not_or]
        grind

end Text
end RowTree
