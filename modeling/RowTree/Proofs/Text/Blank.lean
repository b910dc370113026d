import Mathlib.Data.List.Basic
import Mathlib.Data.List.TakeWhile
import RowTree.Text.Blank

/-!
This module contains what stripping makes of texts with blanks in them. Nothing is left of a blank
text (`Text.trimList_eq_nil_iff`), and blanks around a text make no difference
(`Text.trimList_surrounded`).
-/

namespace RowTree

namespace Text

variable {cs front back : List Char}

theorem trimFront_eq_nil_iff : trimFront cs = [] ↔ ∀ c ∈ cs, isBlank c = true :=
  List.dropWhile_eq_nil_iff

theorem trimBack_eq_nil_iff : trimBack cs = [] ↔ ∀ c ∈ cs, isBlank c = true := by
  rw [trimBack, List.reverse_eq_nil_iff, List.dropWhile_eq_nil_iff]
  simp only [List.mem_reverse]

theorem trimList_eq_nil_iff : trimList cs = [] ↔ ∀ c ∈ cs, isBlank c = true := by
  rw [trimList, trimBack_eq_nil_iff]
  constructor
  · intro h
    apply trimFront_eq_nil_iff.1
    cases hfront : trimFront cs with
    | nil => rfl
    | cons c rest =>
      -- the first character that stays is not blank
      have hc : isBlank c = false := @head?_trimFront cs c (by rw [hfront]; rfl)
      rw [h c (by rw [hfront]; exact List.mem_cons_self)] at hc
      contradiction
  · intro h
    rw [trimFront_eq_nil_iff.2 h]
    exact List.forall_mem_nil _

theorem trim_eq_empty_iff {s : String} : trim s = "" ↔ isBlankText s = true := by
  rw [← String.toList_inj, toList_trim, isBlankText, List.all_eq_true]
  exact trimList_eq_nil_iff

theorem trimList_ne_nil_iff : trimList cs ≠ [] ↔ ∃ c ∈ cs, isBlank c = false := by
  rw [ne_eq, trimList_eq_nil_iff]
  simp

theorem trimFront_append_of_blank (h : ∀ c ∈ front, isBlank c = true) (cs : List Char) :
    trimFront (front ++ cs) = trimFront cs :=
  List.dropWhile_append_of_pos h

theorem trimBack_append_of_blank (h : ∀ c ∈ back, isBlank c = true) (cs : List Char) :
    trimBack (cs ++ back) = trimBack cs := by
  rw [trimBack, List.reverse_append, List.dropWhile_append_of_pos]
  · rfl
  · intro c hc
    exact h c (List.mem_reverse.1 hc)

theorem trimList_append_of_blank (h : ∀ c ∈ back, isBlank c = true) (cs : List Char) :
    trimList (cs ++ back) = trimList cs := by
  unfold trimList
  by_cases hcs : ∀ c ∈ cs, isBlank c = true
  · rw [trimFront_append_of_blank hcs, trimFront_eq_nil_iff.2 h, trimFront_eq_nil_iff.2 hcs]
  · have hne : trimFront cs ≠ [] := mt trimFront_eq_nil_iff.1 hcs
    have hfront : trimFront (cs ++ back) = trimFront cs ++ back := by
      unfold trimFront at hne ⊢
      rw [List.dropWhile_append, if_neg (mt List.isEmpty_iff.1 hne)]
    rw [hfront, trimBack_append_of_blank h]

theorem trimList_surrounded (hfront : ∀ c ∈ front, isBlank c = true)
    (hback : ∀ c ∈ back, isBlank c = true) (cs : List Char) :
    trimList (front ++ cs ++ back) = trimList cs := by
  rw [trimList_append_of_blank hback, trimList, trimFront_append_of_blank hfront]
  rfl

theorem trimList_subset (cs : List Char) : trimList cs ⊆ cs := by
  intro c hc
  unfold trimList trimBack at hc
  rw [List.mem_reverse] at hc
  exact List.dropWhile_subset _ (List.mem_reverse.1 (List.dropWhile_subset _ hc))

theorem trimList_append_append (hfront : trimList front = front) (hfrontne : front ≠ [])
    (hback : trimList back = back) (hbackne : back ≠ []) (cs : List Char) :
    trimList (front ++ cs ++ back) = front ++ cs ++ back := by
  apply trimList_eq_self_iff.2
  constructor
  · intro c hc
    rw [List.append_assoc, List.head?_append_of_ne_nil _ hfrontne] at hc
    exact (trimList_eq_self_iff.1 hfront).1 c hc
  · intro c hc
    rw [List.getLast?_append_of_ne_nil _ hbackne] at hc
    exact (trimList_eq_self_iff.1 hback).2 c hc

end Text

end RowTree
