import RowTree.Record.Text
import RowTree.Path

/-!
This module holds the reading of a record by path. A path that meets an unset slot, an index out
of range or an undeclared name reads nothing.
-/

namespace RowTree

def Value.read? : Path → Value → Option Value
  | [], .unset => none
  | [], value => some value
  | name :: rest, .nested record => (record.slot? name).bind fun value => value.read? rest
  | index :: rest, .collection items =>
    (Text.index? index).bind fun i => items[i]?.bind fun item => item.read? rest
  | _ :: _, _ => none

def Record.read? (record : Record) : Path → Option Value
  | [] => none
  | name :: rest => (record.slot? name).bind fun value => value.read? rest

def Record.readText? (record : Record) (path : Path) : Option String :=
  (record.read? path).map Value.text

theorem Value.read?_ne_unset {path : Path} {value found : Value}
    (h : value.read? path = some found) : found ≠ .unset := by
  induction path generalizing value with
  | nil =>
    cases value <;> simp [Value.read?] at h <;> subst h <;> simp
  | cons segment rest ih =>
    cases value <;> simp only [Value.read?, Option.bind_eq_some_iff, reduceCtorEq] at h
    case nested record =>
      obtain ⟨_, _, h⟩ := h
      exact ih h
    case collection items =>
      obtain ⟨_, _, _, _, h⟩ := h
      exact ih h

end RowTree
