import RowTree.Kind
import RowTree.Text.Blank
import RowTree.Text.Pieces
import RowTree.Text.Integer

/-!
This module holds dotted paths. A path is the list of its segments without blanks around them; a
segment names a field of a record or the index of an element of a collection. Paths are ordered
segment by segment, indices by their number and in front of all names. `ofText_text` says which
paths come back from their text.
-/

namespace RowTree

abbrev Path := List String

namespace Path

def ofSegments (segments : List String) : Path :=
  segments.map Text.trim

def ofText (text : String) : Path :=
  (Text.pieces '.' text.toList).map fun segment => String.ofList (Text.trimList segment)

def text (path : Path) : String :=
  String.ofList (Text.join '.' (path.map String.toList))

inductive Rank where
  | index (n : Nat)
  | name (s : String)
  deriving DecidableEq, Repr

def Rank.ofSegment (segment : String) : Rank :=
  match Text.index? segment with
  | some n => .index n
  | none => .name segment

/--
The order of segments. Names are ordered by their characters.
-/
def Rank.order : Rank → Rank → Ordering
  | .index m, .index n => compare m n
  | .index _, .name _ => .lt
  | .name _, .index _ => .gt
  | .name s, .name t => compare s t

def ranks (path : Path) : List Rank :=
  path.map Rank.ofSegment

/--
The order of paths: by the first segments that differ, and a path comes before what continues it.
-/
def order : List Rank → List Rank → Ordering
  | [], [] => .eq
  | [], _ :: _ => .lt
  | _ :: _, [] => .gt
  | a :: as, b :: bs => (a.order b).then (order as bs)

instance : Std.TransCmp Rank.order where
  eq_swap {a b} := by
    cases a <;> cases b
    case index.index => exact Std.OrientedOrd.eq_swap
    case name.name => exact Std.OrientedOrd.eq_swap
    all_goals rfl
  isLE_trans {a b c} hab hbc := by
    cases a <;> cases b <;> cases c <;> try contradiction
    case index.index.index => exact Std.TransOrd.isLE_trans hab hbc
    case name.name.name => exact Std.TransOrd.isLE_trans hab hbc
    all_goals rfl

theorem order_eq_compareLex (as bs : List Rank) :
    order as bs = List.compareLex Rank.order as bs := by
  induction as generalizing bs with
  | nil => cases bs <;> rfl
  | cons a as ih =>
    cases bs with
    | nil => rfl
    | cons b bs => rw [order, ih, List.compareLex_cons_cons]

/--
Any paths are in order one way or the other, and the order is transitive.
-/
instance : Std.TransCmp order := by
  have h : order = List.compareLex Rank.order := by
    funext as bs
    exact order_eq_compareLex as bs
  rw [h]
  infer_instance

theorem ofText_ne_nil (text : String) : ofText text ≠ [] := by
  simp [ofText, Text.pieces_ne_nil]

theorem trim_of_mem_ofText {text segment : String} (h : segment ∈ ofText text) :
    Text.trim segment = segment := by
  rw [ofText, List.mem_map] at h
  obtain ⟨piece, _, rfl⟩ := h
  simp [Text.trim]

theorem ofText_text_of_dot_not_mem {path : Path} (hne : path ≠ [])
    (h : ∀ segment ∈ path, '.' ∉ segment.toList) : ofText (text path) = ofSegments path := by
  rw [ofText, text, String.toList_ofList, Text.pieces_join (by simpa using hne)]
  · rw [List.map_map]
    rfl
  · intro piece hpiece
    rw [List.mem_map] at hpiece
    obtain ⟨segment, hsegment, rfl⟩ := hpiece
    exact h segment hsegment

/--
A path is read back from its text if its segments could have come from one.
-/
theorem ofText_text {path : Path} (hne : path ≠ [])
    (h : ∀ segment ∈ path, '.' ∉ segment.toList ∧ Text.trim segment = segment) :
    ofText (text path) = path := by
  rw [ofText_text_of_dot_not_mem hne fun segment hsegment => (h segment hsegment).1, ofSegments]
  conv => rhs; rw [← List.map_id path]
  apply List.map_congr_left
  intro segment hsegment
  exact (h segment hsegment).2

theorem dot_not_mem_of_length_eq {path : Path} (hne : path ≠ [])
    (h : (ofText (text path)).length = path.length) :
    ∀ segment ∈ path, '.' ∉ segment.toList := by
  have hcount := @Text.count_join '.' (path.map String.toList) (by simpa using hne)
  rw [ofText, List.length_map, Text.length_pieces, text, String.toList_ofList, hcount,
    List.length_map, Nat.add_eq_right, List.count_eq_zero] at h
  intro segment hsegment hdot
  exact h (List.mem_flatten_of_mem (List.mem_map_of_mem hsegment) hdot)

end Path

/--
The kind that a path leads to from a kind: names lead into records and indices into collections.
-/
def Kind.at? : Path → Kind → Option Kind
  | [], kind => some kind
  | name :: rest, .nested type => (type.kind? name).bind (Kind.at? rest)
  | index :: rest, .collection element =>
    if (Text.index? index).isSome then element.at? rest else none
  | _ :: _, .primitive _ => none

def RecordType.at? (type : RecordType) (path : Path) : Option Kind :=
  if path = [] then none else (Kind.nested type).at? path

end RowTree
