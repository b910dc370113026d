import RowTree.Proofs.Record.Leaves
import RowTree.Proofs.Record.Prune
import RowTree.Proofs.Record.Run

/-!
This module contains what a refused write leaves behind: nothing but containers that hold nothing,
in slots that were unset (`Value.PaddedTo`). So no scalar appears or goes, every collection keeps
its length, and the pruned record stays as it was (`Record.paddedTo_write_of_refused`).
-/

namespace RowTree

/--
The value is a collection without elements, or a record without scalars.
-/
def Value.IsIdle : Value → Prop
  | .collection items => items = []
  | .nested record => record.leaves = []
  | _ => False

mutual

/--
The second value is the first one, but for idle containers in slots that were unset.
-/
def Value.PaddedTo : Value → Value → Prop
  | .unset, .unset => True
  | .scalar s, .scalar t => s = t
  | .nested record, .nested padded => record.PaddedTo padded
  | .collection items, .collection padded => Value.AllPaddedTo false items padded
  | _, _ => False
termination_by structural v => v

def Record.PaddedTo : Record → Record → Prop
  | ⟨type, slots⟩, padded => padded.type = type ∧ Value.AllPaddedTo true slots padded.slots
termination_by structural r => r

/--
There are as many values in both lists, and each one is padded to the other. Among slots, an unset
value may be an idle container in the second list; elements of collections stay.
-/
def Value.AllPaddedTo (slots : Bool) : List Value → List Value → Prop
  | [], [] => True
  | value :: values, padded :: others =>
    (value.PaddedTo padded ∨ slots = true ∧ value = .unset ∧ padded.IsIdle) ∧
      Value.AllPaddedTo slots values others
  | _, _ => False
termination_by structural values => values

end

mutual

theorem Value.PaddedTo.refl : ∀ value : Value, value.PaddedTo value
  | .unset => trivial
  | .scalar _ => rfl
  | .nested record => Record.PaddedTo.refl record
  | .collection items => Value.AllPaddedTo.refl false items
termination_by structural value => value

theorem Record.PaddedTo.refl : ∀ record : Record, record.PaddedTo record
  | ⟨_, slots⟩ => ⟨rfl, Value.AllPaddedTo.refl true slots⟩
termination_by structural record => record

theorem Value.AllPaddedTo.refl (slots : Bool) :
    ∀ values : List Value, Value.AllPaddedTo slots values values
  | [] => trivial
  | value :: values => ⟨.inl (Value.PaddedTo.refl value), Value.AllPaddedTo.refl slots values⟩
termination_by structural values => values

end

theorem Value.AllPaddedTo.length_eq {slots : Bool} {values others : List Value}
    (h : Value.AllPaddedTo slots values others) : values.length = others.length := by
  induction values generalizing others with
  | nil =>
    cases others with
    | nil => rfl
    | cons => exact h.elim
  | cons value values ih =>
    cases others with
    | nil => exact h.elim
    | cons padded others => rw [List.length_cons, List.length_cons, ih h.2]

theorem Value.AllPaddedTo.getD {slots : Bool} {values others : List Value}
    (h : Value.AllPaddedTo slots values others) (i : Nat) :
    (values[i]?.getD .unset).PaddedTo (others[i]?.getD .unset) ∨
      values[i]?.getD .unset = .unset := by
  induction values generalizing others i with
  | nil => exact .inr rfl
  | cons value values ih =>
    cases others with
    | nil => exact h.elim
    | cons padded others =>
      cases i with
      | zero => exact h.1.imp id fun hidle => hidle.2.1
      | succ i => exact ih h.2 i

theorem Value.allPaddedTo_set {slots : Bool} {values : List Value} {i : Nat} {inner : Value}
    (h : (values[i]?.getD .unset).PaddedTo inner ∨
      slots = true ∧ values[i]?.getD .unset = .unset ∧ inner.IsIdle) :
    Value.AllPaddedTo slots values (values.set i inner) := by
  induction values generalizing i with
  | nil => trivial
  | cons value values ih =>
    cases i with
    | zero => exact ⟨h, .refl slots values⟩
    | succ i => exact ⟨.inl (.refl value), ih h⟩

namespace Value

/-! ## Values without scalars -/

theorem exists_get_of_mem_leaves {value : Value} {kind : Kind} (h : value.Conforms kind)
    {path : Path} {s : Scalar} (hleaf : (path, s) ∈ value.leaves) :
    ∃ place, value.get place = .scalar s := by
  induction path generalizing value kind with
  | nil => exact ⟨[], mem_leaves_nil_iff.1 hleaf⟩
  | cons segment rest ih =>
    obtain ⟨step, inner, hstep, hrest⟩ := (mem_leaves_cons_iff h).1 hleaf
    obtain ⟨place, hget⟩ := ih (h.part_of_segment? hstep) hrest
    exact ⟨step :: place, hget⟩

theorem leaves_eq_nil_of_alike {value : Value} {kind : Kind} (h : value.Conforms kind)
    (halike : Value.unset.Alike value) : value.leaves = [] := by
  rw [List.eq_nil_iff_forall_not_mem]
  rintro ⟨path, s⟩ hleaf
  obtain ⟨place, hget⟩ := exists_get_of_mem_leaves h hleaf
  have hscalar := (halike place).2
  rw [get_unset, hget] at hscalar
  cases hscalar

/-! ## What a refused write leaves -/

theorem Touched.paddedTo {kind : Kind} {value new : Value} (h : Touched kind value new)
    (hvalue : value.Conforms kind) : value.PaddedTo new ∨ value = .unset ∧ new.IsIdle := by
  induction h with
  | same => exact .inl (.refl _)
  | @record type value =>
    cases value with
    | unset => exact .inr ⟨rfl, Record.leaves_empty type⟩
    | scalar s => simp [Value.Conforms] at hvalue
    | nested record =>
      cases record
      obtain ⟨hkind, _⟩ := conforms_nested_iff.1 hvalue
      rw [Kind.nested.injEq] at hkind
      rw [hkind]
      exact .inl (.refl _)
    | collection items => simp [Value.Conforms] at hvalue
  | @slot type i field value inner hfield hinner ih =>
    have htouched := Touched.slot hfield hinner
    cases value with
    | unset =>
      have hleaves := leaves_eq_nil_of_alike (htouched.conforms hvalue) (htouched.alike hvalue)
      rw [setSlot, Value.leaves] at hleaves
      exact .inr ⟨rfl, hleaves⟩
    | scalar s => simp [Value.Conforms] at hvalue
    | nested record =>
      cases record
      obtain ⟨hkind, _⟩ := conforms_nested_iff.1 hvalue
      rw [Kind.nested.injEq] at hkind
      refine .inl ⟨hkind, allPaddedTo_set ?_⟩
      exact (ih (hvalue.part_slot hfield)).imp id fun hidle => ⟨rfl, hidle⟩
    | collection items => simp [Value.Conforms] at hvalue
  | @items element value =>
    cases value with
    | unset => exact .inr ⟨rfl, rfl⟩
    | scalar s => simp [Value.Conforms] at hvalue
    | nested record => simp [Value.Conforms] at hvalue
    | collection items => exact .inl (.refl _)
  | @item element i value inner hi hinner ih =>
    cases value with
    | collection items =>
      rw [setItem_of_lt hi]
      refine .inl (allPaddedTo_set (.inl ?_))
      -- the touched element was set, so that it is no place for a new container
      exact (ih (hvalue.part_item i)).resolve_right fun hidle => hvalue.part_item_ne hi hidle.1
    | _ => exact absurd hi (Nat.not_lt_zero i)

theorem PaddedTo.part {value new : Value} (h : value.PaddedTo new) (step : Step) :
    (value.part step).PaddedTo (new.part step) ∨ value.part step = .unset := by
  cases value with
  | unset => exact .inr (part_unset step)
  | scalar s => exact .inr (part_scalar s step)
  | nested record =>
    cases new with
    | nested padded =>
      cases record
      cases step with
      | slot i => exact h.2.getD i
      | item i => exact .inr rfl
    | _ => exact h.elim
  | collection items =>
    cases new with
    | collection padded =>
      cases step with
      | slot i => exact .inr rfl
      | item i => exact h.getD i
    | _ => exact h.elim

theorem PaddedTo.get {value new : Value} (h : value.PaddedTo new) (place : Place)
    (hset : value.get place ≠ .unset) : (value.get place).PaddedTo (new.get place) := by
  induction place generalizing value new with
  | nil => exact h
  | cons step place ih =>
    rcases h.part step with hpart | hunset
    · exact ih hpart hset
    · rw [get_cons, hunset, get_unset] at hset
      exact absurd rfl hset

end Value

theorem Record.read?_eq_scalar_iff_of_alike {record other : Record} (h : record.Conforms)
    (h' : other.Conforms) (htype : other.type = record.type)
    (halike : (Value.nested record).Alike (.nested other)) (path : Path) (s : Scalar) :
    other.read? path = some (.scalar s) ↔ record.read? path = some (.scalar s) := by
  have hscalar : ∀ place, (Value.nested other).get place = .scalar s ↔
      (Value.nested record).get place = .scalar s := by
    intro place
    rw [← Value.scalar?_eq_some_iff, ← Value.scalar?_eq_some_iff, (halike place).2]
  rw [Record.read?_eq_some_iff h'.nested, Record.read?_eq_some_iff h.nested, htype]
  simp only [hscalar]

/--
A refused write takes away no scalar and adds none, keeps the length of every collection, and
leaves new idle containers in slots that were unset at most. A write that finds no first field
leaves the record as it was.
-/
theorem Record.paddedTo_write_of_refused {type : RecordType} {record : Record}
    (h : record.Reached type) (segments : List String) (scalar : Scalar)
    (hno : (record.write (Path.ofSegments segments) scalar).error? ≠ none) :
    (∀ path s,
        (record.write (Path.ofSegments segments) scalar).value.read? path = some (.scalar s) ↔
          record.read? path = some (.scalar s)) ∧
      (∀ place items, (Value.nested record).get place = .collection items →
        ∃ others, (Value.nested (record.write (Path.ofSegments segments) scalar).value).get place =
          .collection others ∧ others.length = items.length) ∧
      record.PaddedTo (record.write (Path.ofSegments segments) scalar).value ∧
      (record.write (Path.ofSegments segments) scalar).value.pruned = record.pruned ∧
      ((∀ name ∈ segments.head?, type.find? (Text.trim name) = none) →
        (record.write (Path.ofSegments segments) scalar).value = record) := by
  have hconforms := h.conforms
  have hnew := hconforms.write (Path.ofSegments segments) scalar
  have htype := record.type_write (Path.ofSegments segments) scalar
  have htouched := touched_write hconforms hno
  have halike := htouched.alike hconforms.nested
  have hpadded := (htouched.paddedTo hconforms.nested).resolve_right (by simp)
  refine ⟨?_, ?_, hpadded, ?_, ?_⟩
  · exact read?_eq_scalar_iff_of_alike hconforms hnew htype halike
  · intro place items hitems
    have hget := hpadded.get place (by rw [hitems]; simp)
    rw [hitems] at hget
    generalize (Value.nested _).get place = found at hget
    cases found with
    | collection others => exact ⟨others, rfl, hget.length_eq.symm⟩
    | _ => exact hget.elim
  · exact ((Record.pruned_eq_iff hconforms hnew htype.symm).2 halike).symm
  · intro hfirst
    cases segments with
    | nil => rfl
    | cons name rest =>
      have hfind := hfirst name rfl
      rw [← h.type_eq] at hfind
      unfold Path.ofSegments
      rw [List.map_cons, Record.write, Record.modify, hfind]
      rfl

theorem Record.paddedTo_write_past_number :
    let item : RecordType :=
      ⟨"Item", [⟨"name", .primitive .string⟩, ⟨"marks", .collection (.primitive .int)⟩]⟩
    let type : RecordType := ⟨"Row", [⟨"items", .collection (.nested item)⟩]⟩
    let record := (Record.empty type).run [.write ["items", "0", "name"] (.string "a")]
    let left := record.write (Path.ofSegments ["items", "0", "marks", "0", "x"]) (.int 1)
    record.Reached type ∧ left.error? = some (.fieldNotFound "x") ∧
      record.read? ["items", "0", "marks"] = none ∧
      left.value.read? ["items", "0", "marks"] = some (.collection []) ∧
      record.PaddedTo left.value ∧ left.value.pruned = record.pruned := by
  intro item type record left
  have hreached : record.Reached type := ⟨_, rfl⟩
  have herror : left.error? = some (.fieldNotFound "x") := by decide
  have hkept := Record.paddedTo_write_of_refused hreached ["items", "0", "marks", "0", "x"] (.int 1)
    (by rw [herror]; simp)
  exact ⟨hreached, herror, rfl, rfl, hkept.2.2.1, hkept.2.2.2.1⟩

end RowTree
