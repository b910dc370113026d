import RowTree.Record.Entries

/-!
This module holds what can be said of a record as a tree: whether it follows its type, which
scalars it holds at which paths, and what is left of it without containers that hold nothing. A
record with nothing set follows its type (`Record.conforms_empty`), and has no leaves
(`Record.leaves_empty`).
-/

namespace RowTree

/-! ## Following a type -/

mutual

/--
The value is unset or follows the kind. Elements of collections are never unset.
-/
def Value.Conforms : Value → Kind → Prop
  | .unset, _ => True
  | .scalar s, kind => kind = .primitive s.primitive
  | .nested record, kind => kind = .nested record.type ∧ record.Conforms
  | .collection items, kind =>
    ∃ element, kind = .collection element ∧ Value.AllConform element items
termination_by structural v => v

def Record.Conforms : Record → Prop
  | ⟨type, slots⟩ => Value.SlotsConform slots type.fields
termination_by structural r => r

def Value.AllConform (element : Kind) : List Value → Prop
  | [] => True
  | item :: items => item ≠ .unset ∧ item.Conforms element ∧ Value.AllConform element items
termination_by structural items => items

def Value.SlotsConform : List Value → List Field → Prop
  | [], [] => True
  | value :: values, field :: fields =>
    value.Conforms field.kind ∧ Value.SlotsConform values fields
  | _, _ => False
termination_by structural values => values

end

/-! ## Leaves -/

mutual

def Value.leaves : Value → List (Path × Scalar)
  | .unset => []
  | .scalar s => [([], s)]
  | .nested record => record.leaves
  | .collection items => Value.elementLeaves 0 items
termination_by structural v => v

def Record.leaves : Record → List (Path × Scalar)
  | ⟨type, slots⟩ => Value.slotLeaves (type.fields.map (·.name)) slots
termination_by structural r => r

def Value.elementLeaves (index : Nat) : List Value → List (Path × Scalar)
  | [] => []
  | item :: items =>
    item.leaves.map (fun (path, s) => (indexText index :: path, s)) ++
      Value.elementLeaves (index + 1) items
termination_by structural items => items

def Value.slotLeaves : List String → List Value → List (Path × Scalar)
  | name :: names, value :: values =>
    value.leaves.map (fun (path, s) => (name :: path, s)) ++ Value.slotLeaves names values
  | _, _ => []
termination_by structural _ values => values

end

def Record.toEntries (record : Record) : List Entry :=
  record.leaves.map fun (path, s) => ⟨path.text, s⟩

/-! ## Empty containers -/

mutual

/--
The value with every container that holds nothing replaced by an unset value. Elements of
collections stay where they are.
-/
def Value.pruned : Value → Value
  | .unset => .unset
  | .scalar s => .scalar s
  | .nested record =>
    if record.pruned.slots.all Value.isUnset then .unset else .nested record.pruned
  | .collection items => if items.isEmpty then .unset else .collection (Value.prunedList items)
termination_by structural v => v

def Record.pruned : Record → Record
  | ⟨type, slots⟩ => ⟨type, Value.prunedList slots⟩
termination_by structural r => r

def Value.prunedList : List Value → List Value
  | [] => []
  | value :: values => value.pruned :: Value.prunedList values
termination_by structural values => values

end

theorem Value.prunedList_eq_map (values : List Value) :
    Value.prunedList values = values.map Value.pruned := by
  induction values with
  | nil => rfl
  | cons value values ih => rw [Value.prunedList, ih, List.map_cons]

theorem Value.allConform_iff {element : Kind} {items : List Value} :
    Value.AllConform element items ↔ ∀ item ∈ items, item ≠ .unset ∧ item.Conforms element := by
  induction items with
  | nil => simp [Value.AllConform]
  | cons item items ih => simp [Value.AllConform, ih, and_assoc]

theorem Value.SlotsConform.length_eq {values : List Value} {fields : List Field}
    (h : Value.SlotsConform values fields) : values.length = fields.length := by
  induction values generalizing fields with
  | nil =>
    cases fields with
    | nil => rfl
    | cons => simp [Value.SlotsConform] at h
  | cons value values ih =>
    cases fields with
    | nil => simp [Value.SlotsConform] at h
    | cons field fields =>
      rw [Value.SlotsConform] at h
      rw [List.length_cons, List.length_cons, ih h.2]

theorem Record.conforms_empty (type : RecordType) : (Record.empty type).Conforms := by
  rw [Record.empty, Record.Conforms]
  induction type.fields with
  | nil => trivial
  | cons field fields ih =>
    rw [List.length_cons, List.replicate_succ, Value.SlotsConform]
    exact ⟨by rw [Value.Conforms]; trivial, ih⟩

theorem Value.slotLeaves_replicate_unset (names : List String) (n : Nat) :
    Value.slotLeaves names (List.replicate n .unset) = [] := by
  induction n generalizing names with
  | zero => cases names <;> simp [Value.slotLeaves]
  | succ n ih => cases names <;> simp [Value.slotLeaves, List.replicate_succ, Value.leaves, ih]

theorem Record.leaves_empty (type : RecordType) : (Record.empty type).leaves = [] := by
  rw [Record.empty, Record.leaves, Value.slotLeaves_replicate_unset]

end RowTree
