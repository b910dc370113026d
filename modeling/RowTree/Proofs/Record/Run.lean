import RowTree.Record.Entries
import RowTree.Proofs.Record.Effect

/-!
This module contains the runs of changes that a record may see. Whatever is written or imported,
and whether it is taken or refused, the record follows its type (`Record.Conforms.run`). So a write
never meets a value that its type does not allow (`Record.Conforms.writeOr_eq`), and what is read
follows the kind that the type gives to the path (`Record.Conforms.of_read?`).
-/

namespace RowTree

/--
A change of a record from outside: a write at segments or at a dotted text, or an import.
-/
inductive Call where
  | write (segments : List String) (scalar : Scalar)
  | writeText (text : String) (scalar : Scalar)
  | importEntries (entries : List Entry)

namespace Record

def apply (record : Record) : Call → Record
  | .write segments scalar => (record.write (Path.ofSegments segments) scalar).value
  | .writeText text scalar => (record.write (Path.ofText text) scalar).value
  | .importEntries entries => (record.importEntries entries).1

def run (record : Record) (calls : List Call) : Record :=
  calls.foldl apply record

def Reached (type : RecordType) (record : Record) : Prop :=
  ∃ calls, (empty type).run calls = record

/-! ## What every write preserves -/

section

variable {motive : Record → Prop} {record : Record}

theorem writeAll_preserves
    (write : ∀ record path scalar, motive record → motive (write record path scalar).value)
    (h : motive record) (entries : List Entry) : motive (record.writeAll entries).1 := by
  induction entries generalizing record with
  | nil => exact h
  | cons entry rest ih =>
    have hrest := ih (write record entry.path entry.value h)
    rw [Record.writeAll]
    dsimp only
    split <;> exact hrest

theorem apply_preserves
    (write : ∀ record path scalar, motive record → motive (write record path scalar).value)
    (h : motive record) (call : Call) : motive (record.apply call) := by
  cases call with
  | write segments scalar => exact write record _ scalar h
  | writeText text scalar => exact write record _ scalar h
  | importEntries entries => exact writeAll_preserves write h _

theorem run_preserves
    (write : ∀ record path scalar, motive record → motive (write record path scalar).value)
    (h : motive record) (calls : List Call) : motive (record.run calls) := by
  induction calls generalizing record with
  | nil => exact h
  | cons call rest ih => exact ih (apply_preserves write h call)

end

/-! ## Following the type -/

theorem Conforms.write {record : Record} (h : record.Conforms) (path : Path) (scalar : Scalar) :
    (record.write path scalar).value.Conforms := by
  rcases Record.write_effect h path scalar with ⟨_, _, _, _, _, hstored⟩ | ⟨_, htouched⟩
  · exact (hstored.conforms h.nested).record
  · exact (htouched.conforms h.nested).record

theorem Conforms.writeAll {record : Record} (h : record.Conforms) (entries : List Entry) :
    (record.writeAll entries).1.Conforms :=
  writeAll_preserves (fun _ path scalar h => h.write path scalar) h entries

theorem Conforms.run {record : Record} (h : record.Conforms) (calls : List Call) :
    (record.run calls).Conforms :=
  run_preserves (fun _ path scalar h => h.write path scalar) h calls

theorem type_apply (record : Record) (call : Call) : (record.apply call).type = record.type := by
  cases call with
  | write segments scalar => exact record.type_write _ scalar
  | writeText text scalar => exact record.type_write _ scalar
  | importEntries entries => exact record.type_importEntries entries

theorem type_run (record : Record) (calls : List Call) : (record.run calls).type = record.type := by
  induction calls generalizing record with
  | nil => rfl
  | cons call rest ih => exact (ih (record.apply call)).trans (record.type_apply call)

namespace Reached

variable {type : RecordType} {record : Record}

theorem type_eq (h : record.Reached type) : record.type = type := by
  obtain ⟨calls, rfl⟩ := h
  exact type_run _ calls

theorem conforms (h : record.Reached type) : record.Conforms := by
  obtain ⟨calls, rfl⟩ := h
  exact (conforms_empty type).run calls

theorem run (h : record.Reached type) (calls : List Call) : (record.run calls).Reached type := by
  obtain ⟨front, rfl⟩ := h
  exact ⟨front ++ calls, List.foldl_append⟩

end Reached

theorem Conforms.slot_lt {record inner : Record} (h : record.Conforms) {place : Place}
    (hinner : (Value.nested record).get place = .nested inner) {name : String} {i : Nat}
    {kind : Kind} (hfind : inner.type.find? name = some (i, kind)) : i < inner.slots.length := by
  obtain ⟨_, hconforms⟩ := h.nested.exists_get place
  rw [hinner] at hconforms
  obtain ⟨type, slots⟩ := inner
  rw [(Value.conforms_nested_iff.1 hconforms).2.length_eq]
  exact (List.getElem?_eq_some_iff.1 (Field.find?_eq_some hfind)).1

theorem Conforms.of_read? {record : Record} (h : record.Conforms) {path : Path} {found : Value}
    (hread : record.read? path = some found) :
    ∃ kind, record.type.at? path = some kind ∧ found ≠ .unset ∧ found.Conforms kind := by
  obtain ⟨hne, place, kind, hplace, hget, hset⟩ := (Record.read?_eq_some_iff h.nested).1 hread
  refine ⟨kind, RecordType.at?_of_locate? hne hplace, hset, ?_⟩
  rw [← hget]
  exact h.nested.get_of_locate? hplace

end Record

/-! ## Values that a type does not allow -/

/--
What a write does with a slot that has another shape than its kind, and with a declared field
that has no slot.
-/
structure Fallback where
  shape : Kind → String → Value → Attempt Value
  slot : Record → (Value → Attempt Value) → Attempt Record

/--
The write refuses a slot of another shape, and reads a missing slot as unset.
-/
def Fallback.regular : Fallback where
  shape kind field slot := .refused slot (.invalidValue field kind.text slot.text)
  slot record change := (change .unset).map fun _ => record

def Record.modifyOr (fallback : Fallback) (record : Record) (name : String)
    (change : Kind → Value → Attempt Value) : Attempt Record :=
  match record.type.find? name with
  | none => .refused record (.fieldNotFound name)
  | some (i, kind) =>
    match record.slots[i]? with
    | some slot => (change kind slot).map fun value =>
      { record with slots := record.slots.set i value }
    | none => fallback.slot record (change kind)

/--
Write a scalar into a slot of some kind, or fall back where the slot is not what its kind says.
-/
def Value.writeOr (fallback : Fallback) (scalar : Scalar) :
    Path → Kind → String → Value → Attempt Value
  | [], .primitive p, field, slot =>
    match p.coerce? scalar with
    | some s => .done (.scalar s)
    | none => .refused slot (.invalidValue field p.name scalar.text)
  | [], kind, field, slot => .refused slot (.invalidValue field kind.text scalar.text)
  | name :: _, .primitive _, _, slot => .refused slot (.fieldNotFound name)
  | name :: rest, .nested type, field, slot =>
    match slot.record? type with
    | some record =>
      (record.modifyOr fallback name fun kind inner =>
        inner.writeOr fallback scalar rest kind name).map .nested
    | none => fallback.shape (.nested type) field slot
  | index :: rest, .collection element, field, slot =>
    match slot.items? with
    | some items =>
      (Value.modifyItem items index field fun i item =>
        item.writeOr fallback scalar rest element (field ++ "." ++ indexText i)).map .collection
    | none => fallback.shape (.collection element) field slot

def Record.writeOr (fallback : Fallback) (record : Record) (path : Path) (scalar : Scalar) :
    Attempt Record :=
  match path with
  | [] => .refused record (.fieldNotFound "")
  | name :: rest =>
    record.modifyOr fallback name fun kind slot => slot.writeOr fallback scalar rest kind name

theorem Record.modifyOr_regular (record : Record) (name : String)
    (change : Kind → Value → Attempt Value) :
    record.modifyOr .regular name change = record.modify name change := by
  obtain ⟨type, slots⟩ := record
  unfold Record.modifyOr Record.modify
  dsimp only
  cases type.find? name with
  | none => rfl
  | some found =>
    obtain ⟨i, kind⟩ := found
    dsimp only
    cases hslot : slots[i]? with
    | some slot => rfl
    | none =>
      -- to set a slot that does not exist changes nothing
      have hset : ∀ value, slots.set i value = slots := fun value =>
        List.set_eq_of_length_le (List.getElem?_eq_none_iff.1 hslot)
      simp only [hset]
      rfl

theorem Value.writeOr_regular (scalar : Scalar) (path : Path) (kind : Kind) (label : String)
    (value : Value) :
    value.writeOr .regular scalar path kind label = value.write scalar path kind label := by
  induction path generalizing kind label value with
  | nil => cases kind <;> rfl
  | cons segment rest ih =>
    cases kind with
    | primitive p => rfl
    | nested type =>
      unfold Value.writeOr Value.write
      simp only [ih, Record.modifyOr_regular]
      rfl
    | collection element =>
      unfold Value.writeOr Value.write
      simp only [ih]
      rfl

theorem Record.writeOr_regular (record : Record) (path : Path) (scalar : Scalar) :
    record.writeOr .regular path scalar = record.write path scalar := by
  cases path with
  | nil => rfl
  | cons name rest =>
    unfold Record.writeOr Record.write
    simp only [Value.writeOr_regular, Record.modifyOr_regular]

theorem Value.modifyItem_congr {items : List Value} {index field : String}
    {change other : Nat → Value → Attempt Value}
    (hitem : ∀ i item, items[i]? = some item → change i item = other i item)
    (hnew : ∀ i, change i .unset = other i .unset) :
    Value.modifyItem items index field change = Value.modifyItem items index field other := by
  unfold Value.modifyItem
  dsimp only
  split
  · rfl
  · next i _ =>
    split
    · next hi => rw [hitem i _ (List.getElem?_eq_getElem hi)]
    · rw [hnew]

theorem Value.SlotsConform.modifyOr_eq {type : RecordType} {slots : List Value}
    (h : Value.SlotsConform slots type.fields) {name : String}
    {change other : Kind → Value → Attempt Value}
    (hchange : ∀ kind slot, slot.Conforms kind → change kind slot = other kind slot)
    (fallback : Fallback) :
    Record.modifyOr fallback ⟨type, slots⟩ name change =
      Record.modify ⟨type, slots⟩ name other := by
  unfold Record.modifyOr Record.modify RecordType.find?
  cases hfind : Field.find? name type.fields with
  | none => rfl
  | some found =>
    obtain ⟨i, kind⟩ := found
    have hslots := Value.slotsConform_iff.1 h
    have hfield := Field.find?_eq_some hfind
    have hslot := hslots.2 i _ hfield
    have hi : i < slots.length := by
      rw [hslots.1]
      exact (List.getElem?_eq_some_iff.1 hfield).1
    dsimp only
    rw [List.getElem?_eq_getElem hi, Option.getD_some] at hslot ⊢
    dsimp only
    rw [hchange kind _ hslot]

theorem Value.Conforms.writeOr_eq {value : Value} {kind : Kind} (h : value.Conforms kind)
    (fallback : Fallback) (scalar : Scalar) (path : Path) (label : String) :
    value.writeOr fallback scalar path kind label = value.write scalar path kind label := by
  induction path generalizing value kind label with
  | nil => cases kind <;> rfl
  | cons segment rest ih =>
    cases kind with
    | primitive p => rfl
    | nested type =>
      rw [Value.writeOr, Value.write, h.record?_eq]
      dsimp only
      rw [h.slotsAs.modifyOr_eq fun kind slot hslot => ih hslot segment]
    | collection element =>
      rw [Value.writeOr, Value.write, h.items?_eq]
      dsimp only
      rw [Value.modifyItem_congr]
      · intro i item hitem
        exact ih (Value.allConform_iff.1 h.items item (List.mem_of_getElem? hitem)).2 _
      · intro i
        -- a new item starts unset, which any kind allows
        exact ih (Value.conforms_unset element) _

theorem Record.Conforms.writeOr_eq {record : Record} (h : record.Conforms) (fallback : Fallback)
    (path : Path) (scalar : Scalar) :
    record.writeOr fallback path scalar = record.write path scalar := by
  obtain ⟨type, slots⟩ := record
  cases path with
  | nil => rfl
  | cons name rest =>
    unfold Record.Conforms at h
    exact h.modifyOr_eq (fun kind slot hslot => hslot.writeOr_eq fallback scalar rest name) fallback

/--
After any run on an empty record the record follows its type: its values are of the declared
kinds, and no element of a collection is unset. Every declared field has its slot; no write, in
the middle of an import either, depends on what would be done with a value of another shape; and
every value that is read follows the kind of its path.
-/
theorem Record.run_empty_conforms (type : RecordType) (calls : List Call) :
    ((Record.empty type).run calls).type = type ∧
      ((Record.empty type).run calls).Conforms ∧
      (∀ (place : Place) (inner : Record),
        (Value.nested ((Record.empty type).run calls)).get place = .nested inner →
          ∀ name i kind, inner.type.find? name = some (i, kind) → i < inner.slots.length) ∧
      (∀ (front : List Entry) (fallback : Fallback) (path : Path) (scalar : Scalar),
        (((Record.empty type).run calls).writeAll front).1.writeOr fallback path scalar =
          (((Record.empty type).run calls).writeAll front).1.write path scalar) ∧
      ∀ path found, ((Record.empty type).run calls).read? path = some found →
        ∃ kind, type.at? path = some kind ∧ found ≠ .unset ∧ found.Conforms kind := by
  have htype := type_run (.empty type) calls
  have hconforms := (conforms_empty type).run calls
  refine ⟨htype, hconforms, ?_, ?_, ?_⟩
  · intro place inner hinner name i kind hfind
    exact hconforms.slot_lt hinner hfind
  · intro front
    exact (hconforms.writeAll front).writeOr_eq
  · intro path found hread
    have hkind := hconforms.of_read? hread
    rw [htype] at hkind
    exact hkind

end RowTree
