import Mathlib.Data.Nat.Basic
import Mathlib.Order.Basic
import RowTree.Proofs.Record.Refusal

/-!
This module contains how records grow. What stands in a record stays there with its shape, and no
collection loses elements (`Record.growsTo_run`). A write appends at most one element to a
collection: the next one, if the path leads through it and the write succeeds
(`Record.count_get_write`).
-/

namespace RowTree

inductive Shape where
  | scalar (p : Primitive)
  | record (type : RecordType)
  | collection
  deriving DecidableEq

def Kind.shape : Kind → Shape
  | .primitive p => .scalar p
  | .nested type => .record type
  | .collection _ => .collection

/--
The path leads to the element with an index in the collection at a place, or through it.
-/
def RecordType.leadsThrough (type : RecordType) (path : Path) (place : Place) (i : Nat) : Bool :=
  ((Kind.nested type).locate? path).any fun (target, _) => place ++ [.item i] <+: target

theorem RecordType.leadsThrough_iff {type : RecordType} {path : Path} {target place : Place}
    {found : Kind} {i : Nat} (h : (Kind.nested type).locate? path = some (target, found)) :
    type.leadsThrough path place i = true ↔ place ++ [.item i] <+: target := by
  rw [leadsThrough, h, Option.any_some, decide_eq_true_iff]

namespace Value

def shape? : Value → Option Shape
  | .unset => none
  | .scalar s => some (.scalar s.primitive)
  | .nested record => some (.record record.type)
  | .collection _ => some .collection

theorem shape?_eq_none_iff {value : Value} : value.shape? = none ↔ value = .unset := by
  cases value <;> simp [shape?]

theorem shape?_eq_collection_iff {value : Value} :
    value.shape? = some .collection ↔ ∃ items, value = .collection items := by
  cases value <;> simp [shape?]

theorem Conforms.shape?_eq {value : Value} {kind : Kind} (h : value.Conforms kind)
    (hset : value ≠ .unset) : value.shape? = some kind.shape := by
  cases value with
  | unset => exact absurd rfl hset
  | scalar s =>
    rw [Value.Conforms] at h
    rw [h]
    rfl
  | nested record =>
    rw [Value.Conforms] at h
    rw [h.1]
    rfl
  | collection items =>
    obtain ⟨element, rfl, _⟩ := conforms_collection_iff.1 h
    rfl

/-! ## Growth -/

/--
All that stands in the first value stands in the second one with its shape, and no collection has
fewer elements there.
-/
structure GrowsTo (value other : Value) : Prop where
  shape?_eq : ∀ place, value.get place ≠ .unset →
    (other.get place).shape? = (value.get place).shape?
  count_le : ∀ place, (value.get place).count ≤ (other.get place).count

namespace GrowsTo

variable {a b c : Value}

theorem refl (value : Value) : value.GrowsTo value where
  shape?_eq _ _ := rfl
  count_le _ := Nat.le_refl _

theorem get_ne_unset (h : a.GrowsTo b) {place : Place} (hset : a.get place ≠ .unset) :
    b.get place ≠ .unset := by
  intro hunset
  have hshape := h.shape?_eq place hset
  rw [hunset] at hshape
  exact hset (shape?_eq_none_iff.1 hshape.symm)

theorem trans (hab : a.GrowsTo b) (hbc : b.GrowsTo c) : a.GrowsTo c where
  shape?_eq place hset :=
    (hbc.shape?_eq place (hab.get_ne_unset hset)).trans (hab.shape?_eq place hset)
  count_le place := Nat.le_trans (hab.count_le place) (hbc.count_le place)

theorem exists_collection (h : a.GrowsTo b) {place : Place} {items : List Value}
    (hitems : a.get place = .collection items) :
    ∃ others, b.get place = .collection others ∧ items.length ≤ others.length := by
  have hshape := h.shape?_eq place (by rw [hitems]; simp)
  have hcount := h.count_le place
  rw [hitems] at hshape hcount
  obtain ⟨others, hothers⟩ := shape?_eq_collection_iff.1 hshape
  rw [hothers] at hcount
  exact ⟨others, hothers, hcount⟩

end GrowsTo

theorem PaddedTo.shape?_eq {value padded : Value} (h : value.PaddedTo padded) :
    padded.shape? = value.shape? := by
  cases value with
  | unset =>
    cases padded with
    | unset => rfl
    | _ => exact h.elim
  | scalar s =>
    cases padded with
    | scalar t =>
      obtain rfl : s = t := h
      rfl
    | _ => exact h.elim
  | nested record =>
    cases padded with
    | nested other =>
      cases record
      rw [shape?, shape?, h.1]
    | _ => exact h.elim
  | collection items =>
    cases padded with
    | collection others => rfl
    | _ => exact h.elim

theorem Touched.growsTo {kind : Kind} {value new : Value} (h : Touched kind value new)
    (hvalue : value.Conforms kind) (hset : value ≠ .unset) : value.GrowsTo new where
  shape?_eq place hplace := by
    have hpadded := (h.paddedTo hvalue).resolve_right fun hidle => hset hidle.1
    exact (hpadded.get place hplace).shape?_eq
  count_le place := Nat.le_of_eq (h.alike hvalue place).1

theorem Stored.growsTo {s : Scalar} {place : Place} {kind : Kind} {value new : Value}
    (h : Stored s place kind value new) (hvalue : value.Conforms kind) : value.GrowsTo new where
  shape?_eq other hset := by
    by_cases hother : other <+: place
    · -- on the way to the new scalar, both values follow the same kind
      obtain ⟨rest, rfl⟩ := hother
      obtain ⟨inner, hinner, hstored⟩ := h.get_of_append hvalue
      rw [hinner.shape?_eq hset, (hstored.conforms hinner).shape?_eq hstored.ne_unset]
    · rw [h.get_of_not_on_way hvalue hother]
  count_le other := by
    apply Nat.le_of_not_lt
    intro hlt
    exact Nat.lt_irrefl _ ((h.lt_count_get_iff hvalue).2 (.inl hlt))

theorem Stored.count_get {s : Scalar} {place : Place} {kind : Kind} {value new : Value}
    (h : Stored s place kind value new) (hvalue : value.Conforms kind) (other : Place) :
    (new.get other).count =
      if other ++ [.item (value.get other).count] <+: place then (value.get other).count + 1
      else (value.get other).count := by
  apply eq_of_forall_lt_iff
  intro j
  rw [h.lt_count_get_iff hvalue]
  have hroom := h.hasRoom other
  split
  · next hnext =>
    constructor
    · rintro (hj | hj)
      · omega
      · have hle := hroom j hj
        omega
    · intro hj
      rcases Nat.lt_succ_iff_lt_or_eq.1 hj with hlt | rfl
      · exact .inl hlt
      · exact .inr hnext
  · next hnext =>
    constructor
    · rintro (hj | hj)
      · exact hj
      · apply Nat.lt_of_le_of_ne (hroom j hj)
        rintro rfl
        exact hnext hj
    · exact .inl

end Value

/-! ## Growth of records -/

namespace Record

variable {record : Record}

theorem growsTo_write (h : record.Conforms) (path : Path) (scalar : Scalar) :
    (Value.nested record).GrowsTo (.nested (record.write path scalar).value) := by
  rcases write_effect h path scalar with ⟨_, _, _, _, _, hstored⟩ | ⟨_, htouched⟩
  · exact hstored.growsTo h.nested
  · exact htouched.growsTo h.nested (by simp)

theorem growsTo_run (h : record.Conforms) (calls : List Call) :
    (Value.nested record).GrowsTo (.nested (record.run calls)) := by
  have hwrite (other : Record) (path : Path) (scalar : Scalar)
      (hother : other.Conforms ∧ (Value.nested record).GrowsTo (.nested other)) :
      (other.write path scalar).value.Conforms ∧
        (Value.nested record).GrowsTo (.nested (other.write path scalar).value) :=
    ⟨hother.1.write path scalar, hother.2.trans (growsTo_write hother.1 path scalar)⟩
  exact (run_preserves hwrite ⟨h, .refl _⟩ calls).2

theorem exists_read?_of_growsTo {other : Record} (h : record.Conforms) (h' : other.Conforms)
    (htype : other.type = record.type) (hgrows : (Value.nested record).GrowsTo (.nested other))
    {path : Path} {found : Value} (hread : record.read? path = some found) :
    ∃ later, other.read? path = some later ∧ later.shape? = found.shape? := by
  obtain ⟨hne, place, kind, hplace, rfl, hset⟩ := (read?_eq_some_iff h.nested).1 hread
  refine ⟨(Value.nested other).get place, ?_, hgrows.shape?_eq place hset⟩
  rw [← htype] at hplace
  exact (read?_eq_some_iff h'.nested).2 ⟨hne, place, kind, hplace, rfl, hgrows.get_ne_unset hset⟩

/--
A collection gets its next element from a successful write that leads through it, and nothing from
any other write.
-/
theorem count_get_write (h : record.Conforms) (path : Path) (scalar : Scalar) (place : Place) :
    ((Value.nested (record.write path scalar).value).get place).count =
      if (record.write path scalar).error? = none ∧
          record.type.leadsThrough path place ((Value.nested record).get place).count then
        ((Value.nested record).get place).count + 1
      else
        ((Value.nested record).get place).count := by
  rcases write_effect h path scalar with ⟨hok, _, _, hplace, _, hstored⟩ | ⟨hno, htouched⟩
  · rw [hstored.count_get h.nested]
    simp only [hok, true_and, RecordType.leadsThrough_iff hplace]
  · rw [if_neg fun hgrown => hno hgrown.1]
    exact (htouched.alike h.nested place).1.symm

/--
Records only grow. Whatever is written or imported, and whether it is taken or refused, a path that
reads a value reads one of the same shape ever after, and a collection stays one and loses no
element. A single write leaves every collection with its elements, but for one new element of each
collection whose next element the path of a successful write leads through; so no element stands
behind a gap.
-/
theorem run_grows {type : RecordType} (h : record.Reached type) :
    (∀ (calls : List Call) (path : Path) (found : Value), record.read? path = some found →
      ∃ later, (record.run calls).read? path = some later ∧ later.shape? = found.shape?) ∧
    (∀ (calls : List Call) (place : Place) (items : List Value),
      (Value.nested record).get place = .collection items →
        ∃ others, (Value.nested (record.run calls)).get place = .collection others ∧
          items.length ≤ others.length) ∧
    ∀ (path : Path) (scalar : Scalar),
      (∀ place items, (Value.nested record).get place = .collection items →
        ∃ others,
          (Value.nested (record.write path scalar).value).get place = .collection others ∧
          others.length =
            if (record.write path scalar).error? = none ∧
                type.leadsThrough path place items.length then
              items.length + 1
            else
              items.length) ∧
      ∀ place i,
        (Value.nested (record.write path scalar).value).get (place ++ [.item i]) ≠ .unset →
          i ≤ ((Value.nested record).get place).count := by
  have hconforms := h.conforms
  obtain rfl := h.type_eq
  refine ⟨?_, ?_, ?_⟩
  · intro calls path found hread
    exact exists_read?_of_growsTo hconforms (hconforms.run calls) (record.type_run calls)
      (growsTo_run hconforms calls) hread
  · intro calls place items hitems
    exact (growsTo_run hconforms calls).exists_collection hitems
  · intro path scalar
    have hcount := count_get_write hconforms path scalar
    constructor
    · intro place items hitems
      obtain ⟨others, hothers, _⟩ :=
        (growsTo_write hconforms path scalar).exists_collection hitems
      have hlength := hcount place
      rw [hitems, hothers] at hlength
      exact ⟨others, hothers, hlength⟩
    · intro place i hset
      rw [Value.get_append] at hset
      have hlt := Value.lt_of_part_item_ne hset
      rw [hcount] at hlt
      split at hlt <;> omega

theorem run_grows_grid :
    let type : RecordType :=
      ⟨"Row", [⟨"grid", .collection (.collection (.primitive .int))⟩]⟩
    let record := (Record.empty type).run
      [.write ["grid", "0", "0"] (.int 1), .write ["grid", "1", "0"] (.string "x")]
    let left := record.write ["grid", "0", "+1"] (.int 2)
    let refused := record.write ["grid", "0", "1"] (.string "x")
    record.Reached type ∧
      record.read? ["grid", "0"] = some (.collection [.scalar (.int 1)]) ∧
      (∀ calls, ∃ later, (record.run calls).read? ["grid", "0"] = some later ∧
        later.shape? = some .collection) ∧
      (∃ rows, (Value.nested left.value).get [.slot 0] = .collection rows ∧ rows.length = 1) ∧
      (∃ cells, (Value.nested left.value).get [.slot 0, .item 0] = .collection cells ∧
        cells.length = 2) ∧
      (∃ cells, (Value.nested refused.value).get [.slot 0, .item 0] = .collection cells ∧
        cells.length = 1) ∧
      (Value.nested left.value).get [.slot 0, .item 0, .item 2] = .unset := by
  intro type record left refused
  have hreached : record.Reached type := ⟨_, rfl⟩
  have hread : record.read? ["grid", "0"] = some (.collection [.scalar (.int 1)]) := rfl
  obtain ⟨hshape, _, hwrite⟩ := run_grows hreached
  obtain ⟨hleft, hgap⟩ := hwrite ["grid", "0", "+1"] (.int 2)
  have hrefused := (hwrite ["grid", "0", "1"] (.string "x")).1
  refine ⟨hreached, hread, ?_, ?_, ?_, ?_, ?_⟩
  · intro calls
    exact hshape calls _ _ hread
  · obtain ⟨rows, hrows, hlength⟩ := hleft [.slot 0] _ rfl
    exact ⟨rows, hrows, hlength.trans (by decide)⟩
  · obtain ⟨cells, hcells, hlength⟩ := hleft [.slot 0, .item 0] _ rfl
    exact ⟨cells, hcells, hlength.trans (by decide)⟩
  · obtain ⟨cells, hcells, hlength⟩ := hrefused [.slot 0, .item 0] _ rfl
    exact ⟨cells, hcells, hlength.trans (by decide)⟩
  · apply Classical.byContradiction
    intro hset
    have hle := hgap [.slot 0, .item 0] 2 hset
    exact absurd hle (by decide)

end Record

end RowTree
