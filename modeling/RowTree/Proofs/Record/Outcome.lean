import RowTree.Proofs.Record.Run

/-!
This module contains when a write is refused, and with which error. Type and lengths decide it: a
path is followed as long as its segments are declared names or indices of elements that exist or
come next (`Value.Admits`), and the first segment that is neither is what the error is about
(`Value.Refuses`). `Record.write_outcome` says that there is no other error and no other success.
-/

namespace RowTree

/--
What messages call the value at the end of a path with this place, where `name` is what they call
the value that the path starts at: the last name on the way, with the indices behind it.
-/
def Path.label (name : String) : Path → Place → String
  | segment :: path, .slot _ :: place => Path.label segment path place
  | _ :: path, .item i :: place => Path.label (name ++ "." ++ indexText i) path place
  | _, _ => name

namespace Value

/--
The path leads to the place, where a value of the second kind stands, and passes each collection at
an element that it has or would get next.
-/
def Admits (value : Value) (kind : Kind) (path : Path) (place : Place) (found : Kind) : Prop :=
  kind.locate? path = some (place, found) ∧ value.HasRoom place

/--
The error with which a scalar is refused at a path. The first segment that leads nowhere decides;
if each one leads on, what stands at the end does not take the scalar.
-/
inductive Refuses (value : Value) (kind : Kind) (name : String) (scalar : Scalar) :
    Path → WriteError → Prop where
  | undeclared {front back : Path} {place : Place} {type : RecordType} {segment : String}
      (hfront : value.Admits kind front place (.nested type))
      (hsegment : segment ∉ type.fields.map (·.name)) :
      Refuses value kind name scalar (front ++ segment :: back) (.fieldNotFound segment)
  | beyond {front back : Path} {place : Place} {p : Primitive} {segment : String}
      (hfront : value.Admits kind front place (.primitive p)) :
      Refuses value kind name scalar (front ++ segment :: back) (.fieldNotFound segment)
  | index {front back : Path} {place : Place} {element : Kind} {segment : String}
      (hfront : value.Admits kind front place (.collection element))
      (hsegment : ∀ i, Text.index? segment = some i → (value.get place).count < i) :
      Refuses value kind name scalar (front ++ segment :: back)
        (.invalidIndex (Path.label name front place) segment (value.get place).count)
  | container {path : Path} {place : Place} {found : Kind}
      (hpath : value.Admits kind path place found) (hfound : ∀ p, found ≠ .primitive p) :
      Refuses value kind name scalar path
        (.invalidValue (Path.label name path place) found.text scalar.text)
  | scalar {path : Path} {place : Place} {p : Primitive}
      (hpath : value.Admits kind path place (.primitive p)) (hscalar : p.coerce? scalar = none) :
      Refuses value kind name scalar path
        (.invalidValue (Path.label name path place) p.name scalar.text)

/-! ## Following a path -/

theorem admits_nil (value : Value) (kind : Kind) : value.Admits kind [] [] kind := by
  refine ⟨?_, hasRoom_nil value⟩
  cases kind <;> rfl

theorem Admits.slot {value : Value} {type : RecordType} {inner found : Kind} {segment : String}
    {i : Nat} {path : Path} {place : Place} (hfind : type.find? segment = some (i, inner))
    (h : (value.part (.slot i)).Admits inner path place found) :
    value.Admits (.nested type) (segment :: path) (.slot i :: place) found :=
  ⟨Kind.locate?_cons_slot hfind h.1, hasRoom_slot_cons.2 h.2⟩

theorem Admits.item {value : Value} {element found : Kind} {segment : String} {i : Nat}
    {path : Path} {place : Place} (hindex : Text.index? segment = some i) (hi : i ≤ value.count)
    (h : (value.part (.item i)).Admits element path place found) :
    value.Admits (.collection element) (segment :: path) (.item i :: place) found :=
  ⟨Kind.locate?_cons_item hindex h.1, hasRoom_item_cons.2 ⟨hi, h.2⟩⟩

/--
Behind a path that can be followed, a write fares as one that starts at its end.
-/
theorem error?_write_append {value : Value} {kind found : Kind} (h : value.Conforms kind)
    {front : Path} {place : Place} (hfront : value.Admits kind front place found) (scalar : Scalar)
    (back : Path) (name : String) :
    (value.write scalar (front ++ back) kind name).error? =
      ((value.get place).write scalar back found (Path.label name front place)).error? := by
  obtain ⟨hplace, hroom⟩ := hfront
  induction place generalizing value kind front name with
  | nil =>
    cases front with
    | nil =>
      rw [Kind.locate?, Option.some.injEq, Prod.mk.injEq] at hplace
      rw [← hplace.2]
      rfl
    | cons segment front => exact absurd hplace Kind.locate?_cons_ne_nil
  | cons step place ih =>
    cases step with
    | slot i =>
      obtain ⟨type, segment, rest, inner, rfl, rfl, hfind, hrest⟩ :=
        Kind.eq_nested_of_locate? hplace
      rw [List.cons_append, error?_write_slot h, hfind]
      exact ih (h.part_slot (Field.find?_eq_some hfind)) segment hrest (hasRoom_slot_cons.1 hroom)
    | item i =>
      obtain ⟨element, segment, rest, rfl, rfl, hindex, hrest⟩ :=
        Kind.eq_collection_of_locate? hplace
      obtain ⟨hi, hinner⟩ := hasRoom_item_cons.1 hroom
      rw [List.cons_append, error?_write_item h, hindex]
      dsimp only
      rw [if_pos hi]
      exact ih (h.part_item i) _ hrest hinner

/-! ## Refusals -/

namespace Refuses

variable {value : Value} {name : String} {scalar : Scalar} {segment : String} {rest : Path}
  {error : WriteError} {i : Nat}

theorem slot {type : RecordType} {inner : Kind} (hfind : type.find? segment = some (i, inner))
    (h : (value.part (.slot i)).Refuses inner segment scalar rest error) :
    value.Refuses (.nested type) name scalar (segment :: rest) error := by
  cases h with
  | undeclared hfront hsegment => exact .undeclared (hfront.slot hfind) hsegment
  | beyond hfront => exact .beyond (hfront.slot hfind)
  | index hfront hsegment => exact .index (hfront.slot hfind) hsegment
  | container hpath hfound => exact .container (hpath.slot hfind) hfound
  | scalar hpath hscalar => exact .scalar (hpath.slot hfind) hscalar

theorem item {element : Kind} (hindex : Text.index? segment = some i) (hi : i ≤ value.count)
    (h : (value.part (.item i)).Refuses element (name ++ "." ++ indexText i) scalar rest error) :
    value.Refuses (.collection element) name scalar (segment :: rest) error := by
  cases h with
  | undeclared hfront hsegment => exact .undeclared (hfront.item hindex hi) hsegment
  | beyond hfront => exact .beyond (hfront.item hindex hi)
  | index hfront hsegment => exact .index (hfront.item hindex hi) hsegment
  | container hpath hfound => exact .container (hpath.item hindex hi) hfound
  | scalar hpath hscalar => exact .scalar (hpath.item hindex hi) hscalar

end Refuses

theorem refuses_of_error?_write {value : Value} {kind : Kind} (h : value.Conforms kind)
    {scalar : Scalar} {path : Path} {name : String} {error : WriteError}
    (herror : (value.write scalar path kind name).error? = some error) :
    value.Refuses kind name scalar path error := by
  induction path generalizing value kind name with
  | nil =>
    have hnil := value.admits_nil kind
    cases kind with
    | primitive p =>
      rw [Value.write] at herror
      split at herror
      · cases herror
      · next hscalar =>
        cases herror
        exact .scalar hnil hscalar
    | nested type =>
      cases herror
      exact .container hnil (by simp)
    | collection element =>
      cases herror
      exact .container hnil (by simp)
  | cons segment rest ih =>
    have hnil := value.admits_nil kind
    cases kind with
    | primitive p =>
      cases herror
      exact .beyond hnil
    | nested type =>
      rw [error?_write_slot h] at herror
      split at herror
      · next hnone =>
        cases herror
        exact .undeclared hnil (Field.find?_eq_none_iff.1 hnone)
      · next i inner hfind =>
        exact .slot hfind (ih (h.part_slot (Field.find?_eq_some hfind)) herror)
    | collection element =>
      rw [error?_write_item h] at herror
      split at herror
      · next hindex =>
        cases herror
        exact .index hnil (by simp [hindex])
      · next i hindex =>
        split at herror
        · next hi => exact .item hindex hi (ih (h.part_item i) herror)
        · next hi =>
          cases herror
          refine .index hnil ?_
          intro j hj
          rw [hindex, Option.some.injEq] at hj
          rw [← hj]
          exact Nat.lt_of_not_le hi

theorem Refuses.error?_write {value : Value} {kind : Kind} (h : value.Conforms kind)
    {scalar : Scalar} {path : Path} {name : String} {error : WriteError}
    (hrefuses : value.Refuses kind name scalar path error) :
    (value.write scalar path kind name).error? = some error := by
  cases hrefuses with
  | @undeclared front back place type segment hfront hsegment =>
    have hend := h.get_of_locate? hfront.1
    have hnone : type.find? segment = none := Field.find?_eq_none_iff.2 hsegment
    rw [error?_write_append h hfront, error?_write_slot hend, hnone]
  | beyond hfront =>
    rw [error?_write_append h hfront]
    rfl
  | @index front back place element segment hfront hsegment =>
    have hend := h.get_of_locate? hfront.1
    rw [error?_write_append h hfront, error?_write_item hend]
    cases hindex : Text.index? segment with
    | none => rfl
    | some i => exact if_neg (Nat.not_le_of_lt (hsegment i hindex))
  | @container path place found hpath hfound =>
    rw [← List.append_nil path, error?_write_append h hpath, List.append_nil]
    cases found with
    | primitive p => exact absurd rfl (hfound p)
    | nested type => rfl
    | collection element => rfl
  | @scalar path place p hpath hscalar =>
    rw [← List.append_nil path, error?_write_append h hpath, List.append_nil, Value.write, hscalar]
    rfl

theorem error?_write_eq_some_iff {value : Value} {kind : Kind} (h : value.Conforms kind)
    {scalar : Scalar} {path : Path} {name : String} {error : WriteError} :
    (value.write scalar path kind name).error? = some error ↔
      value.Refuses kind name scalar path error :=
  ⟨refuses_of_error?_write h, Refuses.error?_write h⟩

end Value

/--
A write into a record that some calls made succeeds exactly if its segments, without blanks around
them, can be followed to a primitive that takes the scalar. If not, the error is the one of the
first segment that leads nowhere, or else of what stands at the end; without segments it names an
empty field.
-/
theorem Record.write_outcome {type : RecordType} {record : Record} (h : record.Reached type)
    (segments : List String) (scalar : Scalar) :
    let path := Path.ofSegments segments
    ((record.write path scalar).error? = none ↔
      ∃ place p, (Value.nested record).Admits (.nested type) path place (.primitive p) ∧
        (p.coerce? scalar).isSome) ∧
    ∀ error, (record.write path scalar).error? = some error ↔
      segments = [] ∧ error = .fieldNotFound "" ∨
        segments ≠ [] ∧ (Value.nested record).Refuses (.nested type) "" scalar path error := by
  intro path
  obtain rfl := h.type_eq
  constructor
  · rw [Record.error?_write_eq_none_iff h.conforms]
    constructor
    · rintro ⟨place, s, hplace, hs, hroom⟩
      exact ⟨place, s.primitive, ⟨hplace, hroom⟩, by rw [hs]; rfl⟩
    · rintro ⟨place, p, ⟨hplace, hroom⟩, hsome⟩
      obtain ⟨s, hs⟩ := Option.isSome_iff_exists.1 hsome
      obtain rfl := Primitive.primitive_of_coerce? hs
      exact ⟨place, s, hplace, hs, hroom⟩
  · intro error
    cases segments with
    | nil =>
      have hnil : (record.write path scalar).error? = some (.fieldNotFound "") := rfl
      rw [hnil]
      simp [eq_comm]
    | cons name rest =>
      rw [← Value.error?_write_eq_some_iff h.conforms.nested]
      have hwrite :=
        Value.write_nested_self record scalar (Text.trim name) (Path.ofSegments rest) ""
      have hpath : path = Text.trim name :: Path.ofSegments rest := rfl
      rw [hpath, hwrite, Attempt.error?_map]
      simp

theorem Record.write_outcome_grid :
    let type : RecordType :=
      ⟨"Row", [⟨"name", .primitive .string⟩,
        ⟨"grid", .collection (.collection (.primitive .int))⟩]⟩
    let record := (Record.empty type).run [.writeText "grid.0.0" (.string "7")]
    record.Reached type ∧
      (record.write (Path.ofSegments ["grid", " 0 ", "+1"]) (.string " 8 ")).error? = none ∧
      (record.write (Path.ofSegments ["grid", "01", " 1 "]) (.string "8")).error? =
        some (.invalidIndex "grid.1" "1" 0) ∧
      (record.write (Path.ofSegments ["grid", "0"]) (.string "8")).error? =
        some (.invalidValue "grid.0" "array of int" "8") := by
  intro type record
  have hreached : record.Reached type := ⟨_, rfl⟩
  have hroom (i j : Nat) (hi : i ≤ ((Value.nested record).get [.slot 1]).count)
      (hj : j ≤ ((Value.nested record).get [.slot 1, .item i]).count) :
      (Value.nested record).HasRoom [.slot 1, .item i, .item j] :=
    Value.hasRoom_slot_cons.2 (Value.hasRoom_item_cons.2
      ⟨hi, Value.hasRoom_item_cons.2 ⟨hj, Value.hasRoom_nil _⟩⟩)
  have hrow (i : Nat) (hi : i ≤ ((Value.nested record).get [.slot 1]).count) :
      (Value.nested record).HasRoom [.slot 1, .item i] :=
    Value.hasRoom_slot_cons.2 (Value.hasRoom_item_cons.2 ⟨hi, Value.hasRoom_nil _⟩)
  refine ⟨hreached, ?_, ?_, ?_⟩
  · apply (Record.write_outcome hreached ["grid", " 0 ", "+1"] (.string " 8 ")).1.2
    exact ⟨[.slot 1, .item 0, .item 1], .int, ⟨by decide, hroom 0 1 (by decide) (by decide)⟩,
      by decide⟩
  · have hfront : (Value.nested record).Admits (.nested type) ["grid", "01"] [.slot 1, .item 1]
        (.collection (.primitive .int)) := ⟨by decide, hrow 1 (by decide)⟩
    apply ((Record.write_outcome hreached ["grid", "01", " 1 "] (.string "8")).2 _).2
    refine .inr ⟨by decide, ?_⟩
    exact .index hfront (by decide)
  · have hpath : (Value.nested record).Admits (.nested type) ["grid", "0"] [.slot 1, .item 0]
        (.collection (.primitive .int)) := ⟨by decide, hrow 0 (by decide)⟩
    apply ((Record.write_outcome hreached ["grid", "0"] (.string "8")).2 _).2
    refine .inr ⟨by decide, ?_⟩
    exact .container hpath (by simp)

end RowTree
