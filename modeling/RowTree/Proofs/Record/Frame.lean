import RowTree.Proofs.Record.Run

/-!
This module contains what a successful write does to the values that are read from a record: the
value at its path is the scalar as the declared primitive, and a path that leads elsewhere reads
what it read before (`Record.read?_write`). Whether two paths lead to the same place is said on
their segments (`Kind.onWay`), and comes down to their places (`Kind.onWay_iff`).
-/

namespace RowTree

/--
Whether the first path leads to where the second one leads, or to a container on the way there.
Segments agree as names in records and as numbers in collections.
-/
def Kind.onWay : Kind → Path → Path → Bool
  | _, [], _ => true
  | .nested type, name :: front, other :: path =>
    name == other && (type.kind? name).any fun kind => kind.onWay front path
  | .collection element, index :: front, other :: path =>
    (Text.index? index).isSome && Text.index? index == Text.index? other &&
      element.onWay front path
  | _, _, _ => false

/--
A path is on the way to another one exactly if its place is a front part of the other place.
-/
theorem Kind.onWay_iff {kind found : Kind} {front path : Path} {place : Place}
    (hplace : kind.locate? path = some (place, found)) :
    kind.onWay front path = true ↔
      ∃ before inner, kind.locate? front = some (before, inner) ∧ before <+: place := by
  induction path generalizing kind front place with
  | nil =>
    simp only [Kind.locate?, Option.some.injEq, Prod.mk.injEq] at hplace
    obtain ⟨rfl, rfl⟩ := hplace
    cases front with
    | nil => simp [Kind.onWay, Kind.locate?]
    | cons segment front =>
      simp only [Kind.onWay, Bool.false_eq_true, false_iff]
      rintro ⟨before, inner, hfront, hbefore⟩
      obtain rfl := List.prefix_nil.1 hbefore
      exact Kind.locate?_cons_ne_nil hfront
  | cons other path ih =>
    cases front with
    | nil => simp [Kind.onWay, Kind.locate?]
    | cons segment front =>
      cases kind with
      | primitive p => simp [Kind.locate?] at hplace
      | nested type =>
        simp only [Kind.locate?, Option.bind_eq_some_iff, Option.map_eq_some_iff, Prod.exists,
          Prod.mk.injEq] at hplace
        obtain ⟨i, inner, hfind, place, _, hrest, rfl, rfl⟩ := hplace
        rw [Kind.onWay, Bool.and_eq_true, beq_iff_eq]
        constructor
        · rintro ⟨rfl, hway⟩
          rw [RecordType.kind?, hfind] at hway
          obtain ⟨before, last, hfront, hbefore⟩ := (ih hrest).1 hway
          exact ⟨_, last, Kind.locate?_cons_slot hfind hfront,
            List.cons_prefix_cons.2 ⟨rfl, hbefore⟩⟩
        · rintro ⟨before, last, hfront, hway⟩
          simp only [Kind.locate?, Option.bind_eq_some_iff, Option.map_eq_some_iff, Prod.exists,
            Prod.mk.injEq] at hfront
          obtain ⟨j, kind, hfind', before, _, hfront, rfl, rfl⟩ := hfront
          -- one slot has one name
          obtain ⟨hj, hbefore⟩ := List.cons_prefix_cons.1 hway
          rw [Step.slot.injEq] at hj
          subst hj
          obtain ⟨rfl, rfl⟩ := RecordType.find?_inj hfind hfind'
          refine ⟨rfl, ?_⟩
          rw [RecordType.kind?, hfind]
          exact (ih hrest).2 ⟨before, _, hfront, hbefore⟩
      | collection element =>
        simp only [Kind.locate?, Option.bind_eq_some_iff, Option.map_eq_some_iff, Prod.exists,
          Prod.mk.injEq] at hplace
        obtain ⟨i, hindex, place, _, hrest, rfl, rfl⟩ := hplace
        simp only [Kind.onWay, hindex, Bool.and_eq_true, beq_iff_eq]
        constructor
        · rintro ⟨⟨_, hj⟩, hway⟩
          obtain ⟨before, last, hfront, hbefore⟩ := (ih hrest).1 hway
          exact ⟨_, last, Kind.locate?_cons_item hj hfront,
            List.cons_prefix_cons.2 ⟨rfl, hbefore⟩⟩
        · rintro ⟨before, last, hfront, hway⟩
          simp only [Kind.locate?, Option.bind_eq_some_iff, Option.map_eq_some_iff, Prod.exists,
            Prod.mk.injEq] at hfront
          obtain ⟨j, hj, before, _, hfront, rfl, rfl⟩ := hfront
          obtain ⟨hij, hbefore⟩ := List.cons_prefix_cons.1 hway
          rw [Step.item.injEq] at hij
          subst hij
          exact ⟨⟨by rw [hj]; rfl, hj⟩, (ih hrest).2 ⟨before, _, hfront, hbefore⟩⟩

theorem Value.Stored.read?_eq {s : Scalar} {place : Place} {kind found : Kind} {path front : Path}
    {value new : Value} (h : Value.Stored s place kind value new) (hvalue : value.Conforms kind)
    (hplace : kind.locate? path = some (place, found)) (hfront : kind.onWay front path = false) :
    new.read? front = value.read? front := by
  have hnew := h.conforms hvalue
  cases hlocate : kind.locate? front with
  | none =>
    -- nothing is read where the path does not fit the type
    have hnone : ∀ other : Value, other.Conforms kind → other.read? front = none := by
      intro other hother
      rw [Option.eq_none_iff_forall_ne_some]
      intro inner hread
      obtain ⟨_, _, hsome, _⟩ := Value.exists_locate?_of_read? hother hread
      rw [hlocate] at hsome
      cases hsome
    rw [hnone new hnew, hnone value hvalue]
  | some last =>
    obtain ⟨before, inner⟩ := last
    have hbefore : ¬before <+: place := by
      intro hprefix
      rw [(Kind.onWay_iff hplace).2 ⟨before, inner, hlocate, hprefix⟩] at hfront
      cases hfront
    apply Option.ext
    intro other
    rw [Value.read?_eq_some_iff hnew hlocate, Value.read?_eq_some_iff hvalue hlocate,
      h.get_of_not_on_way hvalue hbefore]

/--
After a successful write its path leads to a primitive that takes the scalar, and reads the scalar
as this primitive. Paths that lead neither there nor to a container on the way read what they read
before.
-/
theorem Record.read?_write {type : RecordType} {record : Record} (h : record.Reached type)
    (segments : List String) (scalar : Scalar)
    (hok : (record.write (Path.ofSegments segments) scalar).error? = none) :
    (∃ p s, type.at? (Path.ofSegments segments) = some (.primitive p) ∧ p.coerce? scalar = some s ∧
        (record.write (Path.ofSegments segments) scalar).value.read? (Path.ofSegments segments) =
          some (.scalar s)) ∧
      ∀ others : List String,
        (Kind.nested type).onWay (Path.ofSegments others) (Path.ofSegments segments) = false →
          (record.write (Path.ofSegments segments) scalar).value.read? (Path.ofSegments others) =
            record.read? (Path.ofSegments others) := by
  have hconforms := h.conforms
  obtain rfl := h.type_eq
  generalize Path.ofSegments segments = path at hok ⊢
  have hnew := (hconforms.write path scalar).nested
  rw [Record.type_write] at hnew
  obtain ⟨place, s, hplace, hs, hstored⟩ := stored_write hconforms hok
  cases path with
  | nil => simp [Kind.locate?] at hplace
  | cons name rest =>
    constructor
    · refine ⟨s.primitive, s, RecordType.at?_of_locate? (by simp) hplace, hs, ?_⟩
      exact (Value.read?_eq_some_iff hnew hplace).2 ⟨hstored.get_self hconforms.nested, by simp⟩
    · intro others hothers
      cases hpath : Path.ofSegments others with
      | nil => rfl
      | cons other back =>
        rw [hpath] at hothers
        exact hstored.read?_eq hconforms.nested hplace hothers

theorem Record.read?_write_appended_item :
    let item : RecordType := ⟨"Item", [⟨"name", .primitive .string⟩, ⟨"count", .primitive .int⟩]⟩
    let type : RecordType :=
      ⟨"Row", [⟨"id", .primitive .bool⟩, ⟨"items", .collection (.nested item)⟩]⟩
    let record := (Record.empty type).run [.write ["items", "0", "name"] (.string "a")]
    let left := record.write (Path.ofSegments ["items", " +1", "count"]) (.string " 7 ")
    record.Reached type ∧ left.error? = none ∧
      left.value.read? (Path.ofSegments ["items", " +1", "count"]) = some (.scalar (.int 7)) ∧
      ∀ others ∈ [["items", "00", "name"], ["items", "01", "name"]],
        left.value.read? (Path.ofSegments others) = record.read? (Path.ofSegments others) := by
  intro item type record left
  have hreached : record.Reached type := ⟨_, rfl⟩
  have hok : left.error? = none := by decide
  obtain ⟨⟨p, s, hkind, hs, hread⟩, hframe⟩ :=
    Record.read?_write hreached ["items", " +1", "count"] (.string " 7 ") hok
  have hp : some (Kind.primitive p) = some (.primitive .int) := by
    rw [← hkind]
    decide
  simp only [Option.some.injEq, Kind.primitive.injEq] at hp
  subst hp
  have hseven : some s = some (.int 7) := by
    rw [← hs]
    decide
  rw [Option.some.injEq] at hseven
  subst hseven
  refine ⟨hreached, hok, hread, ?_⟩
  intro others hothers
  apply hframe
  simp only [List.mem_cons, List.not_mem_nil, or_false] at hothers
  rcases hothers with rfl | rfl
  · decide
  · decide

end RowTree
