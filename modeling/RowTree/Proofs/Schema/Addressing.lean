import RowTree.Proofs.Record.Import
import RowTree.Proofs.Record.Leaves
import RowTree.Proofs.Schema.Built

/-!
This module contains which leaves of a built type a dotted text leads to. Names are declared as any
text, but a dotted text is cut at each dot and trimmed: the text of a leaf's path leads to the leaf
exactly if no name on the way holds a dot or a blank at its ends (`Schema.answers_leaf_iff`).
-/

namespace RowTree

/--
The path leads to a primitive, through fields by their names and into collections by their first
element.
-/
inductive Kind.Leaf : Kind → Path → Place → Primitive → Prop where
  | here (p : Primitive) : Leaf (.primitive p) [] [] p
  | field {type : RecordType} {i : Nat} {name : String} {kind : Kind} {path : Path}
      {place : Place} {p : Primitive} (hfield : type.fields[i]? = some ⟨name, kind⟩)
      (h : Leaf kind path place p) : Leaf (.nested type) (name :: path) (.slot i :: place) p
  | first {element : Kind} {path : Path} {place : Place} {p : Primitive}
      (h : Leaf element path place p) :
      Leaf (.collection element) ("0" :: path) (.item 0 :: place) p

namespace Kind.Leaf

variable {kind : Kind} {path : Path} {place : Place} {p : Primitive}

theorem locate?_eq (h : kind.Leaf path place p)
    (hnodup : ∀ inner, kind.Holds inner → (inner.fields.map (·.name)).Nodup) :
    kind.locate? path = some (place, .primitive p) := by
  induction h with
  | here p => rfl
  | @field type i name kind path place p hfield h ih =>
    have hinner : ∀ inner, kind.Holds inner → (inner.fields.map (·.name)).Nodup :=
      fun inner hinner => hnodup inner (.field (List.mem_of_getElem? hfield) hinner)
    have hfind := RecordType.find?_eq_of_nodup (hnodup type (.nested type)) hfield
    exact locate?_cons_slot hfind (ih hinner)
  | first h ih =>
    exact locate?_cons_item rfl (ih fun inner hinner => hnodup inner (.element hinner))

theorem eq_zero_of_item_mem (h : kind.Leaf path place p) {i : Nat} (hi : Step.item i ∈ place) :
    i = 0 := by
  induction h with
  | here => simp at hi
  | field _ _ ih => exact ih (by simpa using hi)
  | first _ ih =>
    rw [List.mem_cons, Step.item.injEq] at hi
    exact hi.elim id ih

theorem ne_nil {type : RecordType} (h : (Kind.nested type).Leaf path place p) : path ≠ [] := by
  cases h
  exact List.cons_ne_nil _ _

theorem trim_eq_of_locate? {found : Kind} (h : kind.Leaf path place p)
    (htrim : kind.locate? (Path.ofSegments path) = some (place, found)) :
    ∀ segment ∈ path, Text.trim segment = segment := by
  induction h with
  | here => simp
  | field hfield h ih =>
    obtain ⟨_, other, rest, inner, hkind, hpath, hfind, hrest⟩ := eq_nested_of_locate? htrim
    cases hkind
    rw [Path.ofSegments, List.map_cons, List.cons.injEq] at hpath
    rw [Field.find?_eq_some hfind, Option.some.injEq, Field.mk.injEq] at hfield
    rw [hfield.2, ← hpath.2] at hrest
    rw [List.forall_mem_cons]
    exact ⟨hpath.1.trans hfield.1, ih hrest⟩
  | first h ih =>
    obtain ⟨_, index, rest, hkind, hpath, _, hrest⟩ := eq_collection_of_locate? htrim
    cases hkind
    rw [Path.ofSegments, List.map_cons, List.cons.injEq] at hpath
    rw [← hpath.2] at hrest
    rw [List.forall_mem_cons]
    exact ⟨by decide +kernel, ih hrest⟩

end Kind.Leaf

/-! ## Writing into an empty record and reading again -/

/--
A write into an empty record succeeds exactly if its path leads to a primitive that takes the
scalar, and into collections by their first elements.
-/
theorem Record.error?_write_empty_iff {type : RecordType} (entry : Entry) :
    ((Record.empty type).write entry.path entry.value).error? = none ↔
      ∃ place s, entry.target? type = some (place, s) ∧ ∀ i, Step.item i ∈ place → i = 0 := by
  rw [Record.error?_write_eq_none_iff (conforms_empty type)]
  simp only [Value.hasRoom_empty_iff, Entry.target?_eq_some_iff, and_assoc]
  rfl

namespace RecordType

/--
A scalar that is written at the text into an empty record is read there as the second one.
-/
def Answers (type : RecordType) (text : String) (scalar s : Scalar) : Prop :=
  let attempt := (Record.empty type).write (Path.ofText text) scalar
  attempt.error? = none ∧ attempt.value.read? (Path.ofText text) = some (.scalar s)

/--
A scalar that is written at the text into an empty record stands at the place as the second one.
-/
def Stores (type : RecordType) (text : String) (place : Place) (scalar s : Scalar) : Prop :=
  let attempt := (Record.empty type).write (Path.ofText text) scalar
  attempt.error? = none ∧ (Value.nested attempt.value).get place = .scalar s

section Empty

variable {type : RecordType} {text : String} {place : Place} {scalar s : Scalar} {p : Primitive}

theorem target?_eq_some_iff (hs : p.coerce? scalar = some s) :
    Entry.target? type ⟨text, scalar⟩ = some (place, s) ↔
      (Kind.nested type).locate? (Path.ofText text) = some (place, .primitive p) := by
  obtain rfl := Primitive.primitive_of_coerce? hs
  rw [Entry.target?_eq_some_iff]
  exact and_iff_left hs

theorem holds_write_empty
    (hok : ((Record.empty type).write (Path.ofText text) scalar).error? = none) :
    Record.Holds type [⟨text, scalar⟩]
      ((Record.empty type).write (Path.ofText text) scalar).value :=
  (Record.Holds.empty type).write_ok ⟨text, scalar⟩ hok

theorem stores_iff (hs : p.coerce? scalar = some s) :
    type.Stores text place scalar s ↔
      (Kind.nested type).locate? (Path.ofText text) = some (place, .primitive p) ∧
        ∀ i, Step.item i ∈ place → i = 0 := by
  unfold Stores
  dsimp only
  rw [← target?_eq_some_iff hs]
  constructor
  · rintro ⟨hok, hget⟩
    obtain ⟨found, t, hfound, hfirst⟩ := (Record.error?_write_empty_iff ⟨text, scalar⟩).1 hok
    rw [← Value.scalar?_eq_some_iff, (holds_write_empty hok).scalar?_eq,
      Entry.lastAt?_singleton] at hget
    rw [hget, Option.some.injEq, Prod.mk.injEq] at hfound
    exact ⟨hget, hfound.1 ▸ hfirst⟩
  · rintro ⟨htarget, hfirst⟩
    have hok := (Record.error?_write_empty_iff ⟨text, scalar⟩).2 ⟨place, s, htarget, hfirst⟩
    refine ⟨hok, ?_⟩
    rw [← Value.scalar?_eq_some_iff, (holds_write_empty hok).scalar?_eq,
      Entry.lastAt?_singleton]
    exact htarget

theorem answers_iff (hs : p.coerce? scalar = some s) :
    type.Answers text scalar s ↔
      ∃ place, (Kind.nested type).locate? (Path.ofText text) = some (place, .primitive p) ∧
        ∀ i, Step.item i ∈ place → i = 0 := by
  constructor
  · rintro ⟨hok, hread⟩
    obtain ⟨place, t, htarget, hfirst⟩ := (Record.error?_write_empty_iff ⟨text, scalar⟩).1 hok
    have hplace : (Kind.nested type).locate? (Path.ofText text) =
        some (place, .primitive t.primitive) := (Entry.target?_eq_some_iff.1 htarget).1
    rw [(holds_write_empty hok).read?_eq_scalar_iff hplace, Entry.lastAt?_singleton] at hread
    exact ⟨place, (target?_eq_some_iff hs).1 hread, hfirst⟩
  · rintro ⟨place, hplace, hfirst⟩
    have hok := ((stores_iff hs).2 ⟨hplace, hfirst⟩).1
    refine ⟨hok, ?_⟩
    rw [(holds_write_empty hok).read?_eq_scalar_iff hplace, Entry.lastAt?_singleton]
    exact (target?_eq_some_iff hs).2 hplace

theorem stores_leaf_iff {path : Path} (hleaf : (Kind.nested type).Leaf path place p)
    (hnodup : ∀ inner, (Kind.nested type).Holds inner → (inner.fields.map (·.name)).Nodup)
    (hs : p.coerce? scalar = some s) :
    type.Stores path.text place scalar s ↔
      ∀ name ∈ path, '.' ∉ name.toList ∧ Text.trim name = name := by
  have hlocate := hleaf.locate?_eq hnodup
  have hne := hleaf.ne_nil
  rw [stores_iff hs]
  constructor
  · rintro ⟨htext, _⟩
    -- the place has as many steps as the text has segments, so no name was cut
    have hlength : (Path.ofText path.text).length = path.length := by
      rw [← Kind.length_eq_of_locate? htext, Kind.length_eq_of_locate? hlocate]
    have hdot := Path.dot_not_mem_of_length_eq hne hlength
    rw [Path.ofText_text_of_dot_not_mem hne hdot] at htext
    have htrim := hleaf.trim_eq_of_locate? htext
    exact fun name hname => ⟨hdot name hname, htrim name hname⟩
  · intro hclean
    rw [Path.ofText_text hne hclean]
    exact ⟨hlocate, fun i => hleaf.eq_zero_of_item_mem⟩

end Empty

end RecordType

namespace Schema

theorem exists_build_of_root {schema : Schema} {root : RecordType}
    (h : schema.build.toOption.map (·.1) = some root) :
    ∃ registry, schema.build = .ok (root, registry) := by
  cases hbuild : schema.build with
  | error e => simp [hbuild, Except.toOption] at h
  | ok built =>
    rw [hbuild, Except.toOption, Option.map_some, Option.some.injEq] at h
    exact ⟨built.2, by rw [← h]⟩

/--
For each leaf of a built type, writing at the text of its path into an empty record and reading
again gives the scalar exactly if the text leads to some primitive of the same kind through first
elements. This is the leaf itself exactly if no name on the way holds a dot or a blank at its ends.
-/
theorem answers_leaf_iff {schema : Schema} {root : RecordType} {registry : Registry}
    (hbuild : schema.build = .ok (root, registry)) {path : Path} {place : Place} {p : Primitive}
    (hleaf : (Kind.nested root).Leaf path place p) {scalar s : Scalar}
    (hs : p.coerce? scalar = some s) :
    (root.Answers path.text scalar s ↔
      ∃ other, (Kind.nested root).locate? (Path.ofText path.text) = some (other, .primitive p) ∧
        ∀ i, Step.item i ∈ other → i = 0) ∧
    (root.Answers path.text scalar s ∧ root.Stores path.text place scalar s ↔
      ∀ name ∈ path, '.' ∉ name.toList ∧ Text.trim name = name) := by
  obtain ⟨passes, objects, hcompleted⟩ := exists_completed hbuild
  have hnodup : ∀ inner, (Kind.nested root).Holds inner → (inner.fields.map (·.name)).Nodup :=
    fun inner => hcompleted.nodup_of_holds
  refine ⟨RecordType.answers_iff hs, ?_⟩
  rw [← RecordType.stores_leaf_iff hleaf hnodup hs, and_iff_right_iff_imp]
  intro hstores
  exact (RecordType.answers_iff hs).2 ⟨place, (RecordType.stores_iff hs).1 hstores⟩

theorem answers_warehouse_item :
    let item : RecordType := ⟨"Item", [⟨"name", .primitive .string⟩]⟩
    let box : RecordType :=
      ⟨"Box", [⟨"items", .collection (.nested item)⟩, ⟨"weight", .primitive .double⟩]⟩
    let label : RecordType := ⟨"Label", [⟨"text", .primitive .string⟩]⟩
    let shelf : RecordType :=
      ⟨"Shelf", [⟨"label", .nested label⟩, ⟨"boxes", .collection (.nested box)⟩]⟩
    let root : RecordType :=
      ⟨"warehouse", [⟨"code", .primitive .string⟩, ⟨"shelves", .collection (.nested shelf)⟩]⟩
    let path : Path := ["shelves", "0", "boxes", "0", "items", "0", "name"]
    let place : Place := [.slot 1, .item 0, .slot 1, .item 0, .slot 0, .item 0, .slot 0]
    path.text = "shelves.0.boxes.0.items.0.name" ∧
      root.Answers path.text (.int 7) (.string "7") ∧
      root.Stores path.text place (.int 7) (.string "7") := by
  intro item box label shelf root path place
  obtain ⟨registry, hbuild⟩ : ∃ registry, warehouse.build = .ok (root, registry) :=
    exists_build_of_root (by decide +kernel)
  have hleaf : (Kind.nested root).Leaf path place .string :=
    .field rfl (.first (.field rfl (.first (.field rfl (.first (.field rfl (.here .string)))))))
  have hs : Primitive.string.coerce? (.int 7) = some (.string "7") := by decide +kernel
  exact ⟨by decide +kernel, (answers_leaf_iff hbuild hleaf hs).2.2 (by decide +kernel)⟩

def prices : Schema where
  name := "prices"
  columns := [⟨"unit.price", "int", false⟩]
  objectFields := []
  objects := []

theorem not_answers_prices :
    let root : RecordType := ⟨"prices", [⟨"unit.price", .primitive .int⟩]⟩
    let path : Path := ["unit.price"]
    (∃ registry, prices.build = .ok (root, registry)) ∧
      (Kind.nested root).Leaf path [.slot 0] .int ∧
      Primitive.int.coerce? (.string "3") = some (.int 3) ∧
      ((Record.empty root).write (Path.ofText path.text) (.string "3")).error? =
        some (.fieldNotFound "unit") ∧
      ¬root.Answers path.text (.string "3") (.int 3) := by
  intro root path
  have herror : ((Record.empty root).write (Path.ofText path.text) (.string "3")).error? =
      some (.fieldNotFound "unit") := by decide +kernel
  have hbuild : ∃ registry, prices.build = .ok (root, registry) :=
    exists_build_of_root (by decide +kernel)
  refine ⟨hbuild, .field rfl (.here .int), by decide +kernel, herror, ?_⟩
  rintro ⟨hok, _⟩
  rw [herror] at hok
  cases hok

end Schema

end RowTree
