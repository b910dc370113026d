import Mathlib.Data.List.Basic
import RowTree.Proofs.Record.Filled
import RowTree.Proofs.Record.Indexable
import RowTree.Proofs.Rule.Walk

/-!
This module contains what the target of a rule stands for. A target may leave out the index in
front of a collection; with an index put in at each such collection it becomes a path that reads a
single value (`Value.Completes`). A walk to the target visits what its completed paths read, in the
order of the indices that were put in (`Record.walk_readings`).
-/

namespace RowTree

structure Reading where
  inserted : List Nat
  path : Path
  found : Value

namespace Value

/--
The second path is the first one with an index put in wherever it comes to a collection of the
value without one. Where nothing stands any more, the rest of the path stays as it is.
-/
inductive Completes : Value → Path → List Nat → Path → Prop where
  | unset {path : Path} : Completes .unset path [] path
  | scalar {s : Scalar} {path : Path} : Completes (.scalar s) path [] path
  | nested {record : Record} : Completes (.nested record) [] [] []
  | name {record : Record} {name : String} {rest whole : Path} {inserted : List Nat}
      (h : Completes ((record.slot? name).getD .unset) rest inserted whole) :
      Completes (.nested record) (name :: rest) inserted (name :: whole)
  | index {items : List Value} {index : String} {i : Nat} {rest whole : Path}
      {inserted : List Nat} (hindex : Text.index? index = some i)
      (h : Completes (items[i]?.getD .unset) rest inserted whole) :
      Completes (.collection items) (index :: rest) inserted (index :: whole)
  | insert {items : List Value} {path whole : Path} {i : Nat} {inserted : List Nat}
      (hpath : path.head?.bind Text.index? = none) (hi : i < 0x10000000000000000)
      (h : Completes (items[i]?.getD .unset) path inserted whole) :
      Completes (.collection items) path (i :: inserted) (indexText i :: whole)

/--
The reading completes the path, and finds something other than a collection.
-/
structure Reads (value : Value) (path : Path) (reading : Reading) : Prop where
  completes : value.Completes path reading.inserted reading.path
  read?_eq : value.read? reading.path = some reading.found
  ne_collection : ∀ items, reading.found ≠ .collection items

/--
All readings of a path, in the lexicographic order of the indices that were put in.
-/
structure IsReadings (value : Value) (path : Path) (readings : List Reading) : Prop where
  mem_iff : ∀ reading, reading ∈ readings ↔ value.Reads path reading
  sorted : readings.Pairwise fun front back => front.inserted < back.inserted

/-! ## One step of a path -/

theorem getD_slot?_eq_part (record : Record) (name : String) :
    ∃ step, (Value.nested record).part step = (record.slot? name).getD .unset := by
  unfold Record.slot?
  cases record.type.slot? name with
  | none => exact ⟨.item 0, rfl⟩
  | some i => exact ⟨.slot i, rfl⟩

theorem read?_unset (path : Path) : Value.unset.read? path = none := by
  cases path <;> rfl

theorem read?_name (record : Record) (name : String) (rest : Path) :
    (Value.nested record).read? (name :: rest) =
      ((record.slot? name).getD .unset).read? rest := by
  rw [read?]
  cases record.slot? name with
  | none => exact (read?_unset rest).symm
  | some slot => rfl

theorem read?_index {index : String} {i : Nat} (hindex : Text.index? index = some i)
    (items : List Value) (rest : Path) :
    (Value.collection items).read? (index :: rest) = (items[i]?.getD .unset).read? rest := by
  rw [read?, hindex, Option.bind_some]
  cases items[i]? with
  | none => exact (read?_unset rest).symm
  | some item => rfl

theorem reach_name (record : Record) (name : String) (rest : Path) :
    (Value.nested record).reach (name :: rest) =
      ((record.slot? name).getD .unset).reach rest := by
  obtain ⟨type, slots⟩ := record
  rw [reach, Record.reachField]
  unfold Record.slot?
  cases type.slot? name with
  | none => rfl
  | some i =>
    dsimp only [Option.bind_some]
    rw [reachAt_eq]
    cases slots[i]? <;> rfl

theorem reach_index {index : String} {i : Nat} (hindex : Text.index? index = some i)
    (items : List Value) (rest : Path) :
    (Value.collection items).reach (index :: rest) = (items[i]?.getD .unset).reach rest := by
  rw [reach, hindex]
  dsimp only
  rw [reachAt_eq]
  cases items[i]? <;> rfl

theorem reach_each {path : Path} (hpath : path.head?.bind Text.index? = none)
    (items : List Value) :
    (Value.collection items).reach path =
      (List.range items.length).flatMap fun i => (items[i]?.getD .unset).reach path := by
  have heach : (Value.collection items).reach path = items.flatMap (reach path) := by
    rw [← reachEach_eq_flatMap]
    cases path with
    | nil => rw [reach]
    | cons segment rest =>
      rw [List.head?_cons, Option.bind_some] at hpath
      rw [reach, hpath]
  have hitems : items = (List.range items.length).map fun i => items[i]?.getD .unset := by
    apply List.ext_getElem (by simp)
    intro i hi _
    simp [hi]
  rw [heach]
  conv => lhs; rw [hitems, List.flatMap_map]

end Value

/-! ## Readings along a step -/

namespace Reading

def behind (segment : String) (reading : Reading) : Reading :=
  { reading with path := segment :: reading.path }

def inside (i : Nat) (reading : Reading) : Reading :=
  ⟨i :: reading.inserted, indexText i :: reading.path, reading.found⟩

end Reading

namespace Value

variable {record : Record} {items : List Value} {path rest : Path} {reading : Reading}

theorem not_reads_unset : ¬Value.unset.Reads path reading := by
  intro h
  have hread := h.read?_eq
  rw [read?_unset] at hread
  cases hread

theorem reads_scalar_iff {s : Scalar} :
    (Value.scalar s).Reads path reading ↔ path = [] ∧ reading = ⟨[], [], .scalar s⟩ := by
  constructor
  · rintro ⟨hcompletes, hread, _⟩
    obtain ⟨inserted, whole, found⟩ := reading
    cases hcompletes
    cases whole with
    | nil =>
      cases hread
      exact ⟨rfl, rfl⟩
    | cons segment rest => cases hread
  · rintro ⟨rfl, rfl⟩
    exact ⟨.scalar, rfl, nofun⟩

theorem reads_nested_nil_iff :
    (Value.nested record).Reads [] reading ↔ reading = ⟨[], [], .nested record⟩ := by
  constructor
  · rintro ⟨hcompletes, hread, _⟩
    obtain ⟨inserted, whole, found⟩ := reading
    cases hcompletes
    cases hread
    rfl
  · rintro rfl
    exact ⟨.nested, rfl, nofun⟩

theorem reads_name_iff {name : String} :
    (Value.nested record).Reads (name :: rest) reading ↔
      ∃ inner, ((record.slot? name).getD .unset).Reads rest inner ∧
        inner.behind name = reading := by
  constructor
  · rintro ⟨hcompletes, hread, hfound⟩
    obtain ⟨inserted, whole, found⟩ := reading
    cases hcompletes with
    | @name _ _ _ whole _ hcompletes =>
      dsimp only at hread
      rw [read?_name] at hread
      exact ⟨⟨inserted, whole, found⟩, ⟨hcompletes, hread, hfound⟩, rfl⟩
  · rintro ⟨inner, ⟨hcompletes, hread, hfound⟩, rfl⟩
    exact ⟨.name hcompletes, (read?_name ..).trans hread, hfound⟩

theorem reads_index_iff {index : String} {i : Nat} (hindex : Text.index? index = some i) :
    (Value.collection items).Reads (index :: rest) reading ↔
      ∃ inner, (items[i]?.getD .unset).Reads rest inner ∧ inner.behind index = reading := by
  constructor
  · rintro ⟨hcompletes, hread, hfound⟩
    obtain ⟨inserted, whole, found⟩ := reading
    cases hcompletes with
    | @index _ _ j _ whole _ hj hcompletes =>
      rw [hindex, Option.some.injEq] at hj
      subst hj
      dsimp only at hread
      rw [read?_index hindex] at hread
      exact ⟨⟨inserted, whole, found⟩, ⟨hcompletes, hread, hfound⟩, rfl⟩
    | insert hpath =>
      rw [List.head?_cons, Option.bind_some, hindex] at hpath
      cases hpath
  · rintro ⟨inner, ⟨hcompletes, hread, hfound⟩, rfl⟩
    exact ⟨.index hindex hcompletes, (read?_index hindex ..).trans hread, hfound⟩

theorem reads_each_iff (hpath : path.head?.bind Text.index? = none)
    (hlimit : (Value.collection items).Indexable) :
    (Value.collection items).Reads path reading ↔
      ∃ i < items.length, ∃ inner, (items[i]?.getD .unset).Reads path inner ∧
        inner.inside i = reading := by
  constructor
  · rintro ⟨hcompletes, hread, hfound⟩
    obtain ⟨inserted, whole, found⟩ := reading
    cases hcompletes with
    | index hindex =>
      rw [List.head?_cons, Option.bind_some, hindex] at hpath
      cases hpath
    | @insert _ _ whole i inserted _ hi hcompletes =>
      dsimp only at hread
      rw [read?_index (Text.index?_indexText hi)] at hread
      refine ⟨i, ?_, ⟨inserted, whole, found⟩, ⟨hcompletes, hread, hfound⟩, rfl⟩
      -- behind the last element nothing is read
      apply Classical.byContradiction
      intro hge
      rw [List.getElem?_eq_none (Nat.le_of_not_lt hge)] at hread
      rw [Option.getD_none, read?_unset] at hread
      cases hread
  · rintro ⟨i, hi, inner, ⟨hcompletes, hread, hfound⟩, rfl⟩
    have hindex := Text.index?_indexText (hlimit [] i hi)
    exact ⟨.insert hpath (hlimit [] i hi) hcompletes, (read?_index hindex ..).trans hread, hfound⟩

/-! ## All readings in order -/

theorem isReadings_nil {value : Value} (h : ∀ reading, ¬value.Reads path reading) :
    value.IsReadings path [] where
  mem_iff reading := by simp [h reading]
  sorted := .nil

theorem isReadings_singleton {value : Value}
    (h : ∀ other, value.Reads path other ↔ other = reading) :
    value.IsReadings path [reading] where
  mem_iff other := by rw [List.mem_singleton, h]
  sorted := List.pairwise_singleton _ _

theorem IsReadings.behind {value inner : Value} {readings : List Reading} {segment : String}
    (h : inner.IsReadings rest readings)
    (hreads : ∀ reading, value.Reads path reading ↔
      ∃ other, inner.Reads rest other ∧ other.behind segment = reading) :
    value.IsReadings path (readings.map (Reading.behind segment)) where
  mem_iff reading := by
    rw [List.mem_map, hreads]
    simp only [h.mem_iff]
  sorted := List.pairwise_map.2 h.sorted

theorem isReadings_each {readings : Nat → List Reading}
    (hpath : path.head?.bind Text.index? = none) (hlimit : (Value.collection items).Indexable)
    (h : ∀ i, (items[i]?.getD Value.unset).IsReadings path (readings i)) :
    (Value.collection items).IsReadings path
      ((List.range items.length).flatMap fun i => (readings i).map (Reading.inside i)) where
  mem_iff reading := by
    rw [reads_each_iff hpath hlimit]
    simp only [List.mem_flatMap, List.mem_range, List.mem_map, (h _).mem_iff]
  sorted := by
    rw [List.pairwise_flatMap]
    constructor
    · intro i _
      rw [List.pairwise_map]
      exact (h i).sorted.imp fun hlt => List.cons_lt_cons_iff.2 (.inr ⟨rfl, hlt⟩)
    · refine List.pairwise_lt_range.imp ?_
      intro i j hij front hfront back hback
      obtain ⟨_, _, rfl⟩ := List.mem_map.1 hfront
      obtain ⟨_, _, rfl⟩ := List.mem_map.1 hback
      exact List.cons_lt_cons_iff.2 (.inl hij)

theorem exists_readings {value : Value} (h : value.Indexable) (path : Path) :
    ∃ readings, value.IsReadings path readings ∧
      readings.map (·.found) = value.reach path := by
  induction value using part_induction generalizing path with
  | h value ih =>
    -- an unset part is read nowhere, and any other part is smaller
    have hpart : ∀ step path, ∃ readings, (value.part step).IsReadings path readings ∧
        readings.map (·.found) = (value.part step).reach path := by
      intro step path
      by_cases hset : value.part step = .unset
      · rw [hset]
        exact ⟨[], isReadings_nil fun _ => not_reads_unset, rfl⟩
      · exact ih step hset (h.part step) path
    clear ih
    cases value with
    | unset => exact ⟨[], isReadings_nil fun _ => not_reads_unset, rfl⟩
    | scalar s =>
      by_cases hpath : path = []
      · refine ⟨[⟨[], [], .scalar s⟩], isReadings_singleton ?_, ?_⟩
        · intro other
          exact reads_scalar_iff.trans (and_iff_right hpath)
        · rw [reach, if_pos hpath]
          rfl
      · refine ⟨[], isReadings_nil fun _ hread => hpath (reads_scalar_iff.1 hread).1, ?_⟩
        rw [reach, if_neg hpath]
        rfl
    | nested record =>
      cases path with
      | nil => exact ⟨_, isReadings_singleton fun _ => reads_nested_nil_iff, rfl⟩
      | cons name rest =>
        obtain ⟨step, hstep⟩ := getD_slot?_eq_part record name
        obtain ⟨readings, hreadings, hreach⟩ := hpart step rest
        rw [hstep] at hreadings hreach
        refine ⟨_, hreadings.behind fun _ => reads_name_iff, ?_⟩
        rw [reach_name, ← hreach, List.map_map]
        rfl
    | collection items =>
      cases hpath : path.head?.bind Text.index? with
      | some i =>
        obtain ⟨index, hhead, hindex⟩ := Option.bind_eq_some_iff.1 hpath
        obtain ⟨rest, rfl⟩ := List.head?_eq_some_iff.1 hhead
        obtain ⟨readings, hreadings, hreach⟩ := hpart (.item i) rest
        refine ⟨_, hreadings.behind fun _ => reads_index_iff hindex, ?_⟩
        rw [reach_index hindex, List.map_map]
        exact hreach
      | none =>
        choose readings hreadings hreach using fun i => hpart (.item i) path
        refine ⟨_, isReadings_each hpath h hreadings, ?_⟩
        rw [reach_each hpath, List.map_flatMap]
        apply List.flatMap_congr
        intro i _
        rw [List.map_map]
        exact hreach i

/-! ## Completed paths -/

namespace Completes

theorem trim_eq {value : Value} {inserted : List Nat} {whole : Path}
    (h : value.Completes path inserted whole)
    (hpath : ∀ segment ∈ path, Text.trim segment = segment) :
    ∀ segment ∈ whole, Text.trim segment = segment := by
  induction h with
  | unset => exact hpath
  | scalar => exact hpath
  | nested => exact hpath
  | name _ ih =>
    rw [List.forall_mem_cons] at hpath ⊢
    exact ⟨hpath.1, ih hpath.2⟩
  | index _ _ ih =>
    rw [List.forall_mem_cons] at hpath ⊢
    exact ⟨hpath.1, ih hpath.2⟩
  | insert _ _ _ ih =>
    rw [List.forall_mem_cons]
    exact ⟨Text.trim_indexText _, ih hpath⟩

theorem ne_nil {value : Value} {inserted : List Nat} {whole : Path}
    (h : value.Completes path inserted whole) (hpath : path ≠ []) : whole ≠ [] := by
  cases h with
  | unset => exact hpath
  | scalar => exact hpath
  | nested => exact hpath
  | name => exact List.cons_ne_nil _ _
  | index => exact List.cons_ne_nil _ _
  | insert => exact List.cons_ne_nil _ _

theorem ofSegments_eq {value : Value} {inserted : List Nat} {whole : Path}
    (h : value.Completes path inserted whole)
    (hpath : ∀ segment ∈ path, Text.trim segment = segment) : Path.ofSegments whole = whole := by
  have htrim := h.trim_eq hpath
  exact (List.map_congr_left htrim).trans (List.map_id whole)

theorem inserted_eq {value : Value} {inserted other : List Nat} {whole : Path}
    (h : value.Completes path inserted whole) (hother : value.Completes path other whole) :
    inserted = other := by
  induction h generalizing other with
  | unset =>
    cases hother
    rfl
  | scalar =>
    cases hother
    rfl
  | nested =>
    cases hother
    rfl
  | name _ ih =>
    cases hother with
    | name hother => exact ih hother
  | index hindex _ ih =>
    cases hother with
    | index hsame hother =>
      rw [hindex, Option.some.injEq] at hsame
      subst hsame
      exact ih hother
    | insert hpath =>
      rw [List.head?_cons, Option.bind_some, hindex] at hpath
      cases hpath
  | @insert items path whole i inserted hpath hi _ ih =>
    generalize hwhole : indexText i :: whole = put at hother
    cases hother with
    | index hindex =>
      rw [List.head?_cons, Option.bind_some, hindex] at hpath
      cases hpath
    | @insert _ _ _ j _ _ hj hother =>
      obtain ⟨hlabel, rfl⟩ := List.cons.inj hwhole
      have hij := Text.index?_indexText hi
      rw [hlabel, Text.index?_indexText hj, Option.some.injEq] at hij
      subst hij
      rw [ih hother]

end Completes

theorem IsReadings.nodup_paths {value : Value} {readings : List Reading}
    (h : value.IsReadings path readings) : (readings.map (·.path)).Nodup := by
  apply List.pairwise_map.2
  refine h.sorted.imp_of_mem ?_
  intro front back hfront hback hlt heq
  have hsame := ((h.mem_iff front).1 hfront).completes
  rw [heq] at hsame
  rw [hsame.inserted_eq ((h.mem_iff back).1 hback).completes] at hlt
  exact List.lt_irrefl _ hlt

end Value

namespace Record

theorem reach_eq (record : Record) {path : Path} (hpath : path ≠ []) :
    record.reach path = (Value.nested record).reach path := by
  cases path with
  | nil => exact absurd rfl hpath
  | cons name rest => rfl

theorem read?_eq (record : Record) {path : Path} (hpath : path ≠ []) :
    record.read? path = (Value.nested record).read? path := by
  cases path with
  | nil => exact absurd rfl hpath
  | cons name rest => rfl

/--
A walk to a target visits what the completions of its segments read, apart from collections: each
of these values once, in the lexicographic order of the indices that were put in. Every record
that writes and imports make of an empty one has an index for each element.
-/
theorem walk_readings (record : Record) (target : Target) :
    (∀ type, record.Reached type → (Value.nested record).Indexable) ∧
      ((Value.nested record).Indexable → ∃ readings : List Reading,
        (∀ reading, reading ∈ readings ↔
          (Value.nested record).Completes target.segments reading.inserted reading.path ∧
            record.read? (Path.ofSegments reading.path) = some reading.found ∧
            ∀ items, reading.found ≠ .collection items) ∧
        readings.Pairwise (fun front back => front.inserted < back.inserted) ∧
        (readings.map (·.path)).Nodup ∧
        record.reach target.segments = readings.map (·.found) ∧
        ∀ {σ ε : Type} (visit : σ → Value → Except ε σ) (state : σ),
          record.walk visit target.segments state =
            (readings.map (·.found)).foldlM visit state) := by
  refine ⟨fun _ => Reached.indexable, ?_⟩
  intro hindexable
  obtain ⟨readings, hreadings, hfound⟩ := Value.exists_readings hindexable target.segments
  have hne := target.segments_ne_nil
  have hreach : record.reach target.segments = readings.map (·.found) := by
    rw [record.reach_eq hne, hfound]
  refine ⟨readings, ?_, hreadings.sorted, hreadings.nodup_paths, hreach, ?_⟩
  · intro reading
    have hread (h : (Value.nested record).Completes target.segments reading.inserted reading.path) :
        record.read? (Path.ofSegments reading.path) = (Value.nested record).read? reading.path := by
      rw [h.ofSegments_eq fun _ => target.trim_of_mem_segments, record.read?_eq]
      intro hnil
      rw [hnil] at h
      exact h.ne_nil hne rfl
    rw [hreadings.mem_iff]
    constructor
    · rintro ⟨hcompletes, hget, hset⟩
      exact ⟨hcompletes, (hread hcompletes).trans hget, hset⟩
    · rintro ⟨hcompletes, hget, hset⟩
      exact ⟨hcompletes, (hread hcompletes).symm.trans hget, hset⟩
  · intro σ ε visit state
    rw [record.walk_eq_foldlM, hreach]

theorem walk_readings_grid :
    let type : RecordType := ⟨"Row", [⟨"grid", .collection (.collection (.primitive .int))⟩]⟩
    let record := (Record.empty type).run
      [.write ["grid", "0", "0"] (.int 1), .write ["grid", "0", "1"] (.int 2),
        .write ["grid", "1", "0"] (.int 3), .write ["grid", "2", "1"] (.int 4)]
    let target : Target := ⟨"Rows", "grid", ["grid"], rfl⟩
    record.Reached type ∧ (Value.nested record).Indexable ∧
      ∃ readings : List Reading,
        (∀ reading, reading ∈ readings ↔
          (Value.nested record).Completes target.segments reading.inserted reading.path ∧
            record.read? (Path.ofSegments reading.path) = some reading.found ∧
            ∀ items, reading.found ≠ .collection items) ∧
        readings.Pairwise (fun front back => front.inserted < back.inserted) ∧
        readings.map (·.found) = [.scalar (.int 1), .scalar (.int 2), .scalar (.int 3)] := by
  intro type record target
  have hreached : record.Reached type := ⟨_, rfl⟩
  obtain ⟨hindexable, hreadings⟩ := walk_readings record target
  obtain ⟨readings, hmem, hsorted, _, hreach, _⟩ := hreadings (hindexable type hreached)
  refine ⟨hreached, hindexable type hreached, readings, hmem, hsorted, ?_⟩
  have hsegments : target.segments = ["grid"] := by decide +kernel
  rw [← hreach, hsegments]
  rfl

end Record

end RowTree
