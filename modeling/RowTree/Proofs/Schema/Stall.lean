import RowTree.Proofs.Schema.Outcome
import Mathlib.Data.List.Find

/-!
This module contains what a build reports when it stops with objects left: which objects these are,
the member that each of them waits for, and the number of passes, all told from the declarations
(`StallReport`).
-/

namespace RowTree

namespace Schema

open Classical in
/--
The objects from which a cycle is reached, in the order of their declarations.
-/
noncomputable def entangled (schema : Schema) : List ObjectDecl :=
  schema.objects.filter fun object => schema.ReachesCycle object

open Classical in
noncomputable def buildable (schema : Schema) : List ObjectDecl :=
  schema.objects.filter fun object => ¬schema.ReachesCycle object

/--
The report on objects that cannot be built. Each of them is named with its first member whose type
cannot be built either. The passes are those that built something, one for each height there is,
and the one that built nothing.
-/
structure StallReport (schema : Schema) (unresolved culprits : List String) (passes : Nat) :
    Prop where
  unresolved_eq : unresolved = schema.entangled.map (·.name)
  length_culprits : culprits.length = unresolved.length
  culprits_eq : culprits.map some = schema.entangled.map fun object =>
    (object.members.find? fun member =>
      (schema.memberType? object member).any fun typeName => unresolved.contains typeName).map
        fun member => schema.name ++ "." ++ (object.name ++ "." ++ object.shortName member)
  passes_eq : passes = 1 + greatest (schema.buildable.map schema.height)
  passes_le : passes ≤ schema.objects.length

variable {schema : Schema} {registry : Registry} {object : ObjectDecl} {passes : Nat}
variable {pending : List ObjectDecl}

theorem mem_buildable_iff :
    object ∈ schema.buildable ↔ object ∈ schema.objects ∧ ¬schema.ReachesCycle object := by
  simp only [buildable, List.mem_filter, decide_eq_true_eq]

/-! ## Passes and heights -/

theorem Loop.exists_height_eq (h : schema.Loop passes registry pending)
    (hdeclared : schema.WellDeclared) (hpos : 0 < passes) :
    ∃ object ∈ schema.buildable, schema.height object = passes := by
  cases h with
  | start => omega
  | @next passes registry _ pending before hready _ =>
    have hnames := (before.progress hdeclared).names_ready hdeclared
    -- the pass built something, and what it built is of its own height
    obtain ⟨type, htype⟩ := List.exists_mem_of_ne_nil _ hready
    have hname := List.mem_map_of_mem (f := (·.name)) htype
    rw [hnames, List.mem_map] at hname
    obtain ⟨object, hobject, _⟩ := hname
    rw [List.mem_filter, Bool.and_eq_true, Bool.not_eq_true'] at hobject
    obtain ⟨hmem, hsettles, hlater⟩ := hobject
    have hclear := not_reachesCycle_of_settles hsettles
    exact ⟨object, mem_buildable_iff.2 ⟨hmem, hclear⟩, height_eq_of_settles hmem hsettles hlater⟩

theorem Loop.passes_eq_of_stalled (h : schema.Loop passes registry pending)
    (hdeclared : schema.WellDeclared) (hready : (schema.pass registry pending).ready = []) :
    passes = greatest (schema.buildable.map schema.height) := by
  apply Nat.le_antisymm
  · rcases Nat.eq_zero_or_pos passes with hzero | hpos
    · omega
    · obtain ⟨object, hobject, hheight⟩ := h.exists_height_eq hdeclared hpos
      apply le_greatest
      rw [← hheight]
      exact List.mem_map_of_mem hobject
  · rw [greatest_le_iff, List.forall_mem_map]
    intro object hobject
    obtain ⟨hmem, hclear⟩ := mem_buildable_iff.1 hobject
    rw [← settles_iff_height_le hmem hclear]
    exact ((h.progress hdeclared).settles_iff hdeclared hready hmem).2 hclear

/-! ## What is left, and what it waits for -/

theorem Progress.pending_eq_entangled (h : schema.Progress passes registry pending)
    (hdeclared : schema.WellDeclared) (hready : (schema.pass registry pending).ready = []) :
    pending = schema.entangled := by
  rw [h.pending_eq]
  unfold entangled
  apply List.filter_congr
  intro object hobject
  have hsettles := h.settles_iff hdeclared hready hobject
  cases hlimit : schema.settles passes object <;> simp_all

theorem isSome_waitsFor?_of_ready_eq_nil (hready : (schema.pass registry pending).ready = [])
    (hobject : object ∈ pending) : (schema.waitsFor? registry object).isSome = true := by
  have hnames := @names_ready_pass schema registry pending
  rw [hready, List.map_nil, eq_comm, List.map_eq_nil_iff, List.filter_eq_nil_iff] at hnames
  rw [← Option.not_isNone, Bool.not_eq_true', ← Bool.not_eq_true]
  exact hnames object hobject

theorem culprits_of_ready_eq_nil (hready : (schema.pass registry pending).ready = []) :
    ((schema.pass registry pending).blocked.map (·.2)).map some =
      pending.map fun object =>
        (schema.waitsFor? registry object).map (schema.memberName object) := by
  have hculprits : (schema.pass registry pending).blocked.map (·.2) =
      pending.filterMap fun object =>
        (schema.waitsFor? registry object).map (schema.memberName object) := by
    rw [blocked_pass, List.map_filterMap]
    simp only [Option.map_map, Function.comp_def]
  rw [hculprits, List.map_filterMap_some_eq_filter_map_isSome, List.filter_eq_self]
  intro culprit hculprit
  obtain ⟨object, hobject, rfl⟩ := List.mem_map.1 hculprit
  rw [Option.isSome_map]
  exact isSome_waitsFor?_of_ready_eq_nil hready hobject

theorem Progress.not_knows_eq (h : schema.Progress passes registry pending)
    (hdeclared : schema.WellDeclared) (hobject : object ∈ schema.objects) {member : String}
    (hmember : member ∈ object.members) :
    (!schema.knows registry object member) =
      (schema.memberType? object member).any fun typeName =>
        (pending.map (·.name)).contains typeName := by
  have hknows := h.knows_iff hdeclared hobject hmember
  have hpending : ∀ part, part ∈ pending ↔
      part ∈ schema.objects ∧ schema.settles passes part = false := by
    intro part
    rw [h.pending_eq, List.mem_filter, Bool.not_eq_true']
  rw [Bool.eq_iff_iff, Bool.not_eq_true', ← Bool.not_eq_true, hknows, Option.any_eq_true]
  constructor
  · intro hsome
    rw [Classical.not_forall] at hsome
    obtain ⟨part, hpart⟩ := hsome
    simp only [Classical.not_imp, Bool.not_eq_true] at hpart
    obtain ⟨hmem, htype, hlater⟩ := hpart
    refine ⟨part.name, htype, ?_⟩
    rw [List.contains_iff_mem, List.mem_map]
    exact ⟨part, (hpending part).2 ⟨hmem, hlater⟩, rfl⟩
  · rintro ⟨typeName, htype, hleft⟩ hall
    rw [List.contains_iff_mem, List.mem_map] at hleft
    obtain ⟨part, hpart, rfl⟩ := hleft
    obtain ⟨hmem, hlater⟩ := (hpending part).1 hpart
    rw [hall part hmem htype] at hlater
    cases hlater

theorem Loop.stallReport (h : schema.Loop passes registry pending)
    (hdeclared : schema.WellDeclared) (hpending : pending ≠ [])
    (hready : (schema.pass registry pending).ready = []) :
    schema.StallReport ((schema.pass registry pending).blocked.map (·.1.name))
      ((schema.pass registry pending).blocked.map (·.2)) (passes + 1) := by
  have hprogress := h.progress hdeclared
  have hleft := hprogress.pending_eq_entangled hdeclared hready
  have hnames : (schema.pass registry pending).blocked.map (·.1.name) = pending.map (·.name) := by
    have hobjects := @blocked_pass_objects schema registry pending
    rw [List.filter_eq_self.2 fun object => isSome_waitsFor?_of_ready_eq_nil hready] at hobjects
    have hmap := congrArg (List.map (·.name)) hobjects
    rw [List.map_map] at hmap
    exact hmap
  refine ⟨?_, ?_, ?_, ?_, ?_⟩
  · rw [hnames, hleft]
  · rw [List.length_map, List.length_map]
  · rw [culprits_of_ready_eq_nil hready, hnames, ← hleft]
    apply List.map_congr_left
    intro object hobject
    have hmem := ((hprogress.mem_pending_iff hdeclared hready).1 hobject).1
    unfold waitsFor?
    rw [List.find?_congr fun member => hprogress.not_knows_eq hdeclared hmem]
    rfl
  · have := h.passes_eq_of_stalled hdeclared hready
    omega
  · exact (Ends.stalled h hpending hready).passes_le

/--
A build that stops with objects left reports the objects from which a cycle is reached, in the order
of their declarations, with what they wait for and one pass more than the greatest height of the
others. For any declarations, there are at most as many passes as there are objects.
-/
theorem stallReport_of_build (schema : Schema) :
    (∀ table unresolved culprits passes,
      schema.build = .error (.dependency table unresolved culprits passes) →
        table = schema.name ∧ schema.StallReport unresolved culprits passes) ∧
    (∀ object ∈ schema.objects, ¬schema.ReachesCycle object →
      schema.height object = 1 + greatest ((schema.parts object).map schema.height)) ∧
    ∃ passes ≤ schema.objects.length,
      schema.Ends passes (schema.buildObjects .empty 0 schema.objects) := by
  refine ⟨?_, fun object => height_eq, ?_⟩
  · intro table unresolved culprits passes hbuild
    have houtcome := schema.outcome_build
    generalize schema.build = result at hbuild houtcome
    cases houtcome with
    | refused hcheck =>
      rw [Except.error.injEq] at hbuild
      rw [hbuild] at hcheck
      exact absurd hcheck check_ne_dependency
    | stalled hdeclared last hpending hready =>
      rw [Except.error.injEq, SchemaError.dependency.injEq] at hbuild
      obtain ⟨rfl, rfl, rfl, rfl⟩ := hbuild
      exact ⟨rfl, last.stallReport hdeclared hpending hready⟩
    | rooted _ _ _ => exact absurd hbuild Registry.map_register_ne_dependency
  · obtain ⟨passes, hends⟩ := (@Loop.start schema).exists_ends
    exact ⟨passes, hends.passes_le, hends⟩

/--
Two objects in a chain, and two behind them that contain each other, one of them through a
collection.
-/
def ringBehindChain : Schema where
  name := "order"
  columns := [⟨"first", "Ring", false⟩]
  objectFields := [⟨"Leaf.size", "int", false⟩, ⟨"Link.leaf", "Leaf", true⟩,
    ⟨"Ring.link", "Link", false⟩, ⟨"Ring.knot", "Knot", false⟩, ⟨"Knot.ring", "Ring", true⟩]
  objects := [⟨"Ring", ["link", "Ring.knot"]⟩, ⟨"Link", ["leaf"]⟩, ⟨"Leaf", ["size"]⟩,
    ⟨"Knot", ["ring"]⟩]

theorem ringBehindChain_stallReport :
    ringBehindChain.build = .error (.dependency "order" ["Ring", "Knot"]
      ["order.Ring.knot", "order.Knot.ring"] 3) ∧
    ringBehindChain.StallReport ["Ring", "Knot"] ["order.Ring.knot", "order.Knot.ring"] 3 := by
  have herror : (match ringBehindChain.build with
      | .ok _ => none
      | .error error => some error) =
        some (.dependency "order" ["Ring", "Knot"] ["order.Ring.knot", "order.Knot.ring"] 3) := by
    decide +kernel
  have hbuild : ringBehindChain.build = .error (.dependency "order" ["Ring", "Knot"]
      ["order.Ring.knot", "order.Knot.ring"] 3) := by
    split at herror
    · cases herror
    · next hbuild =>
      rw [hbuild, Option.some.inj herror]
  exact ⟨hbuild, ((stallReport_of_build ringBehindChain).1 _ _ _ _ hbuild).2⟩

end Schema

end RowTree
