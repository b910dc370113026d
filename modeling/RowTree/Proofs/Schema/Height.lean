import RowTree.Proofs.Schema.Declared
import Mathlib.Order.Lattice.Nat
import Mathlib.Data.Set.Finite.Basic

/-!
This module contains the graph of objects that contain each other, seen from the declarations
alone. An object has a height if every way down from it ends; the others are those from which a
cycle is reached (`exists_settles_iff`). The height of an object is one more than the greatest
height of its parts (`height_eq`).
-/

namespace RowTree

open Relation

def greatest (numbers : List Nat) : Nat :=
  numbers.foldr max 0

theorem greatest_le_iff {numbers : List Nat} {bound : Nat} :
    greatest numbers ≤ bound ↔ ∀ n ∈ numbers, n ≤ bound := by
  induction numbers with
  | nil => simp [greatest]
  | cons n rest ih =>
    rw [List.forall_mem_cons, ← ih]
    exact max_le_iff

theorem le_greatest {numbers : List Nat} {n : Nat} (h : n ∈ numbers) : n ≤ greatest numbers :=
  greatest_le_iff.1 (Nat.le_refl _) n h

namespace Schema

def parts (schema : Schema) (object : ObjectDecl) : List ObjectDecl :=
  schema.objects.filter fun part =>
    object.members.any fun member => schema.memberType? object member == some part.name

def Contains (schema : Schema) (object part : ObjectDecl) : Prop :=
  object ∈ schema.objects ∧ part ∈ schema.parts object

/--
No object contains itself, directly or through others.
-/
def Acyclic (schema : Schema) : Prop :=
  ∀ object, ¬TransGen schema.Contains object object

/--
Some way down from the object leads to an object that contains itself.
-/
def ReachesCycle (schema : Schema) (object : ObjectDecl) : Prop :=
  ∃ knot, ReflTransGen schema.Contains object knot ∧ TransGen schema.Contains knot knot

/--
No way down from the object has more than this many objects on it.
-/
def settles (schema : Schema) : Nat → ObjectDecl → Bool
  | 0, _ => false
  | limit + 1, object => (schema.parts object).all (schema.settles limit)

/--
How many objects are on the longest way down from the object.
-/
noncomputable def height (schema : Schema) (object : ObjectDecl) : Nat :=
  sInf { limit | schema.settles limit object = true }

variable {schema : Schema} {object part : ObjectDecl}

theorem mem_parts_iff :
    part ∈ schema.parts object ↔
      part ∈ schema.objects ∧
        ∃ member ∈ object.members, schema.memberType? object member = some part.name := by
  unfold parts
  simp

theorem settles_succ_iff {limit : Nat} :
    schema.settles (limit + 1) object = true ↔
      ∀ part ∈ schema.parts object, schema.settles limit part = true := by
  rw [settles, List.all_eq_true]

/-! ## Cycles -/

theorem ReachesCycle.of_contains (hcontains : schema.Contains object part)
    (h : schema.ReachesCycle part) : schema.ReachesCycle object := by
  obtain ⟨knot, hway, hknot⟩ := h
  exact ⟨knot, .head hcontains hway, hknot⟩

theorem ReachesCycle.exists_part (h : schema.ReachesCycle object) :
    ∃ part ∈ schema.parts object, schema.ReachesCycle part := by
  obtain ⟨knot, hway, hknot⟩ := h
  rcases hway.cases_head with rfl | ⟨part, hcontains, hrest⟩
  · obtain ⟨part, hcontains, hrest⟩ := TransGen.head'_iff.1 hknot
    exact ⟨part, hcontains.2, object, hrest, hknot⟩
  · exact ⟨part, hcontains.2, knot, hrest, hknot⟩

theorem acyclic_iff :
    schema.Acyclic ↔ ∀ object ∈ schema.objects, ¬schema.ReachesCycle object := by
  constructor
  · intro h object _ ⟨knot, _, hknot⟩
    exact h knot hknot
  · intro h object hcycle
    obtain ⟨part, hcontains, _⟩ := TransGen.head'_iff.1 hcycle
    exact h object hcontains.1 ⟨object, .refl, hcycle⟩

/--
The objects from which no cycle is reached.
-/
abbrev Tree (schema : Schema) : Type :=
  { object // object ∈ schema.objects ∧ ¬schema.ReachesCycle object }

/--
The part is below the object, at any depth.
-/
def Tree.Below (part object : schema.Tree) : Prop :=
  TransGen schema.Contains object.1 part.1

theorem Tree.wellFounded_below (schema : Schema) : WellFounded (@Tree.Below schema) := by
  -- trees are finitely many, and no way down from one leads back to it
  have hfinite : Finite schema.Tree :=
    (schema.objects.finite_toSet.subset fun _ h => h.1).to_subtype
  have htrans : IsTrans schema.Tree Tree.Below := ⟨fun _ _ _ hleft hright => hright.trans hleft⟩
  have hirrefl : Std.Irrefl (@Tree.Below schema) :=
    ⟨fun object hcycle => object.2.2 ⟨object, .refl, hcycle⟩⟩
  apply Finite.wellFounded_of_trans_of_irrefl

/-! ## Limits -/

theorem settles_mono {limit larger : Nat} (hle : limit ≤ larger)
    (h : schema.settles limit object = true) : schema.settles larger object = true := by
  induction limit generalizing larger object with
  | zero => cases h
  | succ limit ih =>
    obtain ⟨rest, rfl⟩ := Nat.exists_eq_add_of_le' hle
    rw [← Nat.add_assoc, settles_succ_iff]
    intro part hpart
    exact ih (by omega) (settles_succ_iff.1 h part hpart)

theorem not_reachesCycle_of_settles {limit : Nat} (h : schema.settles limit object = true) :
    ¬schema.ReachesCycle object := by
  induction limit generalizing object with
  | zero => cases h
  | succ limit ih =>
    intro hcycle
    obtain ⟨part, hpart, hrest⟩ := hcycle.exists_part
    exact ih (settles_succ_iff.1 h part hpart) hrest

theorem exists_common_limit {objects : List ObjectDecl}
    (h : ∀ object ∈ objects, ∃ limit, schema.settles limit object = true) :
    ∃ limit, ∀ object ∈ objects, schema.settles limit object = true := by
  induction objects with
  | nil => exact ⟨0, nofun⟩
  | cons object rest ih =>
    rw [List.forall_mem_cons] at h
    obtain ⟨first, hfirst⟩ := h.1
    obtain ⟨others, hothers⟩ := ih h.2
    refine ⟨first + others, ?_⟩
    rw [List.forall_mem_cons]
    exact ⟨settles_mono (by omega) hfirst,
      fun part hpart => settles_mono (by omega) (hothers part hpart)⟩

theorem exists_settles_iff (hobject : object ∈ schema.objects) :
    (∃ limit, schema.settles limit object = true) ↔ ¬schema.ReachesCycle object := by
  constructor
  · rintro ⟨limit, h⟩
    exact not_reachesCycle_of_settles h
  · intro h
    obtain ⟨tree, rfl⟩ : ∃ tree : schema.Tree, tree.1 = object := ⟨⟨object, hobject, h⟩, rfl⟩
    -- a part of a tree is a tree below it
    induction tree using (Tree.wellFounded_below schema).induction with
    | h object ih =>
      have hparts : ∀ part ∈ schema.parts object, ∃ limit, schema.settles limit part = true := by
        intro part hpart
        have hcontains : schema.Contains object part := ⟨hobject, hpart⟩
        have hmem := (mem_parts_iff.1 hpart).1
        have hclear : ¬schema.ReachesCycle part := fun hcycle => h (.of_contains hcontains hcycle)
        exact ih ⟨part, hmem, hclear⟩ (.single hcontains) hmem hclear
      obtain ⟨limit, hlimit⟩ := exists_common_limit hparts
      exact ⟨limit + 1, settles_succ_iff.2 hlimit⟩

/-! ## Heights -/

theorem settles_iff_height_le (hobject : object ∈ schema.objects)
    (hclear : ¬schema.ReachesCycle object) {limit : Nat} :
    schema.settles limit object = true ↔ schema.height object ≤ limit := by
  have hset := (exists_settles_iff hobject).2 hclear
  constructor
  · intro h
    exact Nat.sInf_le h
  · intro h
    exact settles_mono h (Nat.sInf_mem hset)

theorem height_pos (hobject : object ∈ schema.objects) (hclear : ¬schema.ReachesCycle object) :
    0 < schema.height object := by
  apply Nat.pos_of_ne_zero
  intro hzero
  have h : schema.settles 0 object = true := by
    rw [settles_iff_height_le hobject hclear]
    omega
  cases h

theorem height_eq_of_settles (hobject : object ∈ schema.objects) {limit : Nat}
    (h : schema.settles (limit + 1) object = true) (hlater : schema.settles limit object = false) :
    schema.height object = limit + 1 := by
  have hclear := not_reachesCycle_of_settles h
  rw [← Bool.not_eq_true] at hlater
  rw [settles_iff_height_le hobject hclear] at h hlater
  omega

theorem height_eq (hobject : object ∈ schema.objects) (hclear : ¬schema.ReachesCycle object) :
    schema.height object = 1 + greatest ((schema.parts object).map schema.height) := by
  have hpos := height_pos hobject hclear
  -- both sides have the same upper bounds
  have hiff : ∀ limit, schema.height object ≤ limit + 1 ↔
      greatest ((schema.parts object).map schema.height) ≤ limit := by
    intro limit
    rw [← settles_iff_height_le hobject hclear, settles_succ_iff, greatest_le_iff,
      List.forall_mem_map]
    apply forall₂_congr
    intro part hpart
    apply settles_iff_height_le (mem_parts_iff.1 hpart).1
    exact fun hcycle => hclear (.of_contains ⟨hobject, hpart⟩ hcycle)
  have hle := (hiff (schema.height object - 1)).1 (by omega)
  have hge := (hiff (greatest ((schema.parts object).map schema.height))).2 (Nat.le_refl _)
  omega

end Schema

end RowTree
