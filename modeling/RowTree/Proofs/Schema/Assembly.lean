import RowTree.Proofs.Schema.Outcome
import RowTree.Proofs.Schema.Registration
import Mathlib.Data.List.Forall2

/-!
This module contains how the types of a table are put together. A registry is assembled if each
type in it belongs to an object and has the fields of its members, with kinds that come from the
types in front of it. Every pass leaves an assembled registry (`Loop.assembled`), and what a name
stands for there does not change with what is registered later (`Registry.within_append`).
-/

namespace RowTree

/--
The field has the name and takes what the declared type stands for in the registry.
-/
structure Registry.Makes (registry : Registry) (name : String) (decl : FieldDecl) (field : Field) :
    Prop where
  name_eq : field.name = name
  kind?_eq : registry.kind? decl.typeName decl.isCollection = some field.kind

theorem Registry.Within.makes {registry larger : Registry} (h : registry.Within larger)
    {name : String} {decl : FieldDecl} {field : Field} (hmakes : registry.Makes name decl field) :
    larger.Makes name decl field :=
  ⟨hmakes.name_eq, h.kind? hmakes.kind?_eq⟩

namespace Schema

variable {schema : Schema} {registry larger : Registry} {object : ObjectDecl}

def MakesMember (schema : Schema) (registry : Registry) (object : ObjectDecl) (member : String)
    (field : Field) : Prop :=
  ∃ decl, schema.objectField? (object.fullName member) = some decl ∧
    registry.Makes (object.shortName member) decl field

theorem MakesMember.name_eq {member : String} {field : Field}
    (h : schema.MakesMember registry object member field) :
    field.name = object.shortName member := by
  obtain ⟨_, _, hmakes⟩ := h
  exact hmakes.name_eq

/--
Each type is that of a declared object, with fields made from the types in front of it.
-/
def Assembled (schema : Schema) (registry : Registry) : Prop :=
  ∀ front entry back, registry.records = front ++ entry :: back →
    ∃ object ∈ schema.objects, entry.1 = object.name ∧ entry.2.name = object.name ∧
      List.Forall₂ (schema.MakesMember ⟨front⟩ object) object.members entry.2.fields

/-! ## Fields -/

theorem memberFields_eq_ok_iff {members : List String} {fields : List Field} :
    schema.memberFields registry object members = .ok fields ↔
      List.Forall₂ (schema.MakesMember registry object) members fields := by
  induction members generalizing fields with
  | nil =>
    unfold memberFields
    rw [List.forall₂_nil_left_iff, Except.ok.injEq, eq_comm]
  | cons member rest ih =>
    unfold memberFields
    rw [List.forall₂_cons_left_iff]
    simp only [← ih]
    constructor
    · intro h
      split at h
      · cases h
      · next kind hkind =>
        obtain ⟨decl, hdecl, hkind⟩ := Option.bind_eq_some_iff.1 hkind
        cases hrest : schema.memberFields registry object rest with
        | error culprit =>
          rw [hrest] at h
          cases h
        | ok others =>
          rw [hrest] at h
          cases h
          exact ⟨_, others, ⟨decl, hdecl, rfl, hkind⟩, rfl, rfl⟩
    · rintro ⟨⟨name, kind⟩, others, ⟨decl, hdecl, hname, hkind⟩, hrest, rfl⟩
      rw [hdecl, Option.bind_some, hkind, hrest, ← hname]
      rfl

theorem columnFields_eq_ok_iff {columns : List FieldDecl} {fields : List Field} :
    schema.columnFields registry columns = .ok fields ↔
      List.Forall₂ (fun column => registry.Makes column.name column) columns fields := by
  induction columns generalizing fields with
  | nil =>
    unfold columnFields
    rw [List.forall₂_nil_left_iff, Except.ok.injEq, eq_comm]
  | cons column rest ih =>
    unfold columnFields
    rw [List.forall₂_cons_left_iff]
    simp only [← ih]
    constructor
    · intro h
      split at h
      · cases h
      · next kind hkind =>
        cases hrest : schema.columnFields registry rest with
        | error error =>
          rw [hrest] at h
          cases h
        | ok others =>
          rw [hrest] at h
          cases h
          exact ⟨_, others, ⟨rfl, hkind⟩, rfl, rfl⟩
    · rintro ⟨⟨name, kind⟩, others, ⟨hname, hkind⟩, hrest, rfl⟩
      rw [hkind, hrest, ← hname]
      rfl

theorem exists_of_mem_ready {pending : List ObjectDecl} {type : RecordType}
    (h : type ∈ (schema.pass registry pending).ready) :
    ∃ object ∈ pending, type.name = object.name ∧
      List.Forall₂ (schema.MakesMember registry object) object.members type.fields := by
  rw [ready_pass, List.mem_filterMap] at h
  obtain ⟨object, hobject, hbuilt⟩ := h
  cases hfields : schema.memberFields registry object object.members with
  | error culprit =>
    rw [hfields] at hbuilt
    cases hbuilt
  | ok fields =>
    rw [hfields] at hbuilt
    cases hbuilt
    exact ⟨object, hobject, rfl, memberFields_eq_ok_iff.1 hfields⟩

/-! ## The loop -/

theorem Loop.pending_subset {passes : Nat} {pending : List ObjectDecl}
    (h : schema.Loop passes registry pending) : pending ⊆ schema.objects := by
  induction h with
  | start => exact List.Subset.refl _
  | next _ _ _ ih =>
    rw [blocked_pass_objects]
    exact List.Subset.trans (List.filter_subset_self _) ih

theorem Loop.nodup_names {passes : Nat} {pending : List ObjectDecl}
    (h : schema.Loop passes registry pending) : registry.names.Nodup := by
  induction h with
  | start => exact Registry.nodup_names_empty
  | next _ _ hregister ih => exact Registry.nodup_names_of_registerAll hregister ih

/--
A pass adds types to an assembled registry whose members were known before it.
-/
theorem Assembled.registerAll {pending : List ObjectDecl} (h : schema.Assembled registry)
    (hpending : pending ⊆ schema.objects)
    (hregister : registry.registerAll (schema.pass registry pending).ready = .ok larger) :
    schema.Assembled larger := by
  intro front entry back hsplit
  rw [Registry.records_of_registerAll hregister] at hsplit
  rcases Registry.entry_of_append hsplit with ⟨rest, hrecords⟩ | ⟨rest, rfl, hready⟩
  · exact h front entry rest hrecords
  · have hentry : entry ∈ (schema.pass registry pending).ready.map
        fun type => (type.name, type) := by
      rw [hready]
      simp
    obtain ⟨type, htype, rfl⟩ := List.mem_map.1 hentry
    obtain ⟨object, hobject, hname, hmade⟩ := exists_of_mem_ready htype
    refine ⟨object, hpending hobject, hname, hname, hmade.imp ?_⟩
    rintro member field ⟨decl, hdecl, hmakes⟩
    exact ⟨decl, hdecl, (Registry.within_append registry.records rest).makes hmakes⟩

theorem Loop.assembled {passes : Nat} {pending : List ObjectDecl}
    (h : schema.Loop passes registry pending) : schema.Assembled registry := by
  induction h with
  | start =>
    intro front entry back hsplit
    simp [Registry.empty] at hsplit
  | next before _ hregister ih => exact ih.registerAll before.pending_subset hregister

/-! ## The end of a build -/

/--
A build that has come to its end: the types of the objects, and behind them that of the rows.
-/
structure Completed (schema : Schema) (passes : Nat) (objects : Registry) (root : RecordType)
    (registry : Registry) : Prop where
  declared : schema.WellDeclared
  last : schema.Loop passes objects []
  name_eq : root.name = schema.name
  fields : List.Forall₂ (fun column => objects.Makes column.name column) schema.columns root.fields
  registered : objects.register schema.name root = .ok registry

theorem exists_completed {root : RecordType} (h : schema.build = .ok (root, registry)) :
    ∃ passes objects, schema.Completed passes objects root registry := by
  have houtcome := schema.outcome_build
  generalize schema.build = result at h houtcome
  cases houtcome with
  | refused _ => cases h
  | stalled _ _ _ _ => cases h
  | @rooted passes objects fields hdeclared last hfields =>
    cases hregister : objects.register schema.name ⟨schema.name, fields⟩ with
    | error error =>
      rw [hregister] at h
      cases h
    | ok larger =>
      rw [hregister] at h
      cases h
      exact ⟨passes, objects, hdeclared, last, rfl, columnFields_eq_ok_iff.1 hfields, hregister⟩

namespace Completed

variable {passes : Nat} {objects : Registry} {root : RecordType}

theorem records_eq (h : schema.Completed passes objects root registry) :
    registry.records = objects.records ++ [(schema.name, root)] :=
  Registry.records_of_register h.registered

theorem nodup_names (h : schema.Completed passes objects root registry) : registry.names.Nodup :=
  Registry.nodup_names_of_register h.registered h.last.nodup_names

theorem entry_cases (h : schema.Completed passes objects root registry)
    {front back : List (String × RecordType)} {entry : String × RecordType}
    (hsplit : registry.records = front ++ entry :: back) :
    (∃ object ∈ schema.objects, entry.1 = object.name ∧ entry.2.name = object.name ∧
      List.Forall₂ (schema.MakesMember ⟨front⟩ object) object.members entry.2.fields) ∨
    entry = (schema.name, root) ∧ front = objects.records := by
  rw [h.records_eq] at hsplit
  rcases Registry.entry_of_append hsplit with ⟨rest, hobjects⟩ | ⟨rest, hfront, hroot⟩
  · exact .inl (h.last.assembled front entry rest hobjects)
  · rw [eq_comm, List.append_eq_singleton_iff] at hroot
    rcases hroot with ⟨rfl, hentry⟩ | ⟨_, hentry⟩
    · rw [List.cons.injEq] at hentry
      rw [List.append_nil] at hfront
      exact .inr ⟨hentry.1, hfront⟩
    · cases hentry

theorem exists_entry (h : schema.Completed passes objects root registry)
    (hobject : object ∈ schema.objects) :
    ∃ front type back, registry.records = front ++ (object.name, type) :: back ∧
      type.name = object.name ∧
      List.Forall₂ (schema.MakesMember ⟨front⟩ object) object.members type.fields := by
  have hprogress := h.last.progress h.declared
  have hdefined : objects.isDefined object.name = true := by
    rw [hprogress.isDefined_eq_isKnown, isKnown_iff]
    exact .inr ⟨object, hobject, rfl⟩
  rw [Registry.isDefined_iff, Registry.mem_names_iff,
    h.declared.objects_not_primitive object hobject] at hdefined
  obtain ⟨⟨name, type⟩, hentry, hname⟩ := List.mem_map.1 (hdefined.resolve_left nofun)
  dsimp only at hname
  obtain ⟨front, back, hsplit⟩ := List.append_of_mem hentry
  obtain ⟨other, hother, hsame, htype, hmade⟩ := h.last.assembled _ _ _ hsplit
  dsimp only at hsame htype
  rw [hname] at hsame hsplit
  rw [← h.declared.object_ext hobject hother hsame] at htype hmade
  refine ⟨front, type, back ++ [(schema.name, root)], ?_, htype, hmade⟩
  rw [h.records_eq, hsplit, List.append_assoc, List.cons_append]

end Completed

end Schema

end RowTree
