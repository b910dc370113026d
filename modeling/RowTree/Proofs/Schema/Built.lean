import RowTree.Proofs.Schema.Assembly

/-!
This module contains what a successful build gives. The registry holds the primitives, the objects
in the order of their heights and the table itself, each type is the declared one, and whatever
type stands inside another one is registered in front of it (`Built`).
-/

namespace RowTree

/-! ## What declared types stand for -/

/--
The kind that a type name stands for by itself.
-/
inductive Registry.Denotes (registry : Registry) : String → Kind → Prop where
  | primitive (p : Primitive) : Denotes registry p.name (.primitive p)
  | record {name : String} {type : RecordType} (hmem : (name, type) ∈ registry.records) :
      Denotes registry name (.nested type)

/--
The field has the name and the declared type, once in a collection if it is declared so.
-/
structure Registry.Declares (registry : Registry) (name : String) (decl : FieldDecl)
    (field : Field) : Prop where
  name_eq : field.name = name
  kind : ∃ base, registry.Denotes decl.typeName base ∧
    field.kind = if decl.isCollection then .collection base else base

/--
The type stands somewhere inside the kind.
-/
inductive Kind.Holds : Kind → RecordType → Prop where
  | nested (type : RecordType) : Holds (.nested type) type
  | field {type inner : RecordType} {field : Field} (hfield : field ∈ type.fields)
      (h : Holds field.kind inner) : Holds (.nested type) inner
  | element {element : Kind} {inner : RecordType} (h : Holds element inner) :
      Holds (.collection element) inner

theorem Kind.holds_nested_iff {type inner : RecordType} :
    (Kind.nested type).Holds inner ↔
      inner = type ∨ ∃ field ∈ type.fields, field.kind.Holds inner := by
  constructor
  · intro h
    cases h with
    | nested => exact .inl rfl
    | field hfield h => exact .inr ⟨_, hfield, h⟩
  · rintro (rfl | ⟨field, hfield, h⟩)
    · exact .nested inner
    · exact .field hfield h

theorem Kind.holds_collection_iff {element : Kind} {inner : RecordType} :
    (Kind.collection element).Holds inner ↔ element.Holds inner := by
  constructor
  · intro h
    cases h with
    | element h => exact h
  · exact .element

theorem Registry.Makes.declares {registry larger : Registry} {name : String} {decl : FieldDecl}
    {field : Field} (h : registry.Makes name decl field)
    (hrecords : registry.records ⊆ larger.records) : larger.Declares name decl field := by
  refine ⟨h.name_eq, ?_⟩
  have hkind := h.kind?_eq
  unfold kind? at hkind
  rw [Option.map_eq_some_iff] at hkind
  obtain ⟨found, hfound, hkind⟩ := hkind
  refine ⟨found.kind, ?_, hkind.symm⟩
  unfold find? at hfound
  split at hfound
  · next p hprimitive =>
    rw [Option.some.injEq] at hfound
    rw [← hfound, Primitive.ofName?_eq_some_iff.1 hprimitive]
    exact .primitive p
  · rw [Option.map_eq_some_iff] at hfound
    obtain ⟨type, htype, rfl⟩ := hfound
    exact .record (hrecords (mem_records_of_record? htype))

theorem Registry.Declares.exists_record {registry : Registry} {name : String} {decl : FieldDecl}
    {field : Field} (h : registry.Declares name decl field) {inner : RecordType}
    (hinner : field.kind.Holds inner) :
    ∃ entry ∈ registry.records, inner = entry.2 ∨
      ∃ field ∈ entry.2.fields, field.kind.Holds inner := by
  obtain ⟨base, hbase, hkind⟩ := h.kind
  have hholds : base.Holds inner := by
    rw [hkind] at hinner
    split at hinner
    · exact Kind.holds_collection_iff.1 hinner
    · exact hinner
  generalize decl.typeName = typeName at hbase
  cases hbase with
  | primitive p => cases hholds
  | record hmem => exact ⟨_, hmem, Kind.holds_nested_iff.1 hholds⟩

/--
The kinds of each type come from the types in front of it, which stand under their own names.
-/
structure Registry.Layered (registry : Registry) : Prop where
  named : ∀ entry ∈ registry.records, entry.1 = entry.2.name
  declared : ∀ front entry back, registry.records = front ++ entry :: back →
    ∀ field ∈ entry.2.fields, ∃ name decl, (⟨front⟩ : Registry).Declares name decl field

theorem Registry.Layered.mem_front {registry : Registry} (h : registry.Layered)
    {front back : List (String × RecordType)} {entry : String × RecordType}
    (hsplit : registry.records = front ++ entry :: back) {field : Field}
    (hfield : field ∈ entry.2.fields) {inner : RecordType} (hinner : field.kind.Holds inner) :
    (inner.name, inner) ∈ front := by
  -- a type of the field stands in front, and what it holds stands in front of it
  induction hlength : front.length using Nat.strong_induction_on generalizing front entry back field
  next length ih =>
  obtain ⟨name, decl, hdeclares⟩ := h.declared front entry back hsplit field hfield
  obtain ⟨outer, houter, hholds⟩ := hdeclares.exists_record hinner
  rcases hholds with rfl | ⟨next, hnext, hholds⟩
  · have hname := h.named outer (by simp [hsplit, houter])
    rw [← hname]
    exact houter
  · obtain ⟨before, after, rfl⟩ := List.append_of_mem houter
    rw [List.append_assoc, List.cons_append] at hsplit
    have hmem := ih before.length (by simp [← hlength]) hsplit hnext hholds rfl
    exact List.mem_append_left _ hmem

namespace Schema

variable {schema : Schema} {registry : Registry} {object : ObjectDecl} {root : RecordType}

/-! ## The order of the objects -/

/--
The first object is registered before the second one: it has a smaller height, or the same one and
stands in front in the declarations.
-/
def Before (schema : Schema) (first second : ObjectDecl) : Prop :=
  schema.height first < schema.height second ∨
    schema.height first = schema.height second ∧ [first, second].Sublist schema.objects

theorem pairwise_settled (limit : Nat) : (schema.settled limit).Pairwise schema.Before := by
  induction limit with
  | zero => exact .nil
  | succ limit ih =>
    have hheight : ∀ object ∈ schema.objects.filter fun object =>
        schema.settles (limit + 1) object && !schema.settles limit object,
        schema.height object = limit + 1 := by
      intro object hobject
      rw [List.mem_filter, Bool.and_eq_true, Bool.not_eq_true'] at hobject
      exact height_eq_of_settles hobject.1 hobject.2.1 hobject.2.2
    unfold settled
    rw [List.pairwise_append]
    refine ⟨ih, ?_, ?_⟩
    · rw [List.pairwise_iff_forall_sublist]
      intro first second hpair
      have hfirst := hheight first (hpair.subset (by simp))
      have hsecond := hheight second (hpair.subset (by simp))
      exact .inr ⟨by omega, hpair.trans List.filter_sublist⟩
    · intro first hfirst second hsecond
      rw [mem_settled_iff] at hfirst
      have hle := (settles_iff_height_le hfirst.1 (not_reachesCycle_of_settles hfirst.2)).1 hfirst.2
      have hsecond := hheight second hsecond
      exact .inl (by omega)

theorem perm_settled (hdeclared : schema.WellDeclared) {limit : Nat}
    (hall : ∀ object ∈ schema.objects, schema.settles limit object = true) :
    (schema.settled limit).Perm schema.objects := by
  have hobjects := List.Nodup.of_map _ hdeclared.objects_nodup
  have hsettled : (schema.settled limit).Nodup := by
    apply (pairwise_settled limit).imp
    rintro first _ hbefore rfl
    rcases hbefore with hlt | ⟨_, hpair⟩
    · omega
    · simpa using hpair.nodup hobjects
  rw [List.perm_ext_iff_of_nodup hsettled hobjects]
  intro object
  rw [mem_settled_iff]
  exact ⟨And.left, fun hobject => ⟨hobject, hall object hobject⟩⟩

/-! ## What is registered -/

/--
What a table's declarations make of it: which types are registered, in which order and with which
fields.
-/
structure Built (schema : Schema) (root : RecordType) (registry : Registry) : Prop where
  names_eq : ∃ ordered : List ObjectDecl, ordered.Perm schema.objects ∧
    ordered.Pairwise schema.Before ∧
    registry.names = Primitive.all.map (·.name) ++ ordered.map (·.name) ++ [schema.name]
  height_eq : ∀ object ∈ schema.objects,
    schema.height object = 1 + greatest ((schema.parts object).map schema.height)
  object_type : ∀ object ∈ schema.objects, ∃ type,
    registry.find? object.name = some (.record type) ∧ type.name = object.name ∧
    List.Forall₂ (fun member field => ∃ decl ∈ schema.objectFields,
      decl.name = object.name ++ "." ++ object.shortName member ∧
        registry.Declares (object.shortName member) decl field) object.members type.fields
  root_type : registry.find? schema.name = some (.record root) ∧ root.name = schema.name ∧
    List.Forall₂ (fun column => registry.Declares column.name column) schema.columns root.fields
  fields_nodup : ∀ entry ∈ registry.records, (entry.2.fields.map (·.name)).Nodup
  inner_type : ∀ front entry back, registry.records = front ++ entry :: back →
    ∀ field ∈ entry.2.fields, ∀ inner, field.kind.Holds inner →
      (inner.name, inner) ∈ front ∧ registry.find? inner.name = some (.record inner)

theorem map_name_eq {α : Type} {give : α → String} {items : List α} {fields : List Field}
    (h : List.Forall₂ (fun item field => field.name = give item) items fields) :
    fields.map (·.name) = items.map give := by
  induction h with
  | nil => rfl
  | cons hname _ ih => rw [List.map_cons, List.map_cons, hname, ih]

theorem forall_mem_fields {α : Type} {P : Field → Prop} {items : List α} {fields : List Field}
    (h : List.Forall₂ (fun _ => P) items fields) : ∀ field ∈ fields, P field := by
  induction h with
  | nil => nofun
  | cons hfield _ ih => exact List.forall_mem_cons.2 ⟨hfield, ih⟩

theorem MakesMember.declares {larger : Registry} {member : String} {field : Field}
    (h : schema.MakesMember registry object member field)
    (hrecords : registry.records ⊆ larger.records) :
    ∃ decl ∈ schema.objectFields, decl.name = object.name ++ "." ++ object.shortName member ∧
      larger.Declares (object.shortName member) decl field := by
  obtain ⟨decl, hdecl, hmakes⟩ := h
  obtain ⟨hmem, hname⟩ := exists_of_objectField?_eq_some hdecl
  rw [object.fullName_eq] at hname
  exact ⟨decl, hmem, hname, hmakes.declares hrecords⟩

namespace Completed

variable {passes : Nat} {objects : Registry}

theorem names_eq (h : schema.Completed passes objects root registry) :
    registry.names =
      Primitive.all.map (·.name) ++ (schema.settled passes).map (·.name) ++ [schema.name] := by
  rw [Registry.names_of_register h.registered, (h.last.progress h.declared).names_eq]
  simp [Registry.names, Registry.empty]

theorem layered (h : schema.Completed passes objects root registry) : registry.Layered := by
  constructor
  · intro entry hentry
    obtain ⟨front, back, hsplit⟩ := List.append_of_mem hentry
    rcases h.entry_cases hsplit with ⟨object, _, hname, htype, _⟩ | ⟨rfl, _⟩
    · rw [hname, htype]
    · exact h.name_eq.symm
  · intro front entry back hsplit
    rcases h.entry_cases hsplit with ⟨object, _, _, _, hmade⟩ | ⟨rfl, rfl⟩
    · refine forall_mem_fields (hmade.imp fun member field hmember => ?_)
      obtain ⟨decl, _, _, hdeclares⟩ := hmember.declares (List.Subset.refl _)
      exact ⟨_, decl, hdeclares⟩
    · refine forall_mem_fields (h.fields.imp fun column field hmakes => ?_)
      exact ⟨_, column, hmakes.declares (List.Subset.refl _)⟩

theorem fields_nodup (h : schema.Completed passes objects root registry)
    {entry : String × RecordType} (hentry : entry ∈ registry.records) :
    (entry.2.fields.map (·.name)).Nodup := by
  obtain ⟨front, back, hsplit⟩ := List.append_of_mem hentry
  rcases h.entry_cases hsplit with ⟨object, hobject, _, _, hmade⟩ | ⟨rfl, _⟩
  · rw [map_name_eq (hmade.imp fun member field hmember => hmember.name_eq)]
    exact h.declared.members_nodup object hobject
  · rw [map_name_eq (h.fields.imp fun column field hmakes => hmakes.name_eq)]
    exact h.declared.columns_nodup

theorem object_type (h : schema.Completed passes objects root registry)
    (hobject : object ∈ schema.objects) :
    ∃ type, registry.find? object.name = some (.record type) ∧ type.name = object.name ∧
      List.Forall₂ (fun member field => ∃ decl ∈ schema.objectFields,
        decl.name = object.name ++ "." ++ object.shortName member ∧
          registry.Declares (object.shortName member) decl field) object.members type.fields := by
  obtain ⟨front, type, back, hsplit, hname, hmade⟩ := h.exists_entry hobject
  have hfront : front ⊆ registry.records := by simp [hsplit]
  refine ⟨type, ?_, hname, hmade.imp fun member field hmember => hmember.declares hfront⟩
  rw [Registry.find?_eq_record_iff h.nodup_names, hsplit]
  simp

theorem root_type (h : schema.Completed passes objects root registry) :
    registry.find? schema.name = some (.record root) ∧ root.name = schema.name ∧
      List.Forall₂ (fun column => registry.Declares column.name column) schema.columns
        root.fields := by
  have hobjects : objects.records ⊆ registry.records := by simp [h.records_eq]
  refine ⟨?_, h.name_eq, h.fields.imp fun column field hmakes => hmakes.declares hobjects⟩
  rw [Registry.find?_eq_record_iff h.nodup_names, h.records_eq]
  simp

theorem inner_type (h : schema.Completed passes objects root registry)
    {front back : List (String × RecordType)} {entry : String × RecordType}
    (hsplit : registry.records = front ++ entry :: back) {field : Field}
    (hfield : field ∈ entry.2.fields) {inner : RecordType} (hinner : field.kind.Holds inner) :
    (inner.name, inner) ∈ front ∧ registry.find? inner.name = some (.record inner) := by
  have hfront := h.layered.mem_front hsplit hfield hinner
  refine ⟨hfront, ?_⟩
  rw [Registry.find?_eq_record_iff h.nodup_names, hsplit]
  exact List.mem_append_left _ hfront

theorem nodup_of_holds (h : schema.Completed passes objects root registry) {inner : RecordType}
    (hinner : (Kind.nested root).Holds inner) : (inner.fields.map (·.name)).Nodup := by
  have hsplit : registry.records = objects.records ++ (schema.name, root) :: [] := h.records_eq
  have hroot : (schema.name, root) ∈ registry.records := by simp [hsplit]
  rcases Kind.holds_nested_iff.1 hinner with rfl | ⟨field, hfield, hholds⟩
  · exact h.fields_nodup hroot
  · have hmem := (h.inner_type hsplit hfield hholds).1
    have hentry : (inner.name, inner) ∈ registry.records := by simp [hsplit, hmem]
    exact h.fields_nodup hentry

end Completed

/--
A successful build registers the objects in the order of their heights and the table behind them,
each with the fields that are declared for it.
-/
theorem built_of_build (h : schema.build = .ok (root, registry)) : schema.Built root registry := by
  obtain ⟨passes, objects, hcompleted⟩ := exists_completed h
  have hdeclared := hcompleted.declared
  have hprogress := hcompleted.last.progress hdeclared
  constructor
  · refine ⟨schema.settled passes, ?_, pairwise_settled passes, hcompleted.names_eq⟩
    exact perm_settled hdeclared fun object => hprogress.settles_of_pending_eq_nil
  · intro object hobject
    apply height_eq hobject
    exact not_reachesCycle_of_settles (hprogress.settles_of_pending_eq_nil hobject)
  · exact fun object => hcompleted.object_type
  · exact hcompleted.root_type
  · exact fun entry => hcompleted.fields_nodup
  · intro front entry back hsplit field hfield inner
    exact hcompleted.inner_type hsplit hfield

def warehouse : Schema where
  name := "warehouse"
  columns := [⟨"code", "string", false⟩, ⟨"shelves", "Shelf", true⟩]
  objectFields := [⟨"Item.name", "string", false⟩, ⟨"Box.items", "Item", true⟩,
    ⟨"Box.weight", "double", false⟩, ⟨"Label.text", "string", false⟩,
    ⟨"Shelf.label", "Label", false⟩, ⟨"Shelf.boxes", "Box", true⟩]
  objects := [⟨"Shelf", ["label", "Shelf.boxes"]⟩, ⟨"Box", ["items", "weight"]⟩,
    ⟨"Label", ["text"]⟩, ⟨"Item", ["Item.name"]⟩]

theorem built_warehouse :
    ∃ root registry, warehouse.build = .ok (root, registry) ∧
      registry.names = ["int", "float", "string", "bool", "uint", "datetime", "double", "Label",
        "Item", "Box", "Shelf", "warehouse"] ∧
      warehouse.Built root registry := by
  have hnames : (match warehouse.build with
      | .ok (_, registry) => registry.names
      | .error _ => []) = ["int", "float", "string", "bool", "uint", "datetime", "double", "Label",
        "Item", "Box", "Shelf", "warehouse"] := by
    decide +kernel
  split at hnames
  · next root registry hbuild => exact ⟨root, registry, hbuild, hnames, built_of_build hbuild⟩
  · cases hnames

end Schema

end RowTree
