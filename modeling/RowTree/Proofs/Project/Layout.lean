import Mathlib.Data.List.Forall2
import RowTree.Project.Layout
import RowTree.Proofs.Text.Blank

/-!
This module contains what becomes of the rows of a layout. Rows of unknown kinds are reported all
together, then the first array without an element type, and otherwise each kind of rows gives its
part of the schema in order (`LayoutRow.toSchema_outcome`). One pass that puts each row behind what
was declared so far ends the same (`LayoutRow.toSchemaByPass_eq`).
-/

namespace RowTree

namespace LayoutRow

/-! ## What rows say -/

def kinds : List String :=
  ["column", "object_definition", "object_field"]

def ofKind (kind : String) (rows : List LayoutRow) : List LayoutRow :=
  rows.filter (·.kind == kind)

def unknownKinds (rows : List LayoutRow) : List String :=
  (rows.map (·.kind)).filter fun kind => kind ∉ kinds

/--
The field that a row declares: of the type of the row, or of many elements of the type that its
first extra text names.
-/
inductive Declares (row : LayoutRow) : FieldDecl → Prop where
  | single (h : row.typeName ≠ "array") : Declares row ⟨row.name, row.typeName, false⟩
  | collection {first : String} {rest : List String} (h : row.typeName = "array")
      (hextra : row.extra = first :: rest) (hfirst : Text.isBlankText first = false) :
      Declares row ⟨row.name, Text.trim first, true⟩

/--
The row declares a field of many elements without their type: there is no first extra text, or it
is blank.
-/
def LacksElement (row : LayoutRow) : Prop :=
  row.kind ∈ ["column", "object_field"] ∧ row.typeName = "array" ∧
    ∀ first ∈ row.extra.head?, Text.isBlankText first = true

/--
The schema that rows declare. Each kind of rows gives its part in the order of the rows, and blank
extra texts are no members.
-/
structure LaysOut (table : String) (rows : List LayoutRow) (schema : Schema) : Prop where
  name : schema.name = table
  columns : List.Forall₂ Declares (ofKind "column" rows) schema.columns
  objectFields : List.Forall₂ Declares (ofKind "object_field" rows) schema.objectFields
  objects : schema.objects = (ofKind "object_definition" rows).map fun row =>
    ⟨row.name, (row.extra.filter fun text => !Text.isBlankText text).map Text.trim⟩

/-! ## Roles -/

def Role.word : Role → String
  | .column => "column"
  | .object => "object_definition"
  | .objectField => "object_field"

theorem Role.ofKind?_eq_some_iff {s : String} {role : Role} :
    Role.ofKind? s = some role ↔ s = role.word := by
  unfold Role.ofKind?
  split <;> cases role <;> simp_all [Role.word]

variable {row : LayoutRow} {rows : List LayoutRow} {declared : FieldDecl}

theorem role?_eq_some_iff {role : Role} : row.role? = some role ↔ row.kind = role.word :=
  Role.ofKind?_eq_some_iff

theorem isNone_role?_iff : row.role?.isNone = true ↔ row.kind ∉ kinds := by
  rw [Option.isNone_iff_eq_none, Option.eq_none_iff_forall_ne_some]
  simp only [ne_eq, role?_eq_some_iff]
  constructor
  · intro h
    simpa [kinds] using ⟨h .column, h .object, h .objectField⟩
  · rintro h role hrole
    rw [hrole] at h
    cases role <;> exact h (by decide)

theorem withRole_eq (role : Role) (rows : List LayoutRow) :
    withRole role rows = ofKind role.word rows := by
  apply List.filter_congr
  intro row _
  rw [Bool.eq_iff_iff, beq_iff_eq, beq_iff_eq]
  exact role?_eq_some_iff

theorem invalidKinds_eq (rows : List LayoutRow) :
    invalidKinds rows = unknownKinds rows := by
  unfold unknownKinds
  rw [List.filter_map]
  refine congrArg _ (List.filter_congr fun row _ => ?_)
  rw [Bool.eq_iff_iff, isNone_role?_iff]
  simp

theorem unknownKinds_eq_nil_iff : unknownKinds rows = [] ↔ ∀ row ∈ rows, row.kind ∈ kinds := by
  unfold unknownKinds
  rw [List.filter_eq_nil_iff]
  simp

/-! ## Single rows -/

def IsField (row : LayoutRow) : Prop :=
  row.role? = some .column ∨ row.role? = some .objectField

theorem isField_iff : row.IsField ↔ row.kind ∈ ["column", "object_field"] := by
  simp [IsField, role?_eq_some_iff, Role.word]

theorem elementType_eq_empty_iff :
    row.elementType = "" ↔ ∀ first ∈ row.extra.head?, Text.isBlankText first = true := by
  unfold elementType
  rw [Text.trim_eq_empty_iff]
  cases row.extra.head? with
  | none => simp [Text.isBlankText]
  | some first => simp

def lacksElement (row : LayoutRow) : Bool :=
  row.isArray && row.elementType == ""

theorem isArray_of_object (hrole : row.role? = some .object) : row.isArray = false := by
  simp [isArray, hrole]

theorem isArray_of_field (hrole : row.IsField) : row.isArray = (row.typeName == "array") := by
  unfold isArray
  rcases hrole with hrole | hrole <;> simp [hrole]

theorem lacksElement_iff (hknown : row.kind ∈ kinds) :
    row.lacksElement = true ↔ row.LacksElement := by
  unfold lacksElement LacksElement
  rw [Bool.and_eq_true, beq_iff_eq, elementType_eq_empty_iff, ← isField_iff, ← and_assoc]
  refine and_congr_left fun _ => ?_
  cases hrole : row.role? with
  | none => exact absurd hknown (isNone_role?_iff.1 (by rw [hrole]; rfl))
  | some role =>
    cases role with
    | object => simp [isArray_of_object hrole, IsField, hrole]
    | column => simp [isArray_of_field (.inl hrole), IsField, hrole]
    | objectField => simp [isArray_of_field (.inr hrole), IsField, hrole]

theorem declares_iff (hrole : row.IsField) :
    row.Declares declared ↔ row.lacksElement = false ∧ row.field = declared := by
  have harray := isArray_of_field hrole
  constructor
  · intro h
    cases h with
    | single htype =>
      have hsingle : row.isArray = false := by simpa [harray] using htype
      exact ⟨by simp [lacksElement, hsingle], by simp [field, hsingle]⟩
    | @collection first rest htype hextra hfirst =>
      have hmany : row.isArray = true := by simpa [harray] using htype
      have helement : row.elementType = Text.trim first := by rw [elementType, hextra]; rfl
      have hne : Text.trim first ≠ "" := by rw [ne_eq, Text.trim_eq_empty_iff, hfirst]; decide
      exact ⟨by simp [lacksElement, helement, hne], by simp [field, hmany, helement]⟩
  · rintro ⟨hlacks, rfl⟩
    unfold field
    by_cases htype : row.typeName = "array"
    · have hmany : row.isArray = true := by simpa [harray] using htype
      rw [if_pos hmany]
      have hne : row.elementType ≠ "" := by simpa [lacksElement, hmany] using hlacks
      rw [ne_eq, elementType_eq_empty_iff] at hne
      cases hextra : row.extra with
      | nil => exact absurd (by simp [hextra]) hne
      | cons first rest =>
        have hfirst : Text.isBlankText first = false := by simpa [hextra] using hne
        have helement : row.elementType = Text.trim first := by rw [elementType, hextra]; rfl
        rw [helement]
        exact .collection htype hextra hfirst
    · rw [if_neg (by simpa [harray] using htype)]
      exact .single htype

theorem object_eq (row : LayoutRow) :
    row.object =
      ⟨row.name, (row.extra.filter fun text => !Text.isBlankText text).map Text.trim⟩ := by
  unfold object
  rw [List.filter_map]
  refine congrArg (ObjectDecl.mk row.name) (congrArg _ (List.filter_congr fun text _ => ?_))
  rw [Bool.eq_iff_iff]
  simp [Text.trim_eq_empty_iff]

/-! ## One pass over the rows -/

def fieldIn (file : String) (row : LayoutRow) : Except LoadError FieldDecl :=
  if row.typeName = "array" then
    match (row.extra.head?.map Text.trim).filter (· ≠ "") with
    | some element => .ok ⟨row.name, element, true⟩
    | none => .error (.missingElementType file row.name)
  else
    .ok ⟨row.name, row.typeName, false⟩

/--
Put what a row declares behind what was declared so far. All kinds but two words are taken for
objects.
-/
def declare (file : String) (schema : Schema) (row : LayoutRow) : Except LoadError Schema :=
  match row.kind with
  | "column" => do
    let declared ← row.fieldIn file
    .ok { schema with columns := schema.columns ++ [declared] }
  | "object_field" => do
    let declared ← row.fieldIn file
    .ok { schema with objectFields := schema.objectFields ++ [declared] }
  | _ => .ok { schema with objects := schema.objects ++ [row.object] }

def toSchemaByPass (table : String) (file : String) (rows : List LayoutRow) :
    Except LoadError Schema :=
  if unknownKinds rows = [] then
    rows.foldlM (declare file) ⟨table, [], [], []⟩
  else
    .error (.invalidLayoutKinds file (unknownKinds rows))

variable {file : String} {schema : Schema}

theorem fieldIn_eq (hrole : row.IsField) (file : String) :
    row.fieldIn file =
      if row.lacksElement then .error (.missingElementType file row.name) else .ok row.field := by
  have harray := isArray_of_field hrole
  unfold fieldIn field lacksElement elementType
  by_cases htype : row.typeName = "array"
  · have hmany : row.isArray = true := by simpa [harray] using htype
    rw [if_pos htype, hmany]
    cases row.extra.head? with
    | none => rfl
    | some first => by_cases hfirst : Text.trim first = "" <;> simp [Option.filter, hfirst]
  · have hsingle : row.isArray = false := by simpa [harray] using htype
    rw [if_neg htype, hsingle]
    rfl

def extend (schema : Schema) (rows : List LayoutRow) : Schema :=
  { schema with
    columns := schema.columns ++ (withRole .column rows).map field
    objectFields := schema.objectFields ++ (withRole .objectField rows).map field
    objects := schema.objects ++ (withRole .object rows).map object }

theorem extend_extend (schema : Schema) (front back : List LayoutRow) :
    extend (extend schema front) back = extend schema (front ++ back) := by
  simp [extend, withRole]

theorem declare_eq (hknown : row.kind ∈ kinds) (file : String) (schema : Schema) :
    declare file schema row =
      if row.lacksElement then .error (.missingElementType file row.name)
      else .ok (extend schema [row]) := by
  cases hrole : row.role? with
  | none => exact absurd hknown (isNone_role?_iff.1 (by rw [hrole]; rfl))
  | some role =>
    have hkind := role?_eq_some_iff.1 hrole
    cases role with
    | column =>
      simp only [declare, hkind, Role.word]
      rw [fieldIn_eq (.inl hrole)]
      cases row.lacksElement with
      | true => rfl
      | false => simp [extend, withRole, hrole, bind, Except.bind]
    | objectField =>
      simp only [declare, hkind, Role.word]
      rw [fieldIn_eq (.inr hrole)]
      cases row.lacksElement with
      | true => rfl
      | false => simp [extend, withRole, hrole, bind, Except.bind]
    | object =>
      simp only [declare, hkind, Role.word]
      simp [extend, withRole, hrole, lacksElement, isArray_of_object hrole]

theorem foldlM_declare (hknown : ∀ row ∈ rows, row.kind ∈ kinds) (file : String)
    (schema : Schema) :
    rows.foldlM (declare file) schema =
      match rows.find? lacksElement with
      | some row => .error (.missingElementType file row.name)
      | none => .ok (extend schema rows) := by
  induction rows generalizing schema with
  | nil => simp [extend, withRole, pure, Except.pure]
  | cons row rest ih =>
    obtain ⟨hrow, hrest⟩ := List.forall_mem_cons.1 hknown
    rw [List.foldlM_cons, declare_eq hrow, List.find?_cons]
    cases row.lacksElement with
    | true => rfl
    | false =>
      dsimp only [bind, Except.bind]
      rw [if_neg Bool.false_ne_true]
      dsimp only
      rw [ih hrest, extend_extend]
      rfl

/--
Rows that are declared one after the other end as the rows of each kind on their own.
-/
theorem toSchemaByPass_eq (table file : String) (rows : List LayoutRow) :
    toSchemaByPass table file rows = toSchema table file rows := by
  unfold toSchemaByPass toSchema
  rw [invalidKinds_eq]
  split_ifs with hunknown
  · rw [foldlM_declare (unknownKinds_eq_nil_iff.1 hunknown), hunknown]
    rfl
  · split
    · contradiction
    · rfl

/-! ## Outcomes -/

variable {table : String}

theorem toSchema_of_unknown (h : unknownKinds rows ≠ []) (table file : String) :
    toSchema table file rows = .error (.invalidLayoutKinds file (unknownKinds rows)) := by
  rw [← toSchemaByPass_eq, toSchemaByPass, if_neg h]

theorem toSchema_of_known (h : unknownKinds rows = []) (table file : String) :
    toSchema table file rows =
      match rows.find? lacksElement with
      | some row => .error (.missingElementType file row.name)
      | none => .ok (extend ⟨table, [], [], []⟩ rows) := by
  rw [← toSchemaByPass_eq, toSchemaByPass, if_pos h, foldlM_declare (unknownKinds_eq_nil_iff.1 h)]

theorem find?_lacksElement_eq_some_iff (hknown : ∀ row ∈ rows, row.kind ∈ kinds) :
    rows.find? lacksElement = some row ↔
      ∃ before after, rows = before ++ row :: after ∧ (∀ earlier ∈ before, ¬earlier.LacksElement) ∧
        row.LacksElement := by
  rw [List.find?_eq_some_iff_append]
  constructor
  · rintro ⟨hrow, before, after, rfl, hbefore⟩
    refine ⟨before, after, rfl, fun earlier hearlier => ?_, ?_⟩
    · rw [← lacksElement_iff (hknown earlier (by simp [hearlier]))]
      simpa using hbefore earlier hearlier
    · exact (lacksElement_iff (hknown row (by simp))).1 hrow
  · rintro ⟨before, after, rfl, hbefore, hrow⟩
    refine ⟨(lacksElement_iff (hknown row (by simp))).2 hrow, before, after, rfl, ?_⟩
    intro earlier hearlier
    have hnot := hbefore earlier hearlier
    rw [← lacksElement_iff (hknown earlier (by simp [hearlier]))] at hnot
    simpa using hnot

theorem find?_lacksElement_eq_none_iff (hknown : ∀ row ∈ rows, row.kind ∈ kinds) :
    rows.find? lacksElement = none ↔ ∀ row ∈ rows, ¬row.LacksElement := by
  rw [List.find?_eq_none]
  exact forall₂_congr fun row hrow => not_congr (lacksElement_iff (hknown row hrow))

theorem toSchema_eq_error_iff {error : LoadError} :
    toSchema table file rows = .error error ↔
      (unknownKinds rows ≠ [] ∧ error = .invalidLayoutKinds file (unknownKinds rows)) ∨
      (∀ row ∈ rows, row.kind ∈ kinds) ∧
        ∃ before row after, rows = before ++ row :: after ∧
          (∀ earlier ∈ before, ¬earlier.LacksElement) ∧ row.LacksElement ∧
            error = .missingElementType file row.name := by
  by_cases hunknown : unknownKinds rows = []
  · have hknown := unknownKinds_eq_nil_iff.1 hunknown
    rw [toSchema_of_known hunknown]
    simp only [hunknown, ne_eq, not_true_eq_false, false_and, false_or]
    cases hfind : rows.find? lacksElement with
    | none =>
      rw [find?_lacksElement_eq_none_iff hknown] at hfind
      simp only [reduceCtorEq, false_iff]
      rintro ⟨_, before, row, after, rfl, _, hrow, _⟩
      exact hfind row (by simp) hrow
    | some row =>
      rw [Except.error.injEq]
      constructor
      · rintro rfl
        obtain ⟨before, after, hrows, hbefore, hrow⟩ :=
          (find?_lacksElement_eq_some_iff hknown).1 hfind
        exact ⟨hknown, before, row, after, hrows, hbefore, hrow, rfl⟩
      · rintro ⟨_, before, other, after, hrows, hbefore, hother, rfl⟩
        have hagain :=
          (find?_lacksElement_eq_some_iff hknown).2 ⟨before, after, hrows, hbefore, hother⟩
        rw [hfind, Option.some.injEq] at hagain
        rw [hagain]
  · rw [toSchema_of_unknown hunknown, Except.error.injEq]
    constructor
    · rintro rfl
      exact .inl ⟨hunknown, rfl⟩
    · rintro (⟨_, rfl⟩ | ⟨hknown, _⟩)
      · rfl
      · exact absurd (unknownKinds_eq_nil_iff.2 hknown) hunknown

theorem forall₂_declares_iff {declared : List FieldDecl} (h : ∀ row ∈ rows, row.IsField) :
    List.Forall₂ Declares rows declared ↔
      (∀ row ∈ rows, row.lacksElement = false) ∧ rows.map field = declared := by
  induction rows generalizing declared with
  | nil =>
    rw [List.forall₂_nil_left_iff, List.map_nil]
    exact ⟨fun hnil => ⟨by simp, hnil.symm⟩, fun hnil => hnil.2.symm⟩
  | cons row rest ih =>
    obtain ⟨hrow, hrest⟩ := List.forall_mem_cons.1 h
    simp only [List.forall₂_cons_left_iff, declares_iff hrow, ih hrest, List.forall_mem_cons]
    constructor
    · rintro ⟨_, _, ⟨hlacks, rfl⟩, ⟨hnone, rfl⟩, rfl⟩
      exact ⟨⟨hlacks, hnone⟩, rfl⟩
    · rintro ⟨⟨hlacks, hnone⟩, rfl⟩
      exact ⟨_, _, ⟨hlacks, rfl⟩, ⟨hnone, rfl⟩, rfl⟩

theorem mem_withRole_iff {role : Role} :
    row ∈ withRole role rows ↔ row ∈ rows ∧ row.role? = some role := by
  simp [withRole]

theorem find?_lacksElement_eq_none_iff_forall (hknown : ∀ row ∈ rows, row.kind ∈ kinds) :
    rows.find? lacksElement = none ↔
      (∀ row ∈ withRole .column rows, row.lacksElement = false) ∧
        ∀ row ∈ withRole .objectField rows, row.lacksElement = false := by
  rw [List.find?_eq_none]
  simp only [mem_withRole_iff, Bool.not_eq_true]
  constructor
  · intro h
    exact ⟨fun row hrow => h row hrow.1, fun row hrow => h row hrow.1⟩
  · rintro ⟨hcolumns, hfields⟩ row hrow
    cases hrole : row.role? with
    | none => exact absurd (hknown row hrow) (isNone_role?_iff.1 (by rw [hrole]; rfl))
    | some role =>
      cases role with
      | column => exact hcolumns row ⟨hrow, hrole⟩
      | objectField => exact hfields row ⟨hrow, hrole⟩
      | object => simp [lacksElement, isArray_of_object hrole]

theorem laysOut_iff_withRole :
    LaysOut table rows schema ↔
      schema.name = table ∧ List.Forall₂ Declares (withRole .column rows) schema.columns ∧
        List.Forall₂ Declares (withRole .objectField rows) schema.objectFields ∧
          schema.objects = (withRole .object rows).map object := by
  simp only [withRole_eq, Role.word, funext object_eq]
  exact ⟨fun ⟨hname, hcolumns, hfields, hobjects⟩ => ⟨hname, hcolumns, hfields, hobjects⟩,
    fun ⟨hname, hcolumns, hfields, hobjects⟩ => ⟨hname, hcolumns, hfields, hobjects⟩⟩

theorem laysOut_iff (hknown : ∀ row ∈ rows, row.kind ∈ kinds) :
    LaysOut table rows schema ↔
      rows.find? lacksElement = none ∧ extend ⟨table, [], [], []⟩ rows = schema := by
  have hcolumn : ∀ row ∈ withRole .column rows, row.IsField :=
    fun _ hrow => .inl (mem_withRole_iff.1 hrow).2
  have hfield : ∀ row ∈ withRole .objectField rows, row.IsField :=
    fun _ hrow => .inr (mem_withRole_iff.1 hrow).2
  rw [laysOut_iff_withRole, find?_lacksElement_eq_none_iff_forall hknown,
    forall₂_declares_iff hcolumn, forall₂_declares_iff hfield]
  constructor
  · rintro ⟨rfl, ⟨hcolumns, hcolumnFields⟩, ⟨hfields, hfieldFields⟩, hobjects⟩
    refine ⟨⟨hcolumns, hfields⟩, ?_⟩
    simp only [extend, List.nil_append, hcolumnFields, hfieldFields, ← hobjects]
  · rintro ⟨⟨hcolumns, hfields⟩, rfl⟩
    exact ⟨rfl, ⟨hcolumns, rfl⟩, ⟨hfields, rfl⟩, rfl⟩

theorem toSchema_eq_ok_iff :
    toSchema table file rows = .ok schema ↔
      (∀ row ∈ rows, row.kind ∈ kinds) ∧ LaysOut table rows schema := by
  by_cases hunknown : unknownKinds rows = []
  · have hknown := unknownKinds_eq_nil_iff.1 hunknown
    rw [toSchema_of_known hunknown, laysOut_iff hknown, and_iff_right hknown]
    cases rows.find? lacksElement <;> simp
  · rw [toSchema_of_unknown hunknown]
    simp only [reduceCtorEq, false_iff]
    exact fun h => hunknown (unknownKinds_eq_nil_iff.2 h.1)

theorem exists_toSchema_eq_ok_iff :
    (∃ schema, toSchema table file rows = .ok schema) ↔
      (∀ row ∈ rows, row.kind ∈ kinds) ∧ ∀ row ∈ rows, ¬row.LacksElement := by
  simp only [toSchema_eq_ok_iff, exists_and_left]
  refine and_congr_right fun hknown => ?_
  simp only [laysOut_iff hknown, find?_lacksElement_eq_none_iff hknown, exists_and_left,
    exists_eq', and_true]

theorem LaysOut.of_ofKind_eq {others : List LayoutRow} (h : LaysOut table rows schema)
    (hkinds : ∀ kind ∈ kinds, ofKind kind others = ofKind kind rows) :
    LaysOut table others schema where
  name := h.name
  columns := by
    rw [hkinds "column" (by decide)]
    exact h.columns
  objectFields := by
    rw [hkinds "object_field" (by decide)]
    exact h.objectFields
  objects := by
    rw [hkinds "object_definition" (by decide)]
    exact h.objects

/--
Every end of a layout: all unknown kinds, the first array without an element type, or the schema
that the rows of each kind declare in their order. Rows of one kind may be moved past rows of
another kind without a change of the schema. A single pass over the rows ends in the same way.
-/
theorem toSchema_outcome (table file : String) (rows : List LayoutRow) :
    toSchemaByPass table file rows = toSchema table file rows ∧
      ((∃ schema, toSchema table file rows = .ok schema) ↔
        (∀ row ∈ rows, row.kind ∈ kinds) ∧ ∀ row ∈ rows, ¬row.LacksElement) ∧
      (∀ error, toSchema table file rows = .error error ↔
        (unknownKinds rows ≠ [] ∧ error = .invalidLayoutKinds file (unknownKinds rows)) ∨
        (∀ row ∈ rows, row.kind ∈ kinds) ∧
          ∃ before row after, rows = before ++ row :: after ∧
            (∀ earlier ∈ before, ¬earlier.LacksElement) ∧ row.LacksElement ∧
              error = .missingElementType file row.name) ∧
      ∀ schema,
        (toSchema table file rows = .ok schema ↔
          (∀ row ∈ rows, row.kind ∈ kinds) ∧ LaysOut table rows schema) ∧
        ∀ others, (∀ row ∈ others, row.kind ∈ kinds) →
          (∀ kind ∈ kinds, ofKind kind others = ofKind kind rows) →
            toSchema table file rows = .ok schema → toSchema table file others = .ok schema := by
  refine ⟨toSchemaByPass_eq table file rows, exists_toSchema_eq_ok_iff,
    fun _ => toSchema_eq_error_iff, fun schema => ⟨toSchema_eq_ok_iff, ?_⟩⟩
  intro others hothers hkinds h
  exact toSchema_eq_ok_iff.2 ⟨hothers, (toSchema_eq_ok_iff.1 h).2.of_ofKind_eq hkinds⟩

theorem toSchema_outcome_player :
    let id : LayoutRow := ⟨"column", "id", "string", []⟩
    let position : LayoutRow := ⟨"object_definition", "position", "", ["x", " ", "y "]⟩
    let x : LayoutRow := ⟨"object_field", "x", "int", []⟩
    let tags : LayoutRow := ⟨"column", "tags", "array", [" string"]⟩
    let y : LayoutRow := ⟨"object_field", "y", "int", []⟩
    let schema : Schema :=
      { name := "Player"
        columns := [⟨"id", "string", false⟩, ⟨"tags", "string", true⟩]
        objectFields := [⟨"x", "int", false⟩, ⟨"y", "int", false⟩]
        objects := [⟨"position", ["x", "y"]⟩] }
    toSchema "Player" "player.csv" [id, tags, x, y, position] = .ok schema ∧
      toSchema "Player" "player.csv" [id, position, x, tags, y] = .ok schema := by
  intro id position x tags y schema
  have h : toSchema "Player" "player.csv" [id, tags, x, y, position] = .ok schema := by decide
  refine ⟨h, ?_⟩
  exact ((toSchema_outcome _ _ _).2.2.2 schema).2 [id, position, x, tags, y] (by decide)
    (by decide) h

end LayoutRow

end RowTree
