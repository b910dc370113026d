import RowTree.Schema.Basic
import RowTree.Registry

/-!
This module holds the step from the declarations of a table to record types. Declarations are
checked first for what no order of building could mend. Objects are then built in passes, where a
pass builds every object whose members are all of known types; what it builds is known to the next
pass. A pass that builds nothing shows objects that contain each other.
-/

namespace RowTree

namespace Schema

def partName (schema : Schema) (part : String) : String :=
  schema.name ++ "." ++ part

def memberName (schema : Schema) (object : ObjectDecl) (member : String) : String :=
  schema.partName (object.name ++ "." ++ object.shortName member)

/-! ## Checks of the declarations -/

/--
No two object fields have one name. `seen` holds the names in front.
-/
def checkObjectFields (schema : Schema) (seen : List String) :
    List FieldDecl → Except SchemaError Unit
  | [] => .ok ()
  | field :: rest =>
    if seen.contains field.name then
      .error (.duplicateType (schema.partName field.name))
    else
      schema.checkObjectFields (field.name :: seen) rest

def checkObjectNames (seen : List String) : List ObjectDecl → Except SchemaError Unit
  | [] => .ok ()
  | object :: rest =>
    if Primitive.isName object.name || seen.contains object.name then
      .error (.duplicateType object.name)
    else
      checkObjectNames (object.name :: seen) rest

/--
The members of an object are distinct, and each has an object field of a known type.
-/
def checkMembers (schema : Schema) (object : ObjectDecl) (seen : List String) :
    List String → Except SchemaError Unit
  | [] => .ok ()
  | member :: rest =>
    let short := object.shortName member
    if seen.contains short then
      .error (.duplicateType (schema.memberName object member))
    else
      match schema.objectField? (object.fullName member) with
      | none =>
        let candidates := (schema.objectFields.map (·.name)).mergeSort (decide <| · ≤ ·)
        .error (.missingObjectField schema.name object.name short candidates)
      | some field =>
        if schema.isKnown field.typeName then
          schema.checkMembers object (short :: seen) rest
        else
          .error (.unknownType field.typeName (schema.memberName object member))

def checkObjects (schema : Schema) : List ObjectDecl → Except SchemaError Unit
  | [] => .ok ()
  | object :: rest => do
    schema.checkMembers object [] object.members
    schema.checkObjects rest

def checkColumns (schema : Schema) (seen : List String) : List FieldDecl → Except SchemaError Unit
  | [] => .ok ()
  | column :: rest =>
    if seen.contains column.name then
      .error (.duplicateType (schema.partName column.name))
    else if schema.isKnown column.typeName then
      schema.checkColumns (column.name :: seen) rest
    else
      .error (.unknownType column.typeName (schema.partName column.name))

def check (schema : Schema) : Except SchemaError Unit := do
  schema.checkObjectFields [] schema.objectFields
  checkObjectNames [] schema.objects
  schema.checkObjects schema.objects
  schema.checkColumns [] schema.columns

/-! ## Building in passes -/

/--
The fields of an object, or the name of the first member whose type is not known yet.
-/
def memberFields (schema : Schema) (registry : Registry) (object : ObjectDecl) :
    List String → Except String (List Field)
  | [] => .ok []
  | member :: rest =>
    let kind? := (schema.objectField? (object.fullName member)).bind fun field =>
      registry.kind? field.typeName field.isCollection
    match kind? with
    | none => .error (schema.memberName object member)
    | some kind =>
      (schema.memberFields registry object rest).map (⟨object.shortName member, kind⟩ :: ·)

/--
What a pass finds: the objects that can be built, and the others with the member that each one
waits for.
-/
structure Pass where
  ready : List RecordType
  blocked : List (ObjectDecl × String)

def pass (schema : Schema) (registry : Registry) : List ObjectDecl → Pass
  | [] => ⟨[], []⟩
  | object :: rest =>
    let found := schema.pass registry rest
    match schema.memberFields registry object object.members with
    | .ok fields => { found with ready := ⟨object.name, fields⟩ :: found.ready }
    | .error culprit => { found with blocked := (object, culprit) :: found.blocked }

theorem length_pass (schema : Schema) (registry : Registry) (pending : List ObjectDecl) :
    (schema.pass registry pending).ready.length + (schema.pass registry pending).blocked.length =
      pending.length := by
  induction pending with
  | nil => rfl
  | cons object rest ih =>
    rw [pass]
    split <;> simp only [List.length_cons] <;> omega

/--
Build the pending objects after some passes. Gives the registry that holds them and the number of
all passes.
-/
def buildObjects (schema : Schema) (registry : Registry) (passes : Nat)
    (pending : List ObjectDecl) : Except SchemaError (Registry × Nat) :=
  if pending = [] then
    .ok (registry, passes)
  else
    let found := schema.pass registry pending
    if hready : found.ready = [] then
      .error (.dependency schema.name (found.blocked.map (·.1.name)) (found.blocked.map (·.2))
        (passes + 1))
    else
      match registry.registerAll found.ready with
      | .ok larger => schema.buildObjects larger (passes + 1) (found.blocked.map (·.1))
      | .error error => .error error
termination_by pending.length
decreasing_by
  have hlength := schema.length_pass registry pending
  have hpos := List.length_pos_iff.2 hready
  simp only [List.length_map, found] at hpos ⊢
  omega

def columnFields (schema : Schema) (registry : Registry) :
    List FieldDecl → Except SchemaError (List Field)
  | [] => .ok []
  | column :: rest =>
    match registry.kind? column.typeName column.isCollection with
    | none => .error (.unknownType column.typeName (schema.partName column.name))
    | some kind => (schema.columnFields registry rest).map (⟨column.name, kind⟩ :: ·)

/--
Build all types of a table. Gives the type of its rows, and the registry that holds it behind the
types of the objects.
-/
def build (schema : Schema) : Except SchemaError (RecordType × Registry) := do
  schema.check
  let (registry, _) ← schema.buildObjects .empty 0 schema.objects
  let fields ← schema.columnFields registry schema.columns
  let root : RecordType := ⟨schema.name, fields⟩
  let registry ← registry.register schema.name root
  .ok (root, registry)

end Schema

end RowTree
