import RowTree.Kind
import RowTree.Scalar.Coercion

/-!
This module holds records: trees of values that follow a record type. A record has one slot for
each field of its type, and a slot is unset until something is written into it.
-/

namespace RowTree

mutual

inductive Value where
  | unset
  | scalar (s : Scalar)
  | nested (record : Record)
  | collection (items : List Value)

/--
A value for each field of a record type, in the order of the fields.
-/
structure Record where
  type : RecordType
  slots : List Value

end

instance : Inhabited Value := ⟨.unset⟩

namespace Record

def empty (type : RecordType) : Record :=
  ⟨type, List.replicate type.fields.length .unset⟩

def slot? (record : Record) (name : String) : Option Value :=
  (record.type.slot? name).bind fun i => record.slots[i]?

end Record

def Value.isUnset : Value → Bool
  | .unset => true
  | _ => false

def Record.isSet (record : Record) (name : String) : Bool :=
  match record.slot? name with
  | some value => !value.isUnset
  | none => false

mutual

/--
Equality of values, with scalars compared as values of their kind.
-/
def Value.same : Value → Value → Bool
  | .unset, .unset => true
  | .scalar s, .scalar t => s.same t
  | .nested r, .nested s => r.same s
  | .collection vs, .collection ws => Value.sameLists vs ws
  | _, _ => false
termination_by structural v => v

def Record.same : Record → Record → Bool
  | ⟨type, slots⟩, other => type = other.type && Value.sameLists slots other.slots
termination_by structural r => r

def Value.sameLists : List Value → List Value → Bool
  | [], [] => true
  | v :: vs, w :: ws => v.same w && Value.sameLists vs ws
  | _, _ => false
termination_by structural vs => vs

end

end RowTree
