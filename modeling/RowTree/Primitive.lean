/-!
This module holds the seven primitive kinds of values and their names. `ofName?_name` says that
every kind is found under its name.
-/

namespace RowTree

inductive Primitive where
  | int
  | float
  | string
  | bool
  | uint
  | datetime
  | double
  deriving DecidableEq, Repr

namespace Primitive

def all : List Primitive :=
  [.int, .float, .string, .bool, .uint, .datetime, .double]

def name : Primitive → String
  | .int => "int"
  | .float => "float"
  | .string => "string"
  | .bool => "bool"
  | .uint => "uint"
  | .datetime => "datetime"
  | .double => "double"

def ofName? (name : String) : Option Primitive :=
  all.find? (·.name == name)

def isName (name : String) : Bool :=
  (ofName? name).isSome

theorem mem_all (p : Primitive) : p ∈ all := by
  cases p <;> decide

theorem nodup_all_names : (all.map name).Nodup := by
  decide

@[simp]
theorem ofName?_name (p : Primitive) : ofName? p.name = some p := by
  cases p <;> decide

theorem ofName?_eq_some_iff {s : String} {p : Primitive} : ofName? s = some p ↔ s = p.name := by
  constructor
  · intro h
    rw [ofName?] at h
    have hname := List.find?_some h
    exact (eq_of_beq hname).symm
  · rintro rfl
    exact ofName?_name p

end Primitive

end RowTree
