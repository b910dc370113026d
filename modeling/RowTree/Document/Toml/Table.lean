import RowTree.Document.Toml.Node

/-!
This module holds the tables that a TOML document builds up line by line. Headers and dotted names
create the tables on their way. A table is defined once: neither a second header nor a dotted name
adds to a table that has a header of its own.
-/

namespace RowTree

namespace Toml

/--
What a name in a table stands for. A table is `defined` if it has a header of its own, and
`dotted` if a dotted name created it; an array of tables grows at its end.
-/
inductive Item where
  | value (node : Node)
  | table (defined : Bool) (dotted : Bool) (items : List (String × Item))
  | tables (earlier : List Node) (last : List (String × Item))

abbrev Items := List (String × Item)

mutual

def Item.toNode : Item → Node
  | .value node => node
  | .table _ _ items => .table (Item.toNodes items)
  | .tables earlier last => .list (earlier ++ [.table (Item.toNodes last)])
termination_by structural item => item

def Item.toNodes : List (String × Item) → List (String × Node)
  | [] => []
  | (name, item) :: rest => (name, item.toNode) :: Item.toNodes rest
termination_by structural items => items

end

namespace Items

/--
Change what a name stands for, where `none` is a name that is not there yet.
-/
def alter (name : String) (change : Option Item → Option Item) : Items → Option Items
  | [] => (change none).map fun item => [(name, item)]
  | (other, item) :: rest =>
    if other = name then
      (change (some item)).map fun item => (other, item) :: rest
    else
      (alter name change rest).map ((other, item) :: ·)

/--
Add a value under a dotted name, which leads through tables without a header. `path` are the names
in front of the last one.
-/
def insert (path : List String) (name : String) (node : Node) (items : Items) : Option Items :=
  match path with
  | [] =>
    items.alter name fun
      | none => some (.value node)
      | some _ => none
  | first :: rest =>
    items.alter first fun
      | none => (insert rest name node []).map (.table false true)
      | some (.table false dotted inner) =>
        if rest = [] ∧ dotted = false then
          none
        else
          (insert rest name node inner).map (.table false dotted)
      | some (.tables earlier last) =>
        if rest = [] then none else (insert rest name node last).map (.tables earlier)
      | some _ => none

def within (path : List String) (change : Items → Option Items) (items : Items) : Option Items :=
  match path with
  | [] => change items
  | first :: rest =>
    items.alter first fun
      | none => (within rest change []).map (.table false false)
      | some (.table defined dotted inner) =>
        (within rest change inner).map (.table defined dotted)
      | some (.tables earlier last) => (within rest change last).map (.tables earlier)
      | some (.value _) => none

/--
Define the table of a header. A table that other headers led through before goes to the end.
-/
def define (name : String) (items : Items) : Option Items :=
  match items.lookup name with
  | none => some (items ++ [(name, .table true false [])])
  | some (.table false false inner) =>
    some ((items.filter (·.1 != name)) ++ [(name, .table true false inner)])
  | some _ => none

def append (name : String) (items : Items) : Option Items :=
  items.alter name fun
    | none => some (.tables [] [])
    | some (.tables earlier last) =>
      some (.tables (earlier ++ [.table (Item.toNodes last)]) [])
    | some _ => none

end Items

end Toml

end RowTree
