import RowTree.Record.Write

/-!
This module holds the import of a flat list of entries into a record. The entries are written in
the order of their paths, so that the elements of a collection come in order wherever they stand
in the list; each refused entry is reported and the others are kept.
-/

namespace RowTree

structure Entry where
  key : String
  value : Scalar
  deriving DecidableEq

def Entry.path (entry : Entry) : Path :=
  Path.ofText entry.key

structure EntryError where
  key : String
  error : WriteError
  deriving DecidableEq, Repr

def EntryError.message (error : EntryError) : String :=
  "in path \"" ++ error.key ++ "\": " ++ error.error.message

def EntryError.listMessage (errors : List EntryError) : String :=
  let count := indexText errors.length ++ if errors.length = 1 then " entry" else " entries"
  count ++ " failed" ++ String.join (errors.map fun error => "; " ++ error.message)

def Entry.before (a b : List Path.Rank × Entry) : Bool :=
  (Path.order a.1 b.1).isLE

/--
The entries in the order of their paths. Entries with equal paths keep their order.
-/
def Entry.inPathOrder (entries : List Entry) : List Entry :=
  ((entries.map fun entry => (entry.path.ranks, entry)).mergeSort Entry.before).map (·.2)

namespace Record

def writeAll (record : Record) : List Entry → Record × List EntryError
  | [] => (record, [])
  | entry :: rest =>
    let attempt := record.write entry.path entry.value
    let (final, errors) := attempt.value.writeAll rest
    match attempt.error? with
    | none => (final, errors)
    | some error => (final, ⟨entry.key, error⟩ :: errors)

/--
Import entries in the order of their paths. Gives the record with all that could be written, and
the entries that could not.
-/
def importEntries (record : Record) (entries : List Entry) : Record × List EntryError :=
  record.writeAll (Entry.inPathOrder entries)

end Record

theorem Entry.inPathOrder_perm (entries : List Entry) :
    (Entry.inPathOrder entries).Perm entries := by
  have h := (List.mergeSort_perm (entries.map fun entry => (entry.path.ranks, entry))
    Entry.before).map (·.2)
  simpa [Entry.inPathOrder, Function.comp_def] using h

theorem Entry.pairwise_inPathOrder (entries : List Entry) :
    (Entry.inPathOrder entries).Pairwise fun a b =>
      (Path.order a.path.ranks b.path.ranks).isLE = true := by
  have hsorted := @List.pairwise_mergeSort _ Entry.before
    (fun _ _ _ hab hbc => Std.TransCmp.isLE_trans hab hbc)
    (fun a b => by
      have hswap : Path.order b.1 a.1 = (Path.order a.1 b.1).swap := Std.OrientedCmp.eq_swap
      rw [Entry.before, Entry.before, hswap]
      cases Path.order a.1 b.1 <;> rfl)
    (entries.map fun entry => (entry.path.ranks, entry))
  rw [Entry.inPathOrder, List.pairwise_map]
  refine hsorted.imp_of_mem fun {a b} ha hb hab => ?_
  simp only [List.mem_mergeSort, List.mem_map] at ha hb
  obtain ⟨_, _, rfl⟩ := ha
  obtain ⟨_, _, rfl⟩ := hb
  exact hab

namespace Record

theorem type_writeAll (record : Record) (entries : List Entry) :
    (record.writeAll entries).1.type = record.type := by
  induction entries generalizing record with
  | nil => rfl
  | cons entry rest ih =>
    have hrest := ih (record.write entry.path entry.value).value
    rw [type_write] at hrest
    rw [writeAll]
    dsimp only
    split <;> exact hrest

theorem type_importEntries (record : Record) (entries : List Entry) :
    (record.importEntries entries).1.type = record.type :=
  record.type_writeAll _

end Record

end RowTree
