import RowTree.Proofs.Registry.Index

/-!
This module contains what a registry remembers of the calls that made it. Of all calls on a new
registry those that succeed stand in it in their order (`Registry.records_run`), and every later
call and look-up is answered from them (`Registry.MadeBy`). Registries that keep places beside their
entries go through the same states (`Registry.run_indexed`).
-/

namespace RowTree

abbrev Registration := String × RecordType

namespace Registry

variable {registry : Registry} {name : String} {type : RecordType}

def apply (registry : Registry) (call : Registration) : Registry :=
  match registry.register call.1 call.2 with
  | .ok larger => larger
  | .error _ => registry

def run (registry : Registry) (calls : List Registration) : Registry :=
  calls.foldl apply registry

def accepted (registry : Registry) : List Registration → List Registration
  | [] => []
  | call :: rest =>
    match registry.register call.1 call.2 with
    | .ok larger => call :: larger.accepted rest
    | .error _ => registry.accepted rest

/-! ## Steps and runs -/

theorem register_of_not_mem (h : name ∉ registry.names) (type : RecordType) :
    registry.register name type = .ok ⟨registry.records ++ [(name, type)]⟩ :=
  if_neg (mt isDefined_iff.1 h)

theorem register_of_mem (h : name ∈ registry.names) (type : RecordType) :
    registry.register name type = .error (.duplicateType name) :=
  if_pos (isDefined_iff.2 h)

theorem register_eq_error_iff {error : SchemaError} :
    registry.register name type = .error error ↔
      error = .duplicateType name ∧ name ∈ registry.names := by
  by_cases hmem : name ∈ registry.names
  · rw [register_of_mem hmem, Except.error.injEq, and_iff_left hmem]
    exact eq_comm
  · rw [register_of_not_mem hmem]
    simp [hmem]

theorem nodup_names_apply (h : registry.names.Nodup) (call : Registration) :
    (registry.apply call).names.Nodup := by
  unfold apply
  split
  · next hlarger => exact nodup_names_of_register hlarger h
  · exact h

theorem nodup_names_run (h : registry.names.Nodup) (calls : List Registration) :
    (registry.run calls).names.Nodup := by
  induction calls generalizing registry with
  | nil => exact h
  | cons call rest ih => exact ih (nodup_names_apply h call)

theorem records_run (registry : Registry) (calls : List Registration) :
    (registry.run calls).records = registry.records ++ registry.accepted calls := by
  induction calls generalizing registry with
  | nil => exact (List.append_nil _).symm
  | cons call rest ih =>
    have hrun : registry.run (call :: rest) = (registry.apply call).run rest := rfl
    rw [hrun, ih, accepted, apply]
    cases hcall : registry.register call.1 call.2 with
    | error error => rfl
    | ok larger =>
      dsimp only
      rw [records_of_register hcall, List.append_assoc]
      rfl

theorem within_run (registry : Registry) (calls : List Registration) :
    registry.Within (registry.run calls) := by
  have hwithin := within_append registry.records (registry.accepted calls)
  rw [← records_run] at hwithin
  exact hwithin

/-! ## What the calls leave -/

/--
What a registry says about the accepted calls that made it. Each name stands for the type of its
only accepted call, and a name is free until it has one.
-/
structure MadeBy (registry : Registry) (accepted : List Registration) : Prop where
  nodup : registry.names.Nodup
  names_eq : registry.names = Primitive.all.map (·.name) ++ accepted.map (·.1)
  resolve_primitive : ∀ p : Primitive, registry.resolve p.name = .ok (.primitive p)
  resolve_record : ∀ name type, registry.resolve name = .ok (.record type) ↔
    accepted.filter (·.1 = name) = [(name, type)]
  resolve_unknown : ∀ name error, registry.resolve name = .error error ↔
    error = .unknownType name "registry lookup" ∧ Primitive.isName name = false ∧
      ∀ call ∈ accepted, call.1 ≠ name
  register_refused : ∀ name type error, registry.register name type = .error error ↔
    error = .duplicateType name ∧
      (Primitive.isName name = true ∨ ∃ call ∈ accepted, call.1 = name)
  recordCount_eq : registry.recordCount = accepted.length

theorem resolve_eq_ok_iff {found : NamedType} :
    registry.resolve name = .ok found ↔ registry.find? name = some found := by
  unfold resolve
  cases registry.find? name <;> simp

theorem resolve_eq_error_iff {error : SchemaError} :
    registry.resolve name = .error error ↔
      error = .unknownType name "registry lookup" ∧ name ∉ registry.names := by
  rw [← isDefined_iff, isDefined]
  unfold resolve
  cases registry.find? name <;> simp [eq_comm]

theorem mem_names_iff_exists :
    name ∈ registry.names ↔
      Primitive.isName name = true ∨ ∃ record ∈ registry.records, record.1 = name := by
  rw [mem_names_iff, List.mem_map]

theorem filter_records_eq_iff (hnodup : (registry.records.map (·.1)).Nodup) :
    registry.records.filter (·.1 = name) = [(name, type)] ↔ (name, type) ∈ registry.records := by
  constructor
  · intro h
    have hmem : (name, type) ∈ registry.records.filter (·.1 = name) := by simp [h]
    exact List.mem_of_mem_filter hmem
  · intro hmem
    obtain ⟨front, back, hsplit⟩ := List.append_of_mem hmem
    rw [hsplit, List.map_append, List.map_cons, List.nodup_middle, List.nodup_cons,
      List.mem_append, not_or] at hnodup
    obtain ⟨⟨hfront, hback⟩, _⟩ := hnodup
    have apart (records : List Registration) (h : name ∉ records.map (·.1)) :
        records.filter (·.1 = name) = [] := by
      rw [List.filter_eq_nil_iff]
      rintro record hrecord hname
      exact h (List.mem_map.2 ⟨record, hrecord, by simpa using hname⟩)
    rw [hsplit, List.filter_append, List.filter_cons, if_pos (by simp), apart front hfront,
      apart back hback, List.nil_append]

theorem madeBy_records (h : registry.names.Nodup) : registry.MadeBy registry.records where
  nodup := h
  names_eq := rfl
  resolve_primitive p := by
    rw [resolve_eq_ok_iff, find?, Primitive.ofName?_name]
  resolve_record name type := by
    rw [resolve_eq_ok_iff, find?_eq_record_iff h, filter_records_eq_iff (List.nodup_append.1 h).2.1]
  resolve_unknown name error := by
    rw [resolve_eq_error_iff, mem_names_iff_exists, not_or, Bool.not_eq_true]
    simp only [not_exists, not_and, ne_eq]
  register_refused name type error := by
    rw [register_eq_error_iff, mem_names_iff_exists]
  recordCount_eq := rfl

theorem madeBy_run_empty (calls : List Registration) :
    (empty.run calls).MadeBy (empty.accepted calls) := by
  have hmade := madeBy_records (nodup_names_run nodup_names_empty calls)
  rw [records_run] at hmade
  exact hmade

end Registry

/-! ## Runs with places -/

namespace IndexedRegistry

def apply (registry : IndexedRegistry) (call : Registration) : IndexedRegistry :=
  match registry.register call.1 call.2 with
  | .ok larger => larger
  | .error _ => registry

def run (registry : IndexedRegistry) (calls : List Registration) : IndexedRegistry :=
  calls.foldl apply registry

end IndexedRegistry

namespace Registry

theorem apply_indexed (registry : Registry) (call : Registration) :
    registry.indexed.apply call = (registry.apply call).indexed := by
  unfold IndexedRegistry.apply apply
  rw [register_indexed]
  cases registry.register call.1 call.2 <;> rfl

theorem run_indexed (registry : Registry) (calls : List Registration) :
    registry.indexed.run calls = (registry.run calls).indexed := by
  induction calls generalizing registry with
  | nil => rfl
  | cons call rest ih =>
    have hrest := ih (registry.apply call)
    rw [← apply_indexed] at hrest
    exact hrest

/--
After any calls on a new registry the names, the look-ups, the refusals and the count are told by
the calls that succeed. A refused call changes nothing, and a name stands for the same in what
follows. With places beside the entries every call and look-up ends the same: the place of a name is
where it stands among the names, so no look-up goes beyond the end.
-/
theorem run_registrations (beyond : Except SchemaError NamedType) (calls : List Registration) :
    let registry := empty.run calls
    let places := IndexedRegistry.new.run calls
    registry.MadeBy (empty.accepted calls) ∧
      (∀ call error, registry.register call.1 call.2 = .error error →
        registry.apply call = registry) ∧
      (∀ later name found, registry.resolve name = .ok found →
        (registry.run later).resolve name = .ok found) ∧
      places = registry.indexed ∧ places.names = registry.names ∧
      (∀ name i, places.places name = some i ↔ places.names[i]? = some name) ∧
      (∀ name type, places.register name type = (registry.register name type).map indexed) ∧
      (∀ name, places.resolve beyond name = registry.resolve name) ∧
      places.recordCount? = some registry.recordCount := by
  intro registry places
  have hmade : registry.MadeBy (empty.accepted calls) := madeBy_run_empty calls
  have hplaces : places = registry.indexed := by
    unfold places
    rw [← indexed_empty]
    exact run_indexed empty calls
  refine ⟨hmade, fun call error herror => ?_, fun later name found hfound => ?_, hplaces, ?_⟩
  · unfold apply
    rw [herror]
  · rw [resolve_eq_ok_iff] at hfound ⊢
    exact within_run registry later name found hfound
  · have hnames : places.names = registry.names := by
      rw [hplaces]
      exact names_entries registry
    refine ⟨hnames, fun name i => ?_, ?_, ?_, ?_⟩
    · rw [hnames, hplaces]
      exact places_indexed_iff hmade.nodup
    · rw [hplaces]
      exact register_indexed registry
    · rw [hplaces]
      exact resolve_indexed beyond registry
    · rw [hplaces]
      exact recordCount?_indexed registry

/--
The first type of a name stays, and the name of a primitive is never taken.
-/
theorem run_registrations_stats :
    let stats : RecordType := ⟨"Stats", []⟩
    let other : RecordType := ⟨"Other", [⟨"hp", .primitive .int⟩]⟩
    let registry := empty.run [("Stats", stats), ("int", other), ("Box", other), ("Stats", other)]
    (registry.names = ["int", "float", "string", "bool", "uint", "datetime", "double", "Stats",
        "Box"] ∧ registry.recordCount = 2) ∧
      (registry.register "Stats" other = .error (.duplicateType "Stats") ∧
        registry.apply ("Stats", other) = registry) ∧
      registry.resolve "Stats" = .ok (.record stats) ∧
        (registry.run [("Stats", other), ("Box", stats)]).resolve "Stats" =
          .ok (.record stats) := by
  intro stats other registry
  obtain ⟨_, hrefused, hlater, _⟩ := run_registrations (.error (.duplicateType ""))
    [("Stats", stats), ("int", other), ("Box", other), ("Stats", other)]
  have hregister : registry.register "Stats" other = .error (.duplicateType "Stats") := rfl
  have hresolve : registry.resolve "Stats" = .ok (.record stats) := rfl
  exact ⟨⟨by decide, by decide⟩, ⟨hregister, hrefused ("Stats", other) _ hregister⟩, hresolve,
    hlater _ _ _ hresolve⟩

end Registry

end RowTree
