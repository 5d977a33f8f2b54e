import Mathlib
import CampusQuery.Proofs.Registry.History
import CampusQuery.Proofs.Text.ByteOrder

/-!
# The registry as a finite map

Whatever is asked of a registry, one thing after the other and starting without datasets, it answers
as a finite map from ids to datasets does that knows no order.

* `DatasetMap` — the finite map, with what is checked before it changes.
* `Registry.Mirrors` — a registry holds what a map holds, sorted by id and of registrable datasets.
* `Mirrors.perform` — asked for the same, both give the same response and still agree.
* `Mirrors.run` — so they do after any number of operations.
* `IsWellKept` — what that makes of every registry that is reached.
* `runOperations_eq_map` — all of it, from the registry without datasets on.
-/

namespace CampusQuery

/-- What can be asked of a registry. -/
inductive Registry.Operation where
  | add (d : Dataset)
  | remove (id : String)
  | get (id : String)
  | contains (id : String)
  | kindOf (id : String)
  | list
  | size
  | isEmpty

/-- What a registry responds. -/
inductive Registry.Response where
  /-- The ids of all datasets after one was added, or why it was not. -/
  | added (result : Except RegistryError (List String))
  | removed (result : Except RegistryError Dataset)
  | dataset (d? : Option Dataset)
  | flag (b : Bool)
  | kind (k? : Option Kind)
  | listed (infos : List DatasetInfo)
  | count (n : Nat)

/-- Whether a response says that a change was not made. -/
inductive Registry.Response.IsRefusal : Registry.Response → Prop
  | added (fault : RegistryError) : IsRefusal (.added (.error fault))
  | removed (fault : RegistryError) : IsRefusal (.removed (.error fault))

/-- Performs operations one after the other; the responses, and the state after them. -/
def runOperations {σ : Type} (perform : σ → Registry.Operation → Registry.Response × σ) :
    σ → List Registry.Operation → List Registry.Response × σ
  | s, [] => ([], s)
  | s, op :: ops =>
    let (response, s') := perform s op
    let (responses, s'') := runOperations perform s' ops
    (response :: responses, s'')

/-- Performs an operation on a registry. -/
def Registry.perform (r : Registry) : Registry.Operation → Registry.Response × Registry
  | .add d =>
    match r.add d with
    | .ok r' => (.added (.ok r'.ids), r')
    | .error fault => (.added (.error fault), r)
  | .remove id =>
    match r.remove id with
    | .ok (d, r') => (.removed (.ok d), r')
    | .error fault => (.removed (.error fault), r)
  | .get id => (.dataset (r.get? id), r)
  | .contains id => (.flag (r.contains id), r)
  | .kindOf id => (.kind (r.kindOf id), r)
  | .list => (.listed r.list, r)
  | .size => (.count r.size, r)
  | .isEmpty => (.flag (r.size == 0), r)

/-! ## The map -/

/-- Datasets by their ids, in no order. -/
abbrev DatasetMap := Finmap fun _ : String => Dataset

namespace DatasetMap

/-- The ids of a map, sorted. -/
def ids (m : DatasetMap) : List String :=
  m.keys.sort

/-- Adds a dataset: its id is checked first, then its rows, then that the id is free. -/
def add (m : DatasetMap) (d : Dataset) : Except RegistryError DatasetMap :=
  if ¬ Dataset.isValidId d.id then .error (.invalidId d.id)
  else if d.rows = #[] then .error (.noRows d.id)
  else if d.id ∈ m then .error (.alreadyExists d.id)
  else .ok (m.insert d.id d)

/-- Removes the dataset of an id that is valid and present. -/
def remove (m : DatasetMap) (id : String) : Except RegistryError (Dataset × DatasetMap) :=
  if ¬ Dataset.isValidId id then .error (.invalidId id)
  else
    match m.lookup id with
    | none => .error (.notFound id)
    | some d => .ok (d, m.erase id)

/-- Performs an operation on a map. -/
def perform (m : DatasetMap) : Registry.Operation → Registry.Response × DatasetMap
  | .add d =>
    match m.add d with
    | .ok m' => (.added (.ok m'.ids), m')
    | .error fault => (.added (.error fault), m)
  | .remove id =>
    match m.remove id with
    | .ok (d, m') => (.removed (.ok d), m')
    | .error fault => (.removed (.error fault), m)
  | .get id => (.dataset (m.lookup id), m)
  | .contains id => (.flag (decide (id ∈ m)), m)
  | .kindOf id => (.kind ((m.lookup id).map Dataset.kind), m)
  | .list => (.listed (m.ids.filterMap fun id => (m.lookup id).map Dataset.info), m)
  | .size => (.count m.keys.card, m)
  | .isEmpty => (.flag (decide (m.keys = ∅)), m)

end DatasetMap

namespace Registry

/-! ## Agreement -/

/-- A registry holds the datasets of a map, in the order of their ids. -/
structure Mirrors (r : Registry) (m : DatasetMap) : Prop where
  sorted : r.Sorted
  registrable : ∀ d ∈ r.datasets, d.IsRegistrable
  lookup : ∀ id, m.lookup id = r.get? id

variable {r : Registry} {m : DatasetMap}

theorem mirrors_empty : empty.Mirrors ∅ :=
  ⟨sorted_empty, nofun, fun _ => Finmap.lookup_empty _⟩

namespace Mirrors

theorem mem_iff (h : r.Mirrors m) {id : String} : id ∈ m ↔ r.contains id = true := by
  rw [← Finmap.lookup_isSome, h.lookup, contains]

theorem mem_ids_iff (h : r.Mirrors m) {id : String} : id ∈ r.ids ↔ id ∈ m := by
  rw [h.mem_iff, contains_iff, ids, List.mem_map]

theorem ids_eq (h : r.Mirrors m) : r.ids = m.ids := by
  have hsorted : r.ids.SortedLT := List.sortedLT_iff_pairwise.mpr (List.pairwise_map.mpr h.sorted)
  refine hsorted.eq_of_mem_iff (Finset.sortedLT_sort _) fun id => ?_
  rw [h.mem_ids_iff, DatasetMap.ids, Finset.mem_sort, Finmap.mem_keys]

theorem size_eq (h : r.Mirrors m) : r.size = m.keys.card := by
  rw [← Finset.length_sort (· ≤ ·), size, ← List.length_map Dataset.id]
  exact congrArg List.length h.ids_eq

theorem list_eq (h : r.Mirrors m) :
    r.list = m.ids.filterMap fun id => (m.lookup id).map Dataset.info := by
  have hinfo : ∀ d ∈ r.datasets, (m.lookup d.id).map Dataset.info = some d.info := by
    intro d hd
    rw [h.lookup, h.sorted.get?_eq_some_iff.mpr ⟨hd, rfl⟩, Option.map_some]
  rw [← h.ids_eq, ids, List.filterMap_map, list, ← List.filterMap_eq_map]
  exact List.filterMap_congr fun d hd => (hinfo d hd).symm

end Mirrors

/-! ## One operation -/

/-- What is checked of a dataset before it is added, in that order. -/
theorem add_eq (r : Registry) (d : Dataset) :
    r.add d =
      if ¬ Dataset.isValidId d.id then .error (.invalidId d.id)
      else if d.rows = #[] then .error (.noRows d.id)
      else if r.contains d.id then .error (.alreadyExists d.id)
      else .ok ⟨insert d r.datasets⟩ := by
  unfold add Dataset.checkId
  cases Dataset.isValidId d.id <;> by_cases hrows : d.rows = #[] <;> cases r.contains d.id <;>
    simp [hrows, bind, Except.bind, pure, Except.pure, throw, throwThe, MonadExceptOf.throw]

/-- What is checked before the dataset of an id is removed, in that order. -/
theorem remove_eq (r : Registry) (id : String) :
    r.remove id =
      if ¬ Dataset.isValidId id then .error (.invalidId id)
      else
        match r.get? id with
        | none => .error (.notFound id)
        | some d => .ok (d, ⟨r.datasets.filter fun x => x.id != id⟩) := by
  unfold remove Dataset.checkId
  cases Dataset.isValidId id <;> cases r.get? id <;>
    simp [bind, Except.bind, pure, Except.pure, throw, throwThe, MonadExceptOf.throw]

namespace Mirrors

theorem insert (h : r.Mirrors m) {r' : Registry} {d : Dataset} (hadd : r.add d = .ok r') :
    r'.Mirrors (m.insert d.id d) := by
  refine ⟨h.sorted.add hadd, ?_, fun id => ?_⟩
  · obtain ⟨hd, -, rfl⟩ := add_eq_ok_iff.mp hadd
    intro x hx
    rcases mem_insert.mp hx with rfl | hx
    · exact hd
    · exact h.registrable x hx
  · simp only [get?_of_add hadd]
    by_cases hid : id = d.id
    · rw [hid, Finmap.lookup_insert, if_pos rfl]
    · rw [Finmap.lookup_insert_of_ne _ hid, if_neg hid, h.lookup]

theorem erase (h : r.Mirrors m) {r' : Registry} {id : String} {d : Dataset}
    (hremove : r.remove id = .ok (d, r')) : r'.Mirrors (m.erase id) := by
  refine ⟨h.sorted.remove hremove, ?_, fun other => ?_⟩
  · obtain ⟨-, -, rfl⟩ := remove_eq_ok_iff.mp hremove
    exact fun x hx => h.registrable x (List.mem_filter.mp hx).1
  · simp only [get?_of_remove hremove]
    by_cases hid : other = id
    · rw [hid, Finmap.lookup_erase, if_pos rfl]
    · rw [Finmap.lookup_erase_ne hid, if_neg hid, h.lookup]

/-- A dataset is added to both, or to neither for the same reason. -/
theorem add (h : r.Mirrors m) (d : Dataset) :
    (∃ r', r.add d = .ok r' ∧ m.add d = .ok (m.insert d.id d)) ∨
      ∃ fault, r.add d = .error fault ∧ m.add d = .error fault := by
  simp only [add_eq, DatasetMap.add, h.mem_iff]
  split_ifs with hvalid hrows hfree
  · exact .inr ⟨_, rfl, rfl⟩
  · exact .inr ⟨_, rfl, rfl⟩
  · exact .inl ⟨_, rfl, rfl⟩
  · exact .inr ⟨_, rfl, rfl⟩

/-- A dataset is removed from both, or from neither for the same reason. -/
theorem remove (h : r.Mirrors m) (id : String) :
    (∃ d r', r.remove id = .ok (d, r') ∧ m.remove id = .ok (d, m.erase id)) ∨
      ∃ fault, r.remove id = .error fault ∧ m.remove id = .error fault := by
  simp only [remove_eq, DatasetMap.remove, h.lookup]
  split_ifs with hvalid
  · cases r.get? id with
    | none => exact .inr ⟨_, rfl, rfl⟩
    | some d => exact .inl ⟨_, _, rfl, rfl⟩
  · exact .inr ⟨_, rfl, rfl⟩

/-- Asked for the same, a registry and its map respond the same and still agree. -/
theorem perform (h : r.Mirrors m) (op : Operation) :
    (r.perform op).1 = (m.perform op).1 ∧ (r.perform op).2.Mirrors (m.perform op).2 := by
  cases op with
  | add d =>
    rcases h.add d with ⟨r', hr, hm⟩ | ⟨fault, hr, hm⟩
    · simp only [Registry.perform, DatasetMap.perform, hr, hm]
      exact ⟨by rw [(h.insert hr).ids_eq], h.insert hr⟩
    · simp only [Registry.perform, DatasetMap.perform, hr, hm]
      exact ⟨trivial, h⟩
  | remove id =>
    rcases h.remove id with ⟨d, r', hr, hm⟩ | ⟨fault, hr, hm⟩
    · simp only [Registry.perform, DatasetMap.perform, hr, hm]
      exact ⟨trivial, h.erase hr⟩
    · simp only [Registry.perform, DatasetMap.perform, hr, hm]
      exact ⟨trivial, h⟩
  | get id => exact ⟨congrArg Response.dataset (h.lookup id).symm, h⟩
  | contains id =>
    refine ⟨congrArg Response.flag ?_, h⟩
    simp [h.mem_iff]
  | kindOf id =>
    refine ⟨congrArg Response.kind ?_, h⟩
    rw [kindOf, h.lookup]
  | list => exact ⟨congrArg Response.listed h.list_eq, h⟩
  | size => exact ⟨congrArg Response.count h.size_eq, h⟩
  | isEmpty =>
    refine ⟨congrArg Response.flag ?_, h⟩
    rw [h.size_eq, Bool.eq_iff_iff]
    simp

/-- So they do when they are asked for any number of things, one after the other. -/
theorem run (h : r.Mirrors m) (ops : List Operation) :
    (runOperations Registry.perform r ops).1 = (runOperations DatasetMap.perform m ops).1 ∧
      (runOperations Registry.perform r ops).2.Mirrors
        (runOperations DatasetMap.perform m ops).2 := by
  induction ops generalizing r m with
  | nil => exact ⟨rfl, h⟩
  | cons op ops ih =>
    obtain ⟨hresponse, hnext⟩ := h.perform op
    obtain ⟨hresponses, hlast⟩ := ih hnext
    exact ⟨congrArg₂ List.cons hresponse hresponses, hlast⟩

end Mirrors

/-! ## What is reached -/

/-- A change that is refused is not made at all. -/
theorem perform_of_isRefusal (r : Registry) {op : Operation}
    (h : (r.perform op).1.IsRefusal) : (r.perform op).2 = r := by
  cases op with
  | add d => cases hadd : r.add d with
    | ok r' => simp only [perform, hadd] at h; cases h
    | error fault => simp only [perform, hadd]
  | remove id => cases hremove : r.remove id with
    | ok result => simp only [perform, hremove] at h; cases h
    | error fault => simp only [perform, hremove]
  | _ => rfl

/-- Ids in the order of their bytes, so that none of them stands twice. -/
def InByteOrder (ids : List String) : Prop :=
  ids.Pairwise fun x y => Json.bytesOf x < Json.bytesOf y

theorem Sorted.inByteOrder (h : r.Sorted) : InByteOrder r.ids :=
  List.pairwise_map.mpr (h.imp fun hlt => Json.bytesOf_lt_bytesOf_iff.mpr hlt)

/-- What every registry has that is reached. -/
structure IsWellKept (r : Registry) : Prop where
  /-- A dataset is found under its own id, which has a character that is not a blank and no
  underscore, and has rows. -/
  entry {id : String} {d : Dataset} : r.get? id = some d →
    d.id = id ∧ (∃ c ∈ id.toList, isBlank c = false) ∧ separator ∉ id.toList ∧ d.rows ≠ #[]
  /-- A dataset that is added is answered by the ids of all datasets, its own with them. -/
  added {d : Dataset} {ids : List String} {r' : Registry} :
    r.perform (.add d) = (.added (.ok ids), r') →
      InByteOrder ids ∧ ∀ id, id ∈ ids ↔ id = d.id ∨ ∃ x, r.get? id = some x
  /-- A list shows each dataset once, as it is registered. -/
  listed : ∃ infos, r.perform .list = (.listed infos, r) ∧
    InByteOrder (infos.map DatasetInfo.id) ∧
      ∀ info, info ∈ infos ↔
        ∃ id d, r.get? id = some d ∧ info = ⟨id, d.kind, d.rows.size, d.loadedAt⟩
  refused {op : Operation} : (r.perform op).1.IsRefusal → (r.perform op).2 = r

theorem Mirrors.isWellKept (h : r.Mirrors m) : r.IsWellKept := by
  refine ⟨fun {id d} hget => ?_, fun {d ids r'} hadd => ?_, ⟨r.list, rfl, ?_, fun info => ?_⟩,
    perform_of_isRefusal r⟩
  · obtain ⟨hd, rfl⟩ := h.sorted.get?_eq_some_iff.mp hget
    obtain ⟨hvisible, hseparator⟩ := Dataset.isValidId_iff.mp (h.registrable d hd).valid
    exact ⟨rfl, hvisible, hseparator, by simpa using (h.registrable d hd).nonempty⟩
  · rcases h.add d with ⟨r₁, hr, -⟩ | ⟨fault, hr, -⟩
    · simp only [Registry.perform, hr] at hadd
      obtain ⟨rfl, rfl⟩ : r₁.ids = ids ∧ r₁ = r' := by simpa using hadd
      refine ⟨(h.sorted.add hr).inByteOrder, fun id => ?_⟩
      rw [(h.insert hr).mem_ids_iff, Finmap.mem_insert, Finmap.mem_iff, h.lookup]
    · simp [Registry.perform, hr] at hadd
  · rw [list, List.map_map]
    exact h.sorted.inByteOrder
  · rw [list, List.mem_map]
    constructor
    · rintro ⟨d, hd, rfl⟩
      exact ⟨d.id, d, h.sorted.get?_eq_some_iff.mpr ⟨hd, rfl⟩, rfl⟩
    · rintro ⟨id, d, hget, rfl⟩
      obtain ⟨hd, rfl⟩ := h.sorted.get?_eq_some_iff.mp hget
      exact ⟨d, hd, rfl⟩

/-- Whatever is asked of a registry that has no datasets at first, the responses are those of the
finite map, in the end both hold the same datasets, and the registry is well kept. -/
theorem runOperations_eq_map (ops : List Operation) :
    ∃ responses r m, runOperations perform empty ops = (responses, r) ∧
      runOperations DatasetMap.perform ∅ ops = (responses, m) ∧
        (∀ id, r.get? id = m.lookup id) ∧ r.IsWellKept := by
  obtain ⟨hresponses, hmirrors⟩ := mirrors_empty.run ops
  refine ⟨_, _, _, rfl, Prod.ext hresponses.symm rfl, fun id => ?_, hmirrors.isWellKept⟩
  exact (hmirrors.lookup id).symm

end Registry

end CampusQuery
