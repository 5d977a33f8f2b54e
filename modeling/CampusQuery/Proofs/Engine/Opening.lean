import Mathlib
import CampusQuery.Proofs.Engine.Change

/-!
# Opening an engine

An engine that is opened agrees with the archive in its directory, and opening one where an engine
agrees with its archive gives that engine again and changes nothing.

* `exists_registerAll_of_mapM` — datasets from files of different names can all be registered.
* `of_open` — what is so of an engine that has been opened.
* `registry_eq_empty_iff` — when it has no datasets.
* `Agrees.on_open` — opening once more.
-/

namespace CampusQuery

open CampusQuery.FileTree CampusQuery.Archive

/-! ## Directories -/

theorem Disk.now_makeDirectories (path : String) (machine : Machine) :
    (machine.on (Disk.makeDirectories path)).2.now = machine.now :=
  Machine.Keeps.makeLineage (P := fun made => made.now = machine.now)
    (fun _ => .change fun _ _ h _ => h) _ machine rfl

/-- Making a directory that is there changes nothing. -/
theorem Disk.on_makeDirectories {machine : Machine} {path : String} {place : List String}
    (h : machine.files.locate path = .ok place)
    (hplace : machine.files.find? place = some .directory) :
    machine.on (Disk.makeDirectories path) = (.ok (), machine) := by
  obtain ⟨-, hne, -, -⟩ := locate_eq_ok_iff.mp h
  have hlineage : ∃ above, Path.lineage path = path :: above := by
    simp [Path.lineage, hne]
  obtain ⟨above, hlineage⟩ := hlineage
  rw [makeDirectories, hlineage, makeLineage, Machine.on_bind, Machine.on_makeDirectory,
    makeDirectory_of_directory h hplace]
  dsimp only
  rw [Machine.on_bind, Machine.on_isDirectory, isDirectory_iff.mpr ⟨place, h, hplace⟩]
  rfl

namespace FileTree

/-- No place stands in a tree twice. -/
structure IsDistinct (t : FileTree) : Prop where
  nodes : (t.nodes.map Prod.fst).Nodup
  strays : (t.strays.map Prod.fst).Nodup

theorem IsDistinct.makeDirectory {t t' : FileTree} {path : String} (h : t.IsDistinct)
    (hmake : t.makeDirectory path = .ok t') : t'.IsDistinct := by
  unfold FileTree.makeDirectory at hmake
  cases hlocate : t.locate (trimEnd path) with
  | error => simp [hlocate, bind, Except.bind] at hmake
  | ok place =>
    cases hplace : t.find? place with
    | some node => simp [hlocate, hplace, bind, Except.bind] at hmake
    | none =>
      simp only [hlocate, hplace, bind, Except.bind, Except.ok.injEq] at hmake
      subst hmake
      refine ⟨?_, h.strays⟩
      unfold set
      rw [List.map_cons, List.nodup_cons]
      refine ⟨fun hmem => ?_, h.nodes.sublist (List.filter_sublist.map _)⟩
      obtain ⟨entry, hentry, heq⟩ := List.mem_map.mp hmem
      simpa [heq] using (List.mem_filter.mp hentry).2

/-- No name stands in a directory twice. -/
theorem IsDistinct.nodup_namesIn {t : FileTree} (h : t.IsDistinct) (directory : List String) :
    (t.namesIn directory).Nodup := by
  have htexts :
      (t.nodes.filterMap fun entry => (nameIn? directory entry.1).map Name.text).Nodup := by
    have hplaces : (t.nodes.filterMap fun entry => (nameIn? directory entry.1).map Name.text) =
        (t.nodes.map Prod.fst).filterMap fun place => (nameIn? directory place).map Name.text := by
      rw [List.filterMap_map]
      rfl
    rw [hplaces]
    refine h.nodes.filterMap fun place place' name hname hname' => ?_
    obtain ⟨s, hs, rfl⟩ := Option.map_eq_some_iff.mp hname
    obtain ⟨s', hs', heq⟩ := Option.map_eq_some_iff.mp hname'
    obtain rfl := Name.text.inj heq
    rw [nameIn?_eq_some_iff.mp hs, nameIn?_eq_some_iff.mp hs']
  have hstrays : (t.strayNamesIn directory).Nodup := by
    have hplaces : t.strayNamesIn directory =
        ((t.strays.map Prod.fst).filter fun key => key.1 == directory).map fun key =>
          .raw key.2 := by
      rw [List.filter_map, List.map_map]
      rfl
    rw [hplaces]
    refine (h.strays.filter _).map_on fun key hkey key' hkey' heq => ?_
    have hdirectory := (List.mem_filter.mp hkey).2
    have hdirectory' := (List.mem_filter.mp hkey').2
    simp only [beq_iff_eq] at hdirectory hdirectory'
    exact Prod.ext (hdirectory.trans hdirectory'.symm) (Name.raw.inj heq)
  refine List.nodup_append.mpr ⟨htexts, hstrays, fun name hname name' hname' heq => ?_⟩
  obtain ⟨_, -, htext⟩ := List.mem_filterMap.mp hname
  obtain ⟨s, -, rfl⟩ := Option.map_eq_some_iff.mp htext
  obtain ⟨_, -, rfl⟩ := List.mem_map.mp hname'
  cases heq

end FileTree

theorem Disk.isDistinct_makeDirectories {path : String} {machine made : Machine}
    (h : machine.files.IsDistinct)
    (hmake : machine.on (Disk.makeDirectories path) = (.ok (), made)) : made.files.IsDistinct := by
  have hkept : (machine.on (Disk.makeDirectories path)).2.files.IsDistinct :=
    Machine.Keeps.makeLineage (P := fun machine => machine.files.IsDistinct)
      (fun _ => .change fun _ _ h => h.makeDirectory) _ machine h
  rwa [hmake] at hkept

namespace Engine

/-! ## Files of different names -/

/-- Datasets that are loaded from files of different names can all be registered. -/
theorem exists_registerAll_of_mapM {a : Archive} {now : Instant} {t : FileTree}
    {names : List Name} {ds : List Dataset} (hnames : ∀ name ∈ names, isFileName name = true)
    (hnodup : names.Nodup) (h : names.mapM (a.datasetIn now t) = .ok ds) :
    ∃ r, registerAll .empty ds = .ok r := by
  have hall : ∀ d ∈ ds, d.IsRegistrable := by
    intro d hd
    obtain ⟨name, hname, hd⟩ := (mem_iff_of_mapM h).mp hd
    exact (exists_of_datasetIn (hnames name hname) hd).2.1
  have hids : (ds.map Dataset.id).Nodup := by
    rw [names_eq_of_mapM hnames h] at hnodup
    exact List.Nodup.of_map (fun id => Name.text (fileName id)) (by rwa [List.map_map])
  obtain ⟨r, hr, -, -⟩ := registerAll_perm Registry.sorted_empty hall
    (by simpa [Registry.empty] using hids)
  exact ⟨r, hr⟩

theorem nodup_datasetNames {t : FileTree} (h : t.IsDistinct) (directory : List String) :
    (datasetNames (t.namesIn directory)).Nodup :=
  (List.mergeSort_perm _ _).nodup_iff.mpr ((h.nodup_namesIn directory).filter _)

/-! ## What has been opened -/

theorem on_openArchive (root : String) (limit : Nat) (machine : Machine) :
    ∃ machine', machine.on (openArchive root limit) =
        (match machine.on (Disk.makeDirectories root) with
          | (.error fault, _) => .error (.disk root fault)
          | (.ok (), made) =>
            match made.on ((⟨root⟩ : Archive).load made.now) with
            | (.error e, _) => .error e
            | (.ok ds, _) =>
              (registerAll .empty ds).map fun r => ⟨r, some ⟨root⟩, limit⟩, machine') ∧
      machine'.files = (machine.on (Disk.makeDirectories root)).2.files := by
  rw [openArchive, Machine.on_bind, Archive.open_, Machine.on_bind]
  rcases machine.on (Disk.makeDirectories root) with ⟨_ | _, made⟩
  · exact ⟨made, rfl, rfl⟩
  · dsimp only
    rw [Machine.on_pure]
    dsimp only
    rw [Machine.on_bind, Machine.on_now]
    dsimp only
    rw [Machine.on_bind]
    rcases hload : made.on ((⟨root⟩ : Archive).load made.now) with ⟨_ | ds, loaded⟩
    · have hloaded : loaded = made := by
        rw [Archive.on_load] at hload
        exact (congrArg Prod.snd hload).symm
      subst hloaded
      exact ⟨_, rfl, (Machine.sameWorld_record _ _ _).files.symm⟩
    · have hloaded : loaded = made := by
        rw [Archive.on_load] at hload
        exact (congrArg Prod.snd hload).symm
      subst hloaded
      dsimp only
      cases registerAll .empty ds with
      | error => exact ⟨_, rfl, rfl⟩
      | ok r => exact ⟨_, rfl, (Machine.sameWorld_record _ _ _).files.symm⟩

theorem on_open (root : String) (limit : Nat) (machine : Machine) :
    ∃ machine₀ machine', Machine.SameWorld machine machine₀ ∧
      machine.on (open_ (some root) limit) =
        ((machine₀.on (openArchive root limit)).1, machine') ∧
      machine'.files = (machine₀.on (openArchive root limit)).2.files := by
  refine ⟨(machine.on (Journal.record .startupBegin [])).2, ?_⟩
  rw [open_, Machine.on_bind]
  dsimp only
  rw [Machine.on_bind]
  rcases (machine.on (Journal.record .startupBegin [])).2.on (openArchive root limit) with
    ⟨_ | e, opened⟩
  · exact ⟨_, Machine.sameWorld_record _ _ _, rfl, rfl⟩
  · exact ⟨_, Machine.sameWorld_record _ _ _, rfl, (Machine.sameWorld_record _ _ _).files.symm⟩

/-- An engine that has been opened has the datasets that its archive held. -/
theorem of_open {root : String} {limit : Nat} {machine machine' : Machine} {e : Engine}
    (h : machine.on (open_ (some root) limit) = (.ok e, machine')) :
    ∃ names ds, machine'.files.list root = .ok names ∧
      (datasetNames names).mapM ((⟨root⟩ : Archive).datasetIn machine.now machine'.files) = .ok ds ∧
      registerAll .empty ds = .ok e.registry ∧ e.archive = some ⟨root⟩ ∧ e.limit = limit := by
  obtain ⟨machine₀, machine₁, hworld, hon, hfiles⟩ := on_open root limit machine
  rw [h] at hon
  obtain ⟨hresult, rfl⟩ := Prod.mk.inj hon
  obtain ⟨machine₂, hopen, hfiles'⟩ := on_openArchive root limit machine₀
  rw [hopen] at hresult hfiles
  have hnow := Disk.now_makeDirectories root machine₀
  dsimp only at hresult hfiles
  rw [hfiles'] at hfiles
  rcases hmade : machine₀.on (Disk.makeDirectories root) with ⟨_ | _, made⟩
  · rw [hmade] at hresult
    cases hresult
  · rw [hmade] at hresult hfiles hnow
    dsimp only at hresult hfiles hnow
    rw [Archive.on_load, hnow, ← hworld.now, ← hfiles] at hresult
    dsimp only at hresult
    cases hlist : machine'.files.list root with
    | error => simp [hlist] at hresult
    | ok names =>
      rw [hlist] at hresult
      dsimp only at hresult
      cases hds : (datasetNames names).mapM
          ((⟨root⟩ : Archive).datasetIn machine.now machine'.files) with
      | error => simp [hds] at hresult
      | ok ds =>
        rw [hds] at hresult
        dsimp only at hresult
        cases hr : registerAll .empty ds with
        | error => simp [hr, Except.map] at hresult
        | ok r =>
          rw [hr] at hresult
          obtain rfl := Except.ok.inj hresult
          exact ⟨names, ds, rfl, hds, hr, rfl, rfl⟩

/-- An engine that has been opened has no datasets just if no file in its directory has the name of
the file of one. -/
theorem registry_eq_empty_iff {root : String} {limit : Nat} {machine machine' : Machine}
    {e : Engine} (h : machine.on (open_ (some root) limit) = (.ok e, machine')) {names : List Name}
    (hnames : machine'.files.list root = .ok names) :
    e.registry = .empty ↔ datasetNames names = [] := by
  obtain ⟨names', ds, hnames', hds, hr, -, -⟩ := of_open h
  obtain rfl := Except.ok.inj (hnames.symm.trans hnames')
  have hlength := (mapM_eq_ok_iff.mp hds).length_eq
  obtain ⟨-, hperm, -⟩ := registerAll_eq_ok_perm Registry.sorted_empty hr
  constructor
  · intro hempty
    rw [hempty] at hperm
    have hnone : ds = [] := List.nil_perm.mp hperm
    rw [hnone] at hlength
    exact List.length_eq_zero_iff.mp hlength
  · intro hnone
    rw [hnone] at hlength
    obtain rfl := List.length_eq_zero_iff.mp hlength.symm
    exact (Except.ok.inj hr).symm

/-! ## Opening once more -/

variable {reads : List UInt8 → Dataset → Prop} {e : Engine} {directory : List String}

/-- Opening an engine where one agrees with its archive gives this engine, and the files are as they
were. -/
theorem Agrees.on_open {machine : Machine} (h : Agrees reads e machine.files directory)
    {a : Archive} (ha : e.archive = some a)
    (hreads : ∀ d ∈ e.registry.datasets, ∀ bytes path, reads bytes d →
      Dataset.ofFile path d.id bytes machine.now = .ok d) :
    ∃ machine', machine.on (open_ (some a.root) e.limit) = (.ok e, machine') ∧
      machine'.files = machine.files := by
  obtain ⟨a', ha', hholds⟩ := h
  obtain rfl := Option.some.inj (ha.symm.trans ha')
  obtain ⟨machine₀, machine₁, hworld, hon, hfiles⟩ := Engine.on_open a.root e.limit machine
  obtain ⟨machine₂, hopen, hfiles'⟩ := on_openArchive a.root e.limit machine₀
  rw [hworld.files] at hholds
  rw [hworld.now] at hreads
  have hmake := Disk.on_makeDirectories hholds.isAt.located hholds.isAt.found
  obtain ⟨ds, hload, hperm⟩ := hholds.on_load hreads
  have hregister := registerAll_eq_ok hholds.sorted hholds.registrable hperm
  refine ⟨machine₁, ?_, ?_⟩
  · rw [hon, hopen, hmake]
    dsimp only
    rw [hload]
    dsimp only
    rw [hregister]
    exact congrArg (·, machine₁) (congrArg Except.ok (by rw [← ha]))
  · rw [hfiles, hopen, hfiles', hmake, hworld.files]

end Engine

end CampusQuery
