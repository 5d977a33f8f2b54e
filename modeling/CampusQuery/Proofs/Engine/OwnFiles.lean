import Mathlib
import CampusQuery.Proofs.Disk.Names
import CampusQuery.Proofs.Engine.Session

/-!
# Files of one's own

An engine that has been asked about ids without slashes only agrees with its files, and a change
about such an id touches the file of the id and its draft, both in the directory of the archive, and
the file of no other. An id with a slash is accepted too, but has no file of its own there: its file
is elsewhere or that of another id, and what has been added under it is not found again.

* `Engine.WorksIn` — an engine and its files, which every request about such an id keeps.
* `Engine.Reaches` — the engines that come of such requests.
* `Engine.KeepsToOwnFiles` — what a change about an id leaves alone.
* `WorksIn.place_of_dotted` — ids with the file of another.
* `Reaches.keepsToOwnFiles` — the ids whose changes keep to their own files are those without a
  slash.
-/

namespace CampusQuery

open CampusQuery.Archive CampusQuery.FileTree
open Machine (Keeps KeepsWorld)

/-- A machine when its clock shows a moment. -/
def Machine.atMoment (machine : Machine) (moment : Moment) : Machine :=
  { machine with now := moment.instant }

/-! ## Names -/

namespace Engine

theorem keeps_saveTo (archive : Option Archive) (d : Dataset) :
    Keeps Machine.IsNamed (saveTo archive d) := by
  cases archive with
  | none => exact .pure _
  | some a =>
    refine (Machine.keeps_write _ _).bind fun result => ?_
    split
    · exact .pure _
    · refine (Machine.keeps_rename _ _).bind fun result => ?_
      split <;> exact .pure _

theorem keeps_deleteFrom (archive : Option Archive) (id : String) :
    Keeps Machine.IsNamed (deleteFrom archive id) := by
  cases archive with
  | none => exact .pure _
  | some a =>
    refine (Machine.keeps_remove _).bind fun result => ?_
    split <;> exact .pure _

theorem keeps_add (e : Engine) (id : String) (kind : Kind) (rows : List Json) :
    Keeps Machine.IsNamed (e.add id kind rows) := by
  have hquietly : Keeps Machine.IsNamed (e.addQuietly id kind rows) := by
    refine Keeps.now.bind fun now => ?_
    split
    · exact .pure _
    · refine (keeps_saveTo _ _).bind fun result => ?_
      split <;> exact .pure _
  refine hquietly.bind fun result => ?_
  split <;> exact (KeepsWorld.record _ _).keeps.bind fun _ => .pure _

theorem keeps_remove (e : Engine) (id : String) : Keeps Machine.IsNamed (e.remove id) := by
  have hquietly : Keeps Machine.IsNamed (e.removeQuietly id) := by
    unfold removeQuietly
    split
    · exact .pure _
    · refine (keeps_deleteFrom _ _).bind fun result => ?_
      split <;> exact .pure _
  refine hquietly.bind fun result => ?_
  split <;> exact (KeepsWorld.record _ _).keeps.bind fun _ => .pure _

theorem keeps_serve [Collator] [Converter] (e : Engine) (r : Request) : Keeps Machine.IsNamed
    (e.serve r) := by
  cases r with
  | add id kind rows =>
    refine (e.keeps_add id kind rows).bind fun result => ?_
    split <;> exact .pure _
  | remove id =>
    refine (e.keeps_remove id).bind fun result => ?_
    split <;> exact .pure _
  | list => exact .pure _
  | query raw => exact (keepsWorld_query e raw).keeps.bind fun _ => .pure _

theorem keeps_open (root : String) (limit : Nat) :
    Keeps Machine.IsNamed (open_ (some root) limit) := by
  intro machine h
  obtain ⟨machine₀, machine₁, hworld, hon, hfiles⟩ := on_open root limit machine
  obtain ⟨machine₂, hopen, hfiles'⟩ := on_openArchive root limit machine₀
  rw [hon, Machine.IsNamed, hfiles, hopen, hfiles']
  rw [Machine.IsNamed, hworld.files] at h
  exact Keeps.makeLineage Machine.keeps_makeDirectory _ machine₀ h

end Engine

/-! ## Opening at other times -/

/-- Where the files of an archive are read as the datasets of a registry, they are read at a given
time as datasets that differ in their numbers and in the time of their registration at most. -/
theorem Archive.Holds.exists_at {a : Archive} {t : FileTree} {directory : List String}
    {r : Registry} (h : Holds Dataset.Loads a t directory r) (now : Instant) :
    ∃ r' : Registry, List.Forall₂ Dataset.IsReadAs r.datasets r'.datasets ∧
      Holds (fun bytes d => ∀ path, Dataset.ofFile path d.id bytes now = .ok d) a t directory
        r' := by
  have hfile (d : Dataset) : ∃ d', d.IsReadAs d' ∧ (d ∈ r.datasets → ∃ bytes,
      t.find? (directory ++ [fileName d.id]) = some (.file bytes) ∧
        ∀ path, Dataset.ofFile path d.id bytes now = .ok d') := by
    by_cases hd : d ∈ r.datasets
    · obtain ⟨bytes, hbytes, d', hsame, hloads⟩ := h.files d hd
      obtain ⟨registered, hread⟩ := hloads now
      exact ⟨{ d' with loadedAt := registered }, ⟨hsame.id, hsame.kind, hsame.rows⟩,
        fun _ => ⟨bytes, hbytes, hread⟩⟩
    · exact ⟨d, .refl d, fun hd' => absurd hd' hd⟩
  choose found hsame hfound using hfile
  have hid (d : Dataset) : (found d).id = d.id := (hsame d).id
  have hmem {p : Dataset → Prop} (hp : ∀ d ∈ r.datasets, p (found d)) :
      ∀ d ∈ r.datasets.map found, p d := by
    intro d' hd'
    obtain ⟨d, hd, rfl⟩ := List.mem_map.mp hd'
    exact hp d hd
  refine ⟨⟨r.datasets.map found⟩, ?_, h.isAt, ?_, ?_, hmem fun d hd => ?_, ?_,
    hmem fun d hd => ?_, hmem fun d hd => ?_⟩
  · exact List.forall₂_map_right_iff.mpr (List.forall₂_same.mpr fun d _ => hsame d)
  · refine List.pairwise_map.mpr (h.sorted.imp fun {x y} hlt => ?_)
    rwa [hid x, hid y]
  · exact hmem fun d hd => (hsame d).isRegistrable (h.registrable d hd)
  · exact hid d ▸ h.hasFile d hd
  · have hnames : (r.datasets.map found).map (fun d => Name.text (fileName d.id)) =
        r.datasets.map fun d => .text (fileName d.id) := by
      simp [hid, Function.comp_def]
    exact hnames ▸ h.names
  · rw [hid]
    exact h.located d hd
  · rw [hid]
    exact hfound d hd

namespace Engine

/-- Opening an engine gives the datasets of one that agrees with the files, whenever it is done,
each with its rows or with those that are read where these were written. -/
theorem Agrees.on_open_at {e : Engine} {machine : Machine} {directory : List String}
    (h : Agrees Dataset.Loads e machine.files directory) {a : Archive} (ha : e.archive = some a) :
    ∃ e' machine', machine.on (open_ (some a.root) e.limit) = (.ok e', machine') ∧
      List.Forall₂ Dataset.IsReadAs e.registry.datasets e'.registry.datasets := by
  obtain ⟨a', ha', hholds⟩ := h
  obtain ⟨r', hsame, hholds'⟩ := hholds.exists_at machine.now
  have hagrees : Agrees _ { e with registry := r' } machine.files directory := ⟨a', ha', hholds'⟩
  obtain ⟨machine', hopen, -⟩ := hagrees.on_open ha fun _ _ _ path hbytes => hbytes path
  exact ⟨_, machine', hopen, hsame⟩

/-! ## Engines that work in a directory -/

/-- An engine on the archive in a directory that agrees with the files of a machine. -/
structure WorksIn (root : String) (limit : Nat) (directory : List String) (e : Engine)
    (machine : Machine) : Prop where
  archive : e.archive = some ⟨root⟩
  limit_eq : e.limit = limit
  named : machine.IsNamed
  agrees : Agrees Dataset.Loads e machine.files directory

/-- Opening an engine on the archive in a directory gives the datasets of one that is there,
whenever it is done: the same ids, kinds and rows, but that in place of the rows of a dataset there
may be those that are read where these were written. -/
def IsKept (root : String) (limit : Nat) (e : Engine) (machine : Machine) : Prop :=
  ∀ moment : Moment, ∃ e' machine',
    (machine.atMoment moment).on (open_ (some root) limit) = (.ok e', machine') ∧
      List.Forall₂ Dataset.IsReadAs e.registry.datasets e'.registry.datasets

variable {root : String} {limit : Nat} {directory : List String} {e : Engine} {machine : Machine}
  {id : String}

theorem WorksIn.of_open {machine' : Machine} (hnamed : machine.IsNamed)
    (hopen : machine.on (open_ (some root) limit) = (.ok e, machine')) :
    ∃ directory, WorksIn root limit directory e machine' := by
  have hnamed' : machine'.IsNamed := by
    have := keeps_open root limit machine hnamed
    rwa [hopen] at this
  obtain ⟨names, ds, hnames, hds, hr, harchive, hlimit⟩ := Engine.of_open hopen
  have hslash : ∀ name, .text name ∈ datasetNames names → Path.slash ∉ name.toList := by
    obtain ⟨directory, -, -, rfl⟩ := list_eq_ok_iff.mp hnames
    intro name hname
    exact hnamed'.namesIn (mem_datasetNames.mp hname).1
  obtain ⟨directory, hholds⟩ := Holds.of_load hnames hds hr hslash
  have hloads := hholds.mono fun d _ bytes ⟨path, hread⟩ => Dataset.loads_of_ofFile hread
  exact ⟨directory, harchive, hlimit, hnamed', ⟨root⟩, harchive, hloads⟩

theorem WorksIn.holds (h : WorksIn root limit directory e machine) :
    Holds Dataset.Loads ⟨root⟩ machine.files directory e.registry := by
  obtain ⟨a, ha, hholds⟩ := h.agrees
  obtain rfl := Option.some.inj (h.archive.symm.trans ha)
  exact hholds

/-- What the clock shows does not matter. -/
theorem WorksIn.atMoment (h : WorksIn root limit directory e machine) (moment : Moment) :
    WorksIn root limit directory e (machine.atMoment moment) :=
  ⟨h.archive, h.limit_eq, h.named, h.agrees⟩

theorem WorksIn.serve [Collator] [Converter] (h : WorksIn root limit directory e machine)
    (hnow : machine.now.isValid = true) {r : Request} (hr : r.IsUndivided) :
    WorksIn root limit directory (machine.on (e.serve r)).1.2 (machine.on (e.serve r)).2 := by
  obtain ⟨harchive, hlimit, hagrees⟩ := h.agrees.serve hr fun _ _ _ _ _ hd =>
    (readsBack_of_prepare hnow hd).loads
  exact ⟨harchive.trans h.archive, hlimit.trans h.limit_eq, keeps_serve e r _ h.named, hagrees⟩

theorem WorksIn.isKept (h : WorksIn root limit directory e machine) :
    IsKept root limit e machine := by
  intro moment
  rw [← h.limit_eq]
  exact (h.atMoment moment).agrees.on_open_at h.archive

/-- The path of the file of an id leads to the name of the file in the directory just if there is
no slash in the id. -/
theorem WorksIn.place_eq_iff (h : WorksIn root limit directory e machine)
    (hvalid : Dataset.isValidId id = true) {place : List String}
    (hplace : machine.files.locate (Archive.pathOf ⟨root⟩ id) = .ok place) :
    place = directory ++ [fileName id] ↔ Path.slash ∉ id.toList := by
  constructor
  · rintro rfl
    have hname := h.named.locate hplace (fileName id) (List.mem_append_right _ List.mem_cons_self)
    exact undivided_fileName.mp hname
  · intro hid
    exact h.holds.isAt.locate_path (hasFile_of_valid hvalid hid) hplace

/-! ## Requests about ids without slashes -/

/-- The engines, and the machines they work on, that come of opening one on the archive in a
directory and of requests about ids without slashes. -/
inductive Reaches [Collator] [Converter] (root : String) (limit : Nat) :
    Engine → Machine → Prop where
  | opened {machine machine' : Machine} {e : Engine} (hnamed : machine.IsNamed)
      (hopen : machine.on (open_ (some root) limit) = (.ok e, machine')) :
      Reaches root limit e machine'
  | served {machine : Machine} {e : Engine} (h : Reaches root limit e machine) (moment : Moment)
      {r : Request} (hr : r.IsUndivided) :
      Reaches root limit ((machine.atMoment moment).on (e.serve r)).1.2
        ((machine.atMoment moment).on (e.serve r)).2

theorem Reaches.worksIn [Collator] [Converter] (h : Reaches root limit e machine) :
    ∃ directory, WorksIn root limit directory e machine := by
  induction h with
  | opened hnamed hopen => exact WorksIn.of_open hnamed hopen
  | served _ moment hr ih =>
    obtain ⟨directory, hworks⟩ := ih
    exact ⟨directory, (hworks.atMoment moment).serve moment.valid hr⟩

/-- What becomes of the files of a machine, and of an engine, by a change about an id that keeps to
the files of the id. -/
structure KeepsToOwnFiles (root : String) (limit : Nat) (directory : List String) (id : String)
    (machine : Machine) (e' : Engine) (machine' : Machine) : Prop where
  /-- Nothing is written or removed but the file of the id and its draft, in the directory. -/
  touched : Touched directory id machine.files machine'.files
  /-- Where the file of another id is to be, all is as before. -/
  others : ∀ other, Dataset.isValidId other = true → Path.slash ∉ other.toList → other ≠ id →
    ∀ place, machine.files.locate (Archive.pathOf ⟨root⟩ other) = .ok place →
      machine'.files.find? place = machine.files.find? place
  works : WorksIn root limit directory e' machine'
  kept : IsKept root limit e' machine'

/-- A request about an id touches its file and its draft at most. -/
theorem WorksIn.touched_serve [Collator] [Converter] (h : WorksIn root limit directory e machine)
    (hnow : machine.now.isValid = true) (hid : Path.slash ∉ id.toList) {r : Request}
    (hr : r.id? = some id) :
    Touched directory id machine.files (machine.on (e.serve r)).2.files := by
  cases r with
  | add id' kind rows =>
    obtain rfl := Option.some.inj hr
    have hchanged := h.agrees.on_add hid kind rows fun d hd => (readsBack_of_prepare hnow hd).loads
    rw [Engine.serve, Machine.on_bind]
    generalize machine.on (e.add id' kind rows) = outcome at hchanged
    obtain ⟨_ | _, _⟩ := outcome <;> exact hchanged.touched
  | remove id' =>
    obtain rfl := Option.some.inj hr
    have hchanged := h.agrees.on_remove id'
    rw [Engine.serve, Machine.on_bind]
    generalize machine.on (e.remove id') = outcome at hchanged
    obtain ⟨_ | _, _⟩ := outcome <;> exact hchanged.touched
  | list => cases hr
  | query raw => cases hr

/-- What touches the file of an id and its draft only leaves the files of all other ids alone. -/
theorem WorksIn.find?_of_touched (h : WorksIn root limit directory e machine) {t' : FileTree}
    (htouched : Touched directory id machine.files t') {other : String} (hother : HasFile other)
    (hne : other ≠ id) {place : List String}
    (hplace : machine.files.locate (Archive.pathOf ⟨root⟩ other) = .ok place) :
    t'.find? place = machine.files.find? place := by
  obtain rfl := h.holds.isAt.locate_path hother hplace
  refine htouched _ (fun heq => hne (fileName_inj (place_inj heq))) fun heq => ?_
  exact draftName_ne_fileName hother.nonempty (place_inj heq).symm

theorem WorksIn.keepsToOwnFiles_of_serve [Collator] [Converter]
    (h : WorksIn root limit directory e machine)
    (hid : Path.slash ∉ id.toList) {moment : Moment} {r : Request} (hr : r.id? = some id)
    {reply : Reply} {e' : Engine} {machine' : Machine}
    (hserve : (machine.atMoment moment).on (e.serve r) = ((reply, e'), machine')) :
    KeepsToOwnFiles root limit directory id machine e' machine' := by
  have hundivided : r.IsUndivided := by
    intro id' hid'
    obtain rfl := Option.some.inj (hr.symm.trans hid')
    exact hid
  have htouched := (h.atMoment moment).touched_serve moment.valid hid hr
  have hworks := (h.atMoment moment).serve moment.valid hundivided
  rw [hserve] at htouched hworks
  refine ⟨htouched, ?_, hworks, hworks.isKept⟩
  intro other hvalid hother hne place hplace
  exact h.find?_of_touched htouched (hasFile_of_valid hvalid hother) hne hplace

/-! ## Ids with slashes -/

/-- Behind a dot and a slash every id is accepted once more, and its file is the same. -/
theorem WorksIn.place_of_dotted (h : WorksIn root limit directory e machine)
    (hvalid : Dataset.isValidId id = true) (hid : Path.slash ∉ id.toList) :
    Dataset.isValidId ("./" ++ id) = true ∧ "./" ++ id ≠ id ∧
      ∀ place, machine.files.locate (Archive.pathOf ⟨root⟩ ("./" ++ id)) = .ok place →
        place = directory ++ [fileName id] := by
  have hfile := hasFile_of_valid hvalid hid
  have hblank : isBlank '.' = false := by decide
  have hseparator : separator ≠ '.' ∧ separator ≠ '/' := by decide
  refine ⟨?_, ?_, fun place hplace => ?_⟩
  · simp only [Dataset.isValidId, Bool.and_eq_true] at hvalid
    simpa [Dataset.isValidId, isBlankText, hblank, hseparator] using hvalid.2
  · intro heq
    exact hid (heq ▸ by simp [Path.slash])
  · have hname : fileName ("./" ++ id) = "./" ++ fileName id := by
      simp only [fileName, String.append_assoc]
    rw [Archive.pathOf, hname, Path.join_dotted _ (undivided_fileName.mpr hid)] at hplace
    exact h.holds.isAt.locate_dotted (isPlain_fileName hid) hplace

theorem exists_of_serve [Collator] [Converter] {r : Request} (hr : r.id? = some id)
    {ids : List String} (h : (machine.on (e.serve r)).1.1 = .added (.ok ids)) :
    ∃ d ∈ (machine.on (e.serve r)).1.2.registry.datasets, d.id = id := by
  cases r with
  | add id' kind rows =>
    obtain rfl := Option.some.inj hr
    have hadd (e' : Engine) := @exists_of_add e id' machine kind rows e'
    rw [Engine.serve, Machine.on_bind] at h ⊢
    generalize machine.on (e.add id' kind rows) = outcome at h hadd
    obtain ⟨_ | e', _⟩ := outcome
    · cases h
    · exact hadd e' rfl
  | remove id' =>
    rw [Engine.serve, Machine.on_bind] at h
    generalize machine.on (e.remove id') = outcome at h
    obtain ⟨_ | _, _⟩ := outcome <;> cases h
  | list => cases hr
  | query raw => cases hr

theorem exists_of_forall₂ {α β : Type} {related : α → β → Prop} {as : List α} {bs : List β}
    (h : List.Forall₂ related as bs) {a : α} (ha : a ∈ as) : ∃ b ∈ bs, related a b := by
  induction h with
  | nil => cases ha
  | cons hfirst _ ih =>
    rcases List.mem_cons.mp ha with rfl | ha
    · exact ⟨_, List.mem_cons_self, hfirst⟩
    · obtain ⟨b, hb, hrelated⟩ := ih ha
      exact ⟨b, List.mem_cons_of_mem _ hb, hrelated⟩

/-- What is registered under an id with a slash is not found again. -/
theorem not_isKept_of_slash (hnamed : machine.IsNamed) (hid : Path.slash ∈ id.toList)
    (hpresent : ∃ d ∈ e.registry.datasets, d.id = id) : ¬ IsKept root limit e machine := by
  intro hkept
  obtain ⟨e', machine', hopen, hsame⟩ := hkept .start
  obtain ⟨d, hd, rfl⟩ := hpresent
  obtain ⟨d', hd', hread⟩ := exists_of_forall₂ hsame hd
  have hnamed' : (machine.atMoment .start).IsNamed := hnamed
  obtain ⟨directory, hworks⟩ := WorksIn.of_open hnamed' hopen
  have hundivided := (hworks.holds.hasFile d' hd').undivided
  rw [hread.id] at hundivided
  exact hundivided hid

/-- A change about an id without a slash, whether it is made or not, keeps to the file of the id in
the directory of the archive. An id with a slash that is accepted never has its file there, and no
dataset that is added under it is found again. -/
theorem Reaches.keepsToOwnFiles [Collator] [Converter] (h : Reaches root limit e machine)
    (hvalid : Dataset.isValidId id = true) :
    ∃ directory, (⟨root⟩ : Archive).IsAt machine.files directory ∧
      (∀ place, machine.files.locate (Archive.pathOf ⟨root⟩ id) = .ok place →
        (place = directory ++ [fileName id] ↔ Path.slash ∉ id.toList)) ∧
      ∀ (moment : Moment) (r : Request) (reply : Reply) (e' : Engine) (machine' : Machine),
        r.id? = some id → (machine.atMoment moment).on (e.serve r) = ((reply, e'), machine') →
          (Path.slash ∉ id.toList →
            KeepsToOwnFiles root limit directory id machine e' machine') ∧
          ∀ ids, reply = .added (.ok ids) →
            (IsKept root limit e' machine' ↔ Path.slash ∉ id.toList) := by
  obtain ⟨directory, hworks⟩ := h.worksIn
  refine ⟨directory, hworks.holds.isAt, fun place hplace => hworks.place_eq_iff hvalid hplace, ?_⟩
  intro moment r reply e' machine' hr hserve
  have hkeeps (hid : Path.slash ∉ id.toList) := hworks.keepsToOwnFiles_of_serve hid hr hserve
  refine ⟨hkeeps, fun ids hreply => ⟨fun hkept hid => ?_, fun hid => (hkeeps hid).kept⟩⟩
  have hnamed := keeps_serve e r (machine.atMoment moment) hworks.named
  have hpresent := @exists_of_serve e (machine.atMoment moment) id _ _ r hr ids
  rw [hserve] at hnamed hpresent
  exact not_isKept_of_slash hnamed hid (hpresent hreply) hkept

/-- The first dataset on an empty disk. -/
theorem keepsToOwnFiles_halls :
    ∃ e machine, Reaches "data" 5 e machine ∧ Dataset.isValidId "halls" = true ∧
      ∃ directory reply e' machine',
        (machine.atMoment .start).on (e.serve (.add "halls" .rooms [Session.hall])) =
            ((reply, e'), machine') ∧
          KeepsToOwnFiles "data" 5 directory "halls" machine e' machine' := by
  obtain ⟨e, machine, hopen, -⟩ := exists_open_empty
  have hnamed : Machine.IsNamed {} := FileTree.isNamed_empty
  have hreaches : Reaches "data" 5 e machine := .opened hnamed hopen
  have hvalid : Dataset.isValidId "halls" = true := by decide +kernel
  have hundivided : Path.slash ∉ "halls".toList := by decide +kernel
  obtain ⟨directory, -, -, hchange⟩ := hreaches.keepsToOwnFiles hvalid
  obtain ⟨hkeeps, -⟩ := hchange .start (.add "halls" .rooms [Session.hall]) _ _ _ rfl rfl
  exact ⟨e, machine, hreaches, hvalid, directory, _, _, _, rfl, hkeeps hundivided⟩

end Engine

/-- The ids that a reply shows. -/
def Reply.ids : Reply → List String
  | .added (.ok ids) => ids
  | .removed (.ok id) => [id]
  | .listed datasets => datasets.map DatasetInfo.id
  | _ => []

/-- The paths of two ids may lead to one file, and by removing the dataset of one of them that of
the other is lost: it is still registered, but no longer there when the engine is opened anew. -/
theorem Session.lost_with_another :
    let steps : List Step := [⟨.start, .request (.add "a" .rooms [hall])⟩,
      ⟨.start, .request (.add "./a" .rooms [hall])⟩, ⟨.start, .request (.remove "./a")⟩,
      ⟨.start, .request .list⟩, ⟨.start, .reopen⟩, ⟨.start, .request .list⟩]
    Dataset.isValidId "a" = true ∧ Dataset.isValidId "./a" = true ∧
      ∃ e machine, Machine.on {} (Engine.open_ (some "data") 5) = (.ok e, machine) ∧
        machine.files.locate (Archive.pathOf ⟨"data"⟩ "a") = .ok ["home", "data", "a.json"] ∧
        machine.files.locate (Archive.pathOf ⟨"data"⟩ "./a") = .ok ["home", "data", "a.json"] ∧
        (run "data" 5 steps e machine).map (List.map Reply.ids) =
          some [["a"], ["./a", "a"], ["./a"], ["a"], []] := by
  intro steps
  refine ⟨by decide +kernel, by decide +kernel, ?_⟩
  have hrun : (match Machine.on {} (Engine.open_ (some "data") 5) with
      | (.ok e, machine) =>
        decide (machine.files.locate (Archive.pathOf ⟨"data"⟩ "a") =
          .ok ["home", "data", "a.json"]) &&
        decide (machine.files.locate (Archive.pathOf ⟨"data"⟩ "./a") =
          .ok ["home", "data", "a.json"]) &&
        decide ((run "data" 5 steps e machine).map (List.map Reply.ids) =
          some [["a"], ["./a", "a"], ["./a"], ["a"], []])
      | (.error _, _) => false) = true := by decide +kernel
  generalize Machine.on {} (Engine.open_ (some "data") 5) = outcome at hrun
  obtain ⟨_ | e, machine⟩ := outcome
  · cases hrun
  · simp only [Bool.and_eq_true, decide_eq_true_eq] at hrun
    exact ⟨e, machine, rfl, hrun.1.1, hrun.1.2, hrun.2⟩

end CampusQuery
