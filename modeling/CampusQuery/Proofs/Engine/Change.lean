import Mathlib
import CampusQuery.Proofs.Registry.Archive

/-!
# Changes of an engine

Adding and removing a dataset change the archive first and the registry then, so that they agree
before and after, whether the change is made or not, and no file but that of the dataset and its
draft is touched.

* `Engine.Agrees` — the archive of an engine agrees with its registry.
* `Engine.Touched` — what a change may do to the files.
* `Agrees.on_add`, `Agrees.on_remove` — the two changes keep the agreement.
-/

namespace CampusQuery

namespace Engine

open CampusQuery.FileTree CampusQuery.Archive

/-- The archive of an engine, in a directory, agrees with its registry. -/
def Agrees (reads : List UInt8 → Dataset → Prop) (e : Engine) (t : FileTree)
    (directory : List String) : Prop :=
  ∃ a, e.archive = some a ∧ Archive.Holds reads a t directory e.registry

/-- Only the file of an id and its draft differ. -/
def Touched (directory : List String) (id : String) (t t' : FileTree) : Prop :=
  ∀ place, place ≠ directory ++ [fileName id] → place ≠ directory ++ [draftName id] →
    t'.find? place = t.find? place

/-- What has become of an engine and the files by a change about an id: the engine is as before if
the change failed, and still has its archive and limit if it did not. -/
structure Changed (reads : List UInt8 → Dataset → Prop) (e : Engine) (t : FileTree)
    (directory : List String) (id : String) (result : Except RegistryError Engine)
    (t' : FileTree) : Prop where
  touched : Touched directory id t t'
  failed : ∀ fault, result = .error fault → Agrees reads e t' directory
  done : ∀ e', result = .ok e' →
    e'.archive = e.archive ∧ e'.limit = e.limit ∧ Agrees reads e' t' directory

variable {reads : List UInt8 → Dataset → Prop} {e : Engine} {directory : List String}
  {id : String}

/-! ## Preparing -/

theorem hasFile_of_valid (hvalid : Dataset.isValidId id = true) (hid : Path.slash ∉ id.toList) :
    HasFile id :=
  ⟨Dataset.ne_of_isValidId hvalid, hid⟩

theorem prepare_eq_ok_iff {kind : Kind} {rows : List Json} {now : Instant} {d : Dataset} :
    e.prepare id kind rows now = .ok d ↔
      (∀ x ∈ e.registry.datasets, x.id ≠ id) ∧ Dataset.ofRows id kind rows now = .ok d := by
  rw [← Registry.contains_eq_false_iff]
  unfold prepare
  cases hvalid : Dataset.isValidId id with
  | false => simp [Dataset.checkId, hvalid, Dataset.ofRows_eq_ok_iff, bind, Except.bind]
  | true =>
    cases e.registry.contains id <;>
      simp [Dataset.checkId, hvalid, bind, Except.bind, throw, throwThe, MonadExceptOf.throw]

/-! ## Adding -/

theorem on_addQuietly (e : Engine) (id : String) (kind : Kind) (rows : List Json)
    (machine : Machine) :
    machine.on (e.addQuietly id kind rows) =
      match e.prepare id kind rows machine.now with
      | .error fault => (.error fault, machine)
      | .ok d =>
        match machine.on (saveTo e.archive d) with
        | (.error fault, machine) => (.error fault, machine)
        | (.ok (), machine) =>
          ((e.registry.add d).map fun r => { e with registry := r }, machine) := by
  rw [addQuietly, Machine.on_bind, Machine.on_now]
  dsimp only
  cases e.prepare id kind rows machine.now with
  | error fault => rfl
  | ok d =>
    dsimp only
    rw [Machine.on_bind]
    rcases machine.on (saveTo e.archive d) with ⟨_ | _, machine⟩ <;> rfl

theorem on_add (e : Engine) (id : String) (kind : Kind) (rows : List Json) (machine : Machine) :
    ∃ machine', machine.on (e.add id kind rows) =
        ((machine.on (e.addQuietly id kind rows)).1, machine') ∧
      Machine.SameWorld (machine.on (e.addQuietly id kind rows)).2 machine' := by
  rw [add, Machine.on_bind]
  rcases machine.on (e.addQuietly id kind rows) with ⟨result, machine⟩
  cases result <;> exact ⟨_, rfl, Machine.sameWorld_record _ _ _⟩

/-- A dataset that was added is registered. -/
theorem exists_of_add {machine : Machine} {kind : Kind} {rows : List Json} {e' : Engine}
    (h : (machine.on (e.add id kind rows)).1 = .ok e') :
    ∃ d ∈ e'.registry.datasets, d.id = id := by
  obtain ⟨machine', hon, -⟩ := Engine.on_add e id kind rows machine
  rw [hon, on_addQuietly] at h
  cases hprepare : e.prepare id kind rows machine.now with
  | error => simp [hprepare] at h
  | ok d =>
    obtain ⟨-, hrows⟩ := prepare_eq_ok_iff.mp hprepare
    obtain ⟨-, -, rs, -, hd⟩ := Dataset.ofRows_eq_ok_iff.mp hrows
    simp only [hprepare] at h
    generalize machine.on (saveTo e.archive d) = outcome at h
    obtain ⟨_ | _, _⟩ := outcome
    · cases h
    · cases hadd : e.registry.add d with
      | error => simp [hadd, Except.map] at h
      | ok r =>
        obtain ⟨-, -, rfl⟩ := Registry.add_eq_ok_iff.mp hadd
        simp only [hadd] at h
        obtain rfl := Except.ok.inj h
        exact ⟨d, Registry.mem_insert.mpr (.inl rfl), by rw [← hd]⟩

theorem Touched.refl (t : FileTree) : Touched directory id t t :=
  fun _ _ _ => rfl

/-- A change that has failed without any effect. -/
theorem Agrees.unchanged {t : FileTree} (h : Agrees reads e t directory) (fault : RegistryError) :
    Changed reads e t directory id (.error fault) t :=
  ⟨.refl t, fun _ _ => h, nofun⟩

theorem Agrees.on_addQuietly {machine : Machine} (h : Agrees reads e machine.files directory)
    (hid : Path.slash ∉ id.toList) (kind : Kind) (rows : List Json)
    (hreads : ∀ d, e.prepare id kind rows machine.now = .ok d → reads d.document d) :
    Changed reads e machine.files directory id (machine.on (e.addQuietly id kind rows)).1
      (machine.on (e.addQuietly id kind rows)).2.files := by
  obtain ⟨a, harchive, hholds⟩ := h
  have hagrees : Agrees reads e machine.files directory := ⟨a, harchive, hholds⟩
  rw [Engine.on_addQuietly]
  cases hprepare : e.prepare id kind rows machine.now with
  | error fault => exact hagrees.unchanged fault
  | ok d =>
    obtain ⟨hnew, hrows⟩ := prepare_eq_ok_iff.mp hprepare
    obtain ⟨hregistrable, -⟩ := Dataset.isRegistrable_of_ofRows hrows
    obtain ⟨hvalid, -, rs, -, hd⟩ := Dataset.ofRows_eq_ok_iff.mp hrows
    have hdid : d.id = id := by rw [← hd]
    have hadd : e.registry.add d = .ok ⟨Registry.insert d e.registry.datasets⟩ :=
      Registry.add_eq_ok_iff.mpr ⟨hregistrable, fun x hx => hdid ▸ hnew x hx, rfl⟩
    have hfile : HasFile d.id := hdid ▸ hasFile_of_valid hvalid hid
    have hbytes := hreads d hprepare
    subst hdid
    dsimp only
    rw [harchive, saveTo, on_save]
    generalize d.document = bytes at hbytes
    rcases write_rename_cases hholds.isAt hfile bytes with ⟨fault, hwrite⟩ | ⟨hwrite, hdraft, hrest⟩
    · rw [hwrite]
      exact hagrees.unchanged _
    · rw [hwrite]
      dsimp only
      rcases hrest with ⟨fault, hrename⟩ | ⟨hrename, hnot, hlocate⟩
      · rw [hrename]
        refine ⟨?_, fun _ _ => ⟨a, harchive, hholds.draft hdraft bytes⟩, nofun⟩
        intro place _ hplace
        exact (find?_set hdraft _ _).trans (if_neg hplace)
      · rw [hrename]
        dsimp only
        rw [hadd]
        have hsame : SameDirectories machine.files (drafted directory d.id bytes machine.files) :=
          sameDirectories_set hdraft bytes
        have hpublish :=
          hholds.publish hfile hadd hbytes hdraft hnot (hsame.symm.locate hlocate)
        refine ⟨?_, nofun, ?_⟩
        · intro place hplace hplace'
          rw [find?_published hdraft hnot, if_neg hplace, if_neg hplace']
        · rintro e' h'
          obtain rfl := Except.ok.inj h'
          exact ⟨harchive.symm, rfl, a, rfl, hpublish⟩

/-- Recording a change adds nothing to what has become of the files. -/
theorem Agrees.on_add {machine : Machine} (h : Agrees reads e machine.files directory)
    (hid : Path.slash ∉ id.toList) (kind : Kind) (rows : List Json)
    (hreads : ∀ d, e.prepare id kind rows machine.now = .ok d → reads d.document d) :
    Changed reads e machine.files directory id (machine.on (e.add id kind rows)).1
      (machine.on (e.add id kind rows)).2.files := by
  obtain ⟨machine', hon, hworld⟩ := Engine.on_add e id kind rows machine
  rw [hon, ← hworld.files]
  exact h.on_addQuietly hid kind rows hreads

/-! ## Removing -/

theorem on_removeQuietly (e : Engine) (id : String) (machine : Machine) :
    machine.on (e.removeQuietly id) =
      match e.checkPresent id with
      | .error fault => (.error fault, machine)
      | .ok () =>
        match machine.on (deleteFrom e.archive id) with
        | (.error fault, machine) => (.error fault, machine)
        | (.ok (), machine) =>
          ((e.registry.remove id).map fun p => { e with registry := p.2 }, machine) := by
  rw [removeQuietly]
  cases e.checkPresent id with
  | error fault => rfl
  | ok =>
    dsimp only
    rw [Machine.on_bind]
    rcases machine.on (deleteFrom e.archive id) with ⟨_ | _, machine⟩ <;> rfl

theorem on_remove (e : Engine) (id : String) (machine : Machine) :
    ∃ machine', machine.on (e.remove id) = ((machine.on (e.removeQuietly id)).1, machine') ∧
      Machine.SameWorld (machine.on (e.removeQuietly id)).2 machine' := by
  rw [remove, Machine.on_bind]
  rcases machine.on (e.removeQuietly id) with ⟨result, machine⟩
  cases result <;> exact ⟨_, rfl, Machine.sameWorld_record _ _ _⟩

theorem checkPresent_eq_ok_iff {u : Unit} :
    e.checkPresent id = .ok u ↔
      Dataset.isValidId id = true ∧ ∃ d ∈ e.registry.datasets, d.id = id := by
  rw [← Registry.contains_iff]
  unfold checkPresent Dataset.checkId
  cases Dataset.isValidId id <;> cases e.registry.contains id <;>
    simp [bind, Except.bind, pure, Except.pure, throw, throwThe, MonadExceptOf.throw]

theorem Agrees.on_removeQuietly {machine : Machine} (h : Agrees reads e machine.files directory)
    (id : String) :
    Changed reads e machine.files directory id (machine.on (e.removeQuietly id)).1
      (machine.on (e.removeQuietly id)).2.files := by
  obtain ⟨a, harchive, hholds⟩ := h
  have hagrees : Agrees reads e machine.files directory := ⟨a, harchive, hholds⟩
  rw [Engine.on_removeQuietly]
  cases hpresent : e.checkPresent id with
  | error fault => exact hagrees.unchanged fault
  | ok =>
    obtain ⟨hvalid, x, hx, rfl⟩ := checkPresent_eq_ok_iff.mp hpresent
    obtain ⟨bytes, hfile, -⟩ := hholds.files x hx
    dsimp only
    rw [harchive, deleteFrom, on_delete, remove_eq_ok (hholds.located x hx) hfile]
    dsimp only
    cases hget : e.registry.get? x.id with
    | none => exact absurd rfl (Registry.get?_eq_none_iff.mp hget x hx)
    | some d =>
      have hremove := Registry.remove_eq_ok_iff.mpr ⟨hvalid, hget, rfl⟩
      rw [hremove]
      refine ⟨?_, nofun, ?_⟩
      · intro place hplace _
        rw [find?_erase (by rw [hfile]; simp), if_neg hplace]
      · rintro e' h'
        obtain rfl := Except.ok.inj h'
        exact ⟨harchive.symm, rfl, a, rfl, hholds.erase hremove⟩

theorem Agrees.on_remove {machine : Machine} (h : Agrees reads e machine.files directory)
    (id : String) :
    Changed reads e machine.files directory id (machine.on (e.remove id)).1
      (machine.on (e.remove id)).2.files := by
  obtain ⟨machine', hon, hworld⟩ := Engine.on_remove e id machine
  rw [hon, ← hworld.files]
  exact h.on_removeQuietly id

end Engine

end CampusQuery
