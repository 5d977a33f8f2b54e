import Mathlib
import CampusQuery.Proofs.Engine.Session
import CampusQuery.Proofs.Registry.Drafts
import CampusQuery.Proofs.Registry.History

/-!
# Changes that fail

A request that adds or removes a dataset passes its checks, takes its file step and then changes the
registry, or it stops at the first of these that fails and nothing has changed but a draft. The last
of them cannot fail: what the registry checks again has been settled before. This is so for every
engine on every machine, with an archive or without one, whatever the id and the files.

* `Engine.Refuses` — the checks and their order.
* `Engine.due`, `Engine.made` — the file step that a request comes to, and whether it was taken.
* `Engine.ends_of_serve` — the three ways in which a request ends.
* `Engine.AllOrNothing` — what is so of a request, and `madeAll`, the file steps of a run.
-/

namespace CampusQuery

open CampusQuery.Archive

/-- The fault for which a change was not made. -/
def Reply.fault? : Reply → Option RegistryError
  | .added (.error fault) | .removed (.error fault) => some fault
  | _ => none

namespace Engine

variable {e : Engine} {machine : Machine}

/-! ## Checks -/

/-- Why a request is refused before any file is touched: the first check that it does not pass. -/
inductive Refuses (e : Engine) : Request → RegistryError → Prop
  | invalidId {id : String} {kind : Kind} {rows : List Json} : Dataset.isValidId id = false →
      Refuses e (.add id kind rows) (.invalidId id)
  | alreadyExists {id : String} {kind : Kind} {rows : List Json} : Dataset.isValidId id = true →
      e.registry.contains id = true → Refuses e (.add id kind rows) (.alreadyExists id)
  | noRows {id : String} {kind : Kind} : Dataset.isValidId id = true →
      e.registry.contains id = false → Refuses e (.add id kind []) (.noRows id)
  | invalidRow {id : String} {kind : Kind} {rows : List Json} {index : Nat} {v : Json}
      {reason : Mismatch} : Dataset.isValidId id = true → e.registry.contains id = false →
      rows[index]? = some v → Record.ofJson kind v = .error reason →
      (∀ i < index, ∃ v' r, rows[i]? = some v' ∧ Record.ofJson kind v' = .ok r) →
      Refuses e (.add id kind rows) (.invalidRow id index reason)
  | invalidName {id : String} : Dataset.isValidId id = false →
      Refuses e (.remove id) (.invalidId id)
  | notFound {id : String} : Dataset.isValidId id = true → e.registry.contains id = false →
      Refuses e (.remove id) (.notFound id)

theorem prepare_eq (e : Engine) (id : String) (kind : Kind) (rows : List Json) (now : Instant) :
    e.prepare id kind rows now =
      if Dataset.isValidId id = false then .error (.invalidId id)
      else if e.registry.contains id = true then .error (.alreadyExists id)
      else if rows = [] then .error (.noRows id)
      else (Dataset.readRows id kind 0 rows).map fun rs => ⟨id, kind, rs.toArray, now⟩ := by
  unfold prepare Dataset.ofRows Dataset.checkId
  cases Dataset.isValidId id
  · rfl
  cases e.registry.contains id
  · cases rows with
    | nil => rfl
    | cons v vs => cases Dataset.readRows id kind 0 (v :: vs) <;> rfl
  · rfl

theorem prepare_eq_error_iff {id : String} {kind : Kind} {rows : List Json} {now : Instant}
    {fault : RegistryError} :
    e.prepare id kind rows now = .error fault ↔ e.Refuses (.add id kind rows) fault := by
  have hmap (result : Except RegistryError (List Record)) :
      result.map (fun rs => (⟨id, kind, rs.toArray, now⟩ : Dataset)) = .error fault ↔
        result = .error fault := by
    cases result <;> simp [Except.map]
  rw [prepare_eq]
  constructor
  · intro h
    split_ifs at h with hvalid hcontains hrows
    · obtain rfl := Except.error.inj h
      exact .invalidId hvalid
    · obtain rfl := Except.error.inj h
      exact .alreadyExists (by simpa using hvalid) hcontains
    · obtain rfl := Except.error.inj h
      exact hrows ▸ .noRows (by simpa using hvalid) (by simpa using hcontains)
    · obtain ⟨index, v, reason, rfl, hindex, hbad, hgood⟩ :=
        Dataset.readRows_eq_error_iff.mp ((hmap _).mp h)
      rw [Nat.zero_add]
      exact .invalidRow (by simpa using hvalid) (by simpa using hcontains) hindex hbad hgood
  · rintro (hvalid | ⟨hvalid, hcontains⟩ | ⟨hvalid, hcontains⟩ |
      ⟨hvalid, hcontains, hindex, hbad, hgood⟩)
    · rw [if_pos hvalid]
    · rw [if_neg (by simp [hvalid]), if_pos hcontains]
    · rw [if_neg (by simp [hvalid]), if_neg (by simp [hcontains]), if_pos rfl]
    · have hrows : rows ≠ [] := by rintro rfl; simp at hindex
      rw [if_neg (by simp [hvalid]), if_neg (by simp [hcontains]), if_neg hrows, hmap]
      exact Dataset.readRows_eq_error_iff.mpr ⟨_, _, _, by rw [Nat.zero_add], hindex, hbad, hgood⟩

theorem checkPresent_eq (e : Engine) (id : String) :
    e.checkPresent id =
      if Dataset.isValidId id = false then .error (.invalidId id)
      else if e.registry.contains id = false then .error (.notFound id)
      else .ok () := by
  unfold checkPresent Dataset.checkId
  cases Dataset.isValidId id <;> cases e.registry.contains id <;> rfl

theorem checkPresent_eq_error_iff {id : String} {fault : RegistryError} :
    e.checkPresent id = .error fault ↔ e.Refuses (.remove id) fault := by
  rw [checkPresent_eq]
  constructor
  · intro h
    split_ifs at h with hvalid hcontains
    · obtain rfl := Except.error.inj h
      exact .invalidName hvalid
    · obtain rfl := Except.error.inj h
      exact .notFound (by simpa using hvalid) hcontains
  · rintro (_ | _ | _ | _ | hvalid | ⟨hvalid, hcontains⟩)
    · rw [if_pos hvalid]
    · rw [if_neg (by simp [hvalid]), if_pos hcontains]

/-! ## File steps -/

/-- What becomes of the file of an id. -/
inductive FileStep where
  | saved (d : Dataset)
  | deleted (id : String)

namespace FileStep

/-- Takes a file step, which without an archive is none. -/
def take (archive : Option Archive) : FileStep → StateM Machine (Except RegistryError Unit)
  | .saved d => saveTo archive d
  | .deleted id => deleteFrom archive id

/-- The id whose file it is. -/
def id : FileStep → String
  | .saved d => d.id
  | .deleted id => id

/-- The datasets by their ids when a file step has been taken. -/
def apply (resident : String → Option Dataset) : FileStep → String → Option Dataset
  | .saved d => fun id => if id = d.id then some d else resident id
  | .deleted id => fun other => if other = id then none else resident other

/-- The dataset that a file step leaves under its id. -/
def left : FileStep → Option Dataset
  | .saved d => some d
  | .deleted _ => none

theorem apply_self {resident : String → Option Dataset} {step : FileStep} :
    step.apply resident step.id = step.left := by
  cases step <;> exact if_pos rfl

theorem apply_of_ne {resident : String → Option Dataset} {step : FileStep} {other : String}
    (h : other ≠ step.id) : step.apply resident other = resident other := by
  cases step <;> exact if_neg h

/-- The last of some file steps about an id. -/
def last? (steps : List FileStep) (id : String) : Option FileStep :=
  (steps.filter fun step => step.id == id).getLast?

/-- Of several file steps about an id the last one counts. -/
theorem foldl_apply (steps : List FileStep) (resident : String → Option Dataset) (id : String) :
    steps.foldl apply resident id = (last? steps id).elim (resident id) left := by
  induction steps using List.reverseRecOn with
  | nil => rfl
  | append_singleton steps step ih =>
    rw [List.foldl_append, List.foldl_cons, List.foldl_nil, last?, List.filter_append]
    by_cases hid : step.id = id
    · subst hid
      simp [apply_self]
    · rw [apply_of_ne (Ne.symm hid), ih]
      simp [last?, hid]

end FileStep

/-- The file step that a request comes to when it has passed its checks. -/
def due (e : Engine) (now : Instant) : Request → Option FileStep
  | .add id kind rows =>
    match e.prepare id kind rows now with
    | .ok d => some (.saved d)
    | .error _ => none
  | .remove id =>
    match e.checkPresent id with
    | .ok () => some (.deleted id)
    | .error _ => none
  | .list | .query _ => none

/-- The file step that a request takes: the one it comes to, if that does not fail. -/
def made (e : Engine) (machine : Machine) (r : Request) : Option FileStep :=
  (e.due machine.now r).filter fun step => (machine.on (step.take e.archive)).1.isOk

/-- A file step that fails changes nothing but a draft, and the fault is one of the disk. -/
theorem of_take_error {archive : Option Archive} {step : FileStep} {fault : RegistryError}
    {machine' : Machine} (h : machine.on (step.take archive) = (.error fault, machine')) :
    SameButDrafts machine.files machine'.files ∧ ∃ path cause, fault = .disk path cause := by
  cases archive with
  | none => cases step <;> cases h
  | some a =>
    cases step with
    | saved d =>
      rw [FileStep.take, saveTo, on_save] at h
      cases hwrite : machine.files.write (a.draftPathOf d.id) d.document with
      | error cause =>
        rw [hwrite] at h
        obtain ⟨hfault, rfl⟩ := Prod.mk.inj h
        exact ⟨.refl _, _, _, (Except.error.inj hfault).symm⟩
      | ok t =>
        simp only [hwrite] at h
        cases hrename : t.rename (a.draftPathOf d.id) (a.pathOf d.id) with
        | ok t' =>
          rw [hrename] at h
          cases h
        | error cause =>
          rw [hrename] at h
          obtain ⟨hfault, rfl⟩ := Prod.mk.inj h
          exact ⟨sameButDrafts_of_write hwrite, _, _, (Except.error.inj hfault).symm⟩
    | deleted id =>
      rw [FileStep.take, deleteFrom, on_delete] at h
      split at h
      · cases h
      · obtain ⟨hfault, rfl⟩ := Prod.mk.inj h
        exact ⟨.refl _, _, _, (Except.error.inj hfault).symm⟩
      · cases h

/-! ## How a request ends -/

/-- How a request that adds or removes a dataset ends: the fault if there is one, the engine and the
files. -/
inductive Ends (e : Engine) (machine : Machine) (r : Request) :
    Option RegistryError → Engine → FileTree → Prop
  | refused {fault : RegistryError} : e.due machine.now r = none → e.Refuses r fault →
      Ends e machine r (some fault) e machine.files
  | failed {step : FileStep} {fault : RegistryError} {machine' : Machine} :
      e.due machine.now r = some step →
      machine.on (step.take e.archive) = (.error fault, machine') →
      Ends e machine r (some fault) e machine'.files
  | done {step : FileStep} {registry : Registry} {machine' : Machine} :
      e.due machine.now r = some step →
      machine.on (step.take e.archive) = (.ok (), machine') →
      registry.get? = step.apply e.registry.get? →
      Ends e machine r none { e with registry := registry } machine'.files

/-- Adding to the registry does not fail for a dataset that has been prepared. -/
theorem exists_add_of_prepare {id : String} {kind : Kind} {rows : List Json} {now : Instant}
    {d : Dataset} (h : e.prepare id kind rows now = .ok d) :
    ∃ registry, e.registry.add d = .ok registry := by
  obtain ⟨hnew, hrows⟩ := prepare_eq_ok_iff.mp h
  obtain ⟨hregistrable, -⟩ := Dataset.isRegistrable_of_ofRows hrows
  obtain ⟨-, -, rs, -, hd⟩ := Dataset.ofRows_eq_ok_iff.mp hrows
  have hid : d.id = id := by rw [← hd]
  exact ⟨_, Registry.add_eq_ok_iff.mpr ⟨hregistrable, fun x hx => hid ▸ hnew x hx, rfl⟩⟩

/-- Removing from the registry does not fail for an id that is there. -/
theorem exists_remove_of_checkPresent {id : String} (h : e.checkPresent id = .ok ()) :
    ∃ d registry, e.registry.remove id = .ok (d, registry) := by
  obtain ⟨hvalid, x, hx, hid⟩ := checkPresent_eq_ok_iff.mp h
  cases hget : e.registry.get? id with
  | none => exact absurd hid (Registry.get?_eq_none_iff.mp hget x hx)
  | some d => exact ⟨d, _, Registry.remove_eq_ok_iff.mpr ⟨hvalid, hget, rfl⟩⟩

/-- The fault of a result, and the engine that is left. -/
def outcome (e : Engine) : Except RegistryError Engine → Option RegistryError × Engine
  | .ok e' => (none, e')
  | .error fault => (some fault, e)

theorem ends_of_addQuietly {id : String} {kind : Kind} {rows : List Json}
    {result : Except RegistryError Engine} {machine' : Machine}
    (h : machine.on (e.addQuietly id kind rows) = (result, machine')) :
    Ends e machine (.add id kind rows) (e.outcome result).1 (e.outcome result).2
      machine'.files := by
  rw [on_addQuietly] at h
  cases hprepare : e.prepare id kind rows machine.now with
  | error fault =>
    simp only [hprepare] at h
    obtain ⟨rfl, rfl⟩ := Prod.mk.inj h
    exact .refused (by simp [due, hprepare]) (prepare_eq_error_iff.mp hprepare)
  | ok d =>
    have hdue : e.due machine.now (.add id kind rows) = some (.saved d) := by simp [due, hprepare]
    simp only [hprepare] at h
    rcases htake : machine.on (saveTo e.archive d) with ⟨fault | ⟨⟩, taken⟩
    · simp only [htake] at h
      obtain ⟨rfl, rfl⟩ := Prod.mk.inj h
      exact .failed hdue htake
    · obtain ⟨registry, hadd⟩ := exists_add_of_prepare hprepare
      simp only [htake, hadd] at h
      obtain ⟨rfl, rfl⟩ := Prod.mk.inj h
      exact .done hdue htake (Registry.get?_of_add hadd)

theorem ends_of_removeQuietly {id : String} {result : Except RegistryError Engine}
    {machine' : Machine} (h : machine.on (e.removeQuietly id) = (result, machine')) :
    Ends e machine (.remove id) (e.outcome result).1 (e.outcome result).2 machine'.files := by
  rw [on_removeQuietly] at h
  cases hcheck : e.checkPresent id with
  | error fault =>
    simp only [hcheck] at h
    obtain ⟨rfl, rfl⟩ := Prod.mk.inj h
    exact .refused (by simp [due, hcheck]) (checkPresent_eq_error_iff.mp hcheck)
  | ok =>
    have hdue : e.due machine.now (.remove id) = some (.deleted id) := by simp [due, hcheck]
    simp only [hcheck] at h
    rcases htake : machine.on (deleteFrom e.archive id) with ⟨fault | ⟨⟩, taken⟩
    · simp only [htake] at h
      obtain ⟨rfl, rfl⟩ := Prod.mk.inj h
      exact .failed hdue htake
    · obtain ⟨d, registry, hremove⟩ := exists_remove_of_checkPresent hcheck
      simp only [htake, hremove] at h
      obtain ⟨rfl, rfl⟩ := Prod.mk.inj h
      exact .done hdue htake (Registry.get?_of_remove hremove)

theorem ends_of_serve [Collator] [Converter] {r : Request} {id : String} (hr : r.id? = some id)
    {reply : Reply}
    {e' : Engine} {machine' : Machine} (h : machine.on (e.serve r) = ((reply, e'), machine')) :
    Ends e machine r reply.fault? e' machine'.files := by
  cases r with
  | list => cases hr
  | query raw => cases hr
  | add id kind rows =>
    obtain ⟨made, hon, hworld⟩ := on_add e id kind rows machine
    rcases hquiet : machine.on (e.addQuietly id kind rows) with ⟨result, quiet⟩
    have hends := ends_of_addQuietly hquiet
    rw [hquiet] at hon hworld
    rw [hworld.files] at hends
    rw [serve, Machine.on_bind, hon] at h
    cases result <;>
      obtain ⟨hreply, rfl⟩ := Prod.mk.inj h <;> obtain ⟨rfl, rfl⟩ := Prod.mk.inj hreply <;>
      exact hends
  | remove id =>
    obtain ⟨made, hon, hworld⟩ := on_remove e id machine
    rcases hquiet : machine.on (e.removeQuietly id) with ⟨result, quiet⟩
    have hends := ends_of_removeQuietly hquiet
    rw [hquiet] at hon hworld
    rw [hworld.files] at hends
    rw [serve, Machine.on_bind, hon] at h
    cases result <;>
      obtain ⟨hreply, rfl⟩ := Prod.mk.inj h <;> obtain ⟨rfl, rfl⟩ := Prod.mk.inj hreply <;>
      exact hends

/-! ## All or nothing -/

theorem exists_rows_of_due {now : Instant} {r : Request} {d : Dataset}
    (h : e.due now r = some (.saved d)) :
    ∃ rows, r = .add d.id d.kind rows ∧ rows.mapM (Record.ofJson d.kind) = .ok d.rows.toList ∧
      d.loadedAt = now := by
  cases r with
  | add id kind rows =>
    cases hprepare : e.prepare id kind rows now with
    | error fault => simp [due, hprepare] at h
    | ok d' =>
      obtain rfl : d' = d := by simpa [due, hprepare] using h
      obtain ⟨-, hrows⟩ := prepare_eq_ok_iff.mp hprepare
      obtain ⟨-, -, rs, hrs, rfl⟩ := Dataset.ofRows_eq_ok_iff.mp hrows
      exact ⟨rows, rfl, by simpa using Dataset.mapM_of_readRows hrs, rfl⟩
  | remove id => cases hcheck : e.checkPresent id <;> simp [due, hcheck] at h
  | list => cases h
  | query raw => cases h

theorem id?_of_due {now : Instant} {r : Request} {step : FileStep} (h : e.due now r = some step) :
    r.id? = some step.id := by
  cases step with
  | saved d =>
    obtain ⟨rows, rfl, -, -⟩ := exists_rows_of_due h
    rfl
  | deleted id =>
    cases r with
    | add id' kind rows => cases hprepare : e.prepare id' kind rows now <;> simp [due, hprepare] at h
    | remove id' => cases hcheck : e.checkPresent id' <;> simp_all [due, FileStep.id, Request.id?]
    | list => cases h
    | query raw => cases h

/-- What is so of a request that adds or removes a dataset: of its reply and of the engine and the
files after it. -/
structure AllOrNothing (e : Engine) (machine : Machine) (r : Request) (reply : Reply) (e' : Engine)
    (t' : FileTree) : Prop where
  /-- If it fails, the engine is as it was, and so are all files but a draft. -/
  failed : ∀ fault, reply.fault? = some fault → e' = e ∧ SameButDrafts machine.files t'
  documents : ∀ fault, reply.fault? = some fault → ∀ place, IsDocument place →
    t'.find? place = machine.files.find? place
  /-- The first check that it does not pass is why it fails, and then no file is touched at all. -/
  refused : ∀ fault, e.Refuses r fault → reply.fault? = some fault ∧ t' = machine.files
  /-- If it passes its checks, only the disk can stop it. -/
  unrefused : ∀ fault, reply.fault? = some fault → (∀ other, ¬ e.Refuses r other) →
    ∃ path cause, fault = .disk path cause
  /-- It succeeds just if its file step does. -/
  done_iff : reply.fault? = none ↔ ∃ step, e.made machine r = some step
  /-- The datasets are as the file step says that has been taken. -/
  resident : e'.registry.get? =
    (e.made machine r).elim e.registry.get? (FileStep.apply e.registry.get?)
  others : ∀ other, r.id? ≠ some other → e'.registry.get? other = e.registry.get? other
  kept : e'.archive = e.archive ∧ e'.limit = e.limit
  /-- The dataset that is added has the rows of the request and the time of its registration. -/
  added : ∀ d, e.made machine r = some (.saved d) → ∃ rows, r = .add d.id d.kind rows ∧
    rows.mapM (Record.ofJson d.kind) = .ok d.rows.toList ∧ d.loadedAt = machine.now

/-- A request that is refused comes to no file step. -/
theorem Refuses.due_eq_none {r : Request} {fault : RegistryError} (h : e.Refuses r fault)
    (now : Instant) : e.due now r = none := by
  cases r with
  | add id kind rows => simp [due, prepare_eq_error_iff.mpr h]
  | remove id => simp [due, checkPresent_eq_error_iff.mpr h]
  | list => cases h
  | query raw => cases h

/-- Only the first check that is not passed counts. -/
theorem Refuses.unique {r : Request} {fault other : RegistryError} (h : e.Refuses r fault)
    (h' : e.Refuses r other) : fault = other := by
  cases r with
  | add id kind rows =>
    have heq : e.prepare id kind rows default = .error fault := prepare_eq_error_iff.mpr h
    exact Except.error.inj (heq.symm.trans (prepare_eq_error_iff.mpr h'))
  | remove id =>
    have heq := checkPresent_eq_error_iff.mpr h
    exact Except.error.inj (heq.symm.trans (checkPresent_eq_error_iff.mpr h'))
  | list => cases h
  | query raw => cases h

theorem Ends.allOrNothing {r : Request} {reply : Reply} {fault? : Option RegistryError}
    (hfault : reply.fault? = fault?) {e' : Engine} {t' : FileTree}
    (h : Ends e machine r fault? e' t') : AllOrNothing e machine r reply e' t' := by
  have hothers {step : FileStep} (hdue : e.due machine.now r = some step) (other : String)
      (hother : r.id? ≠ some other) : other ≠ step.id := by
    rintro rfl
    exact hother (id?_of_due hdue)
  have hadded : ∀ d, e.made machine r = some (.saved d) → ∃ rows, r = .add d.id d.kind rows ∧
      rows.mapM (Record.ofJson d.kind) = .ok d.rows.toList ∧ d.loadedAt = machine.now :=
    fun d hmade => exists_rows_of_due (Option.filter_eq_some_iff.mp hmade).1
  cases h with
  | @refused cause hdue hrefuses =>
    have hmade : e.made machine r = none := by simp [made, hdue]
    have hsame := SameButDrafts.refl machine.files
    exact
      { failed := fun _ _ => ⟨rfl, hsame⟩
        documents := fun _ _ _ _ => rfl
        refused := fun other hother => ⟨hfault.trans (by rw [hrefuses.unique hother]), rfl⟩
        unrefused := fun _ _ hnone => absurd hrefuses (hnone cause)
        done_iff := by simp [hfault, hmade]
        resident := by rw [hmade]; rfl
        others := fun _ _ => rfl
        kept := ⟨rfl, rfl⟩
        added := hadded }
  | @failed step cause machine' hdue htake =>
    have hmade : e.made machine r = none := by simp [made, hdue, htake, Except.isOk, Except.toBool]
    obtain ⟨hsame, path, why, rfl⟩ := of_take_error htake
    exact
      { failed := fun _ _ => ⟨rfl, hsame⟩
        documents := fun _ _ _ hplace => hsame.find?_document hplace
        refused := fun other hother => by
          rw [hother.due_eq_none] at hdue
          cases hdue
        unrefused := fun other hother _ => by
          obtain rfl := Option.some.inj (hfault.symm.trans hother)
          exact ⟨path, why, rfl⟩
        done_iff := by simp [hfault, hmade]
        resident := by rw [hmade]; rfl
        others := fun _ _ => rfl
        kept := ⟨rfl, rfl⟩
        added := hadded }
  | @done step registry machine' hdue htake hget =>
    have hmade : e.made machine r = some step := by
      simp [made, hdue, htake, Except.isOk, Except.toBool]
    exact
      { failed := fun _ hother => by
          rw [hfault] at hother
          cases hother
        documents := fun _ hother => by
          rw [hfault] at hother
          cases hother
        refused := fun other hother => by
          rw [hother.due_eq_none] at hdue
          cases hdue
        unrefused := fun _ hother => by
          rw [hfault] at hother
          cases hother
        done_iff := by simp [hfault, hmade]
        resident := by rw [hmade]; exact hget
        others := fun other hother =>
          (congrFun hget other).trans (FileStep.apply_of_ne (hothers hdue other hother))
        kept := ⟨rfl, rfl⟩
        added := hadded }

/-! ## Runs -/

/-- The engine and the machine after requests, each served at an instant of its own. -/
def serveAll [Collator] [Converter] :
    List (Instant × Request) → Engine → Machine → Engine × Machine
  | [], e, machine => (e, machine)
  | (now, r) :: rest, e, machine =>
    let ((_, e), machine) := { machine with now := now }.on (e.serve r)
    serveAll rest e machine

/-- The file steps taken for requests, in order. -/
def madeAll [Collator] [Converter] :
    List (Instant × Request) → Engine → Machine → List FileStep
  | [], _, _ => []
  | (now, r) :: rest, e, machine =>
    let machine := { machine with now := now }
    let ((_, e'), machine') := machine.on (e.serve r)
    (e.made machine r).toList ++ madeAll rest e' machine'

/-- Lists and queries leave the engine as it is. -/
theorem serve_of_id? [Collator] [Converter] (e : Engine) (machine : Machine) {r : Request}
    (hr : r.id? = none) : (machine.on (e.serve r)).1.2 = e := by
  cases r with
  | add | remove => cases hr
  | list => rfl
  | query raw =>
    rw [serve, Machine.on_bind]
    rfl

/-- The datasets after any request are as the file step says that has been taken for it. -/
theorem get?_serve [Collator] [Converter] (e : Engine) (machine : Machine) (r : Request) :
    (machine.on (e.serve r)).1.2.registry.get? =
      (e.made machine r).elim e.registry.get? (FileStep.apply e.registry.get?) := by
  rcases hserve : machine.on (e.serve r) with ⟨⟨reply, e'⟩, machine'⟩
  cases hid : r.id? with
  | some id => exact ((ends_of_serve hid hserve).allOrNothing rfl).resident
  | none =>
    have hsame := e.serve_of_id? machine hid
    rw [hserve] at hsame
    obtain rfl : e' = e := hsame
    -- and they come to no file step
    cases r with
    | add | remove => cases hid
    | list | query => rfl

theorem get?_serveAll [Collator] [Converter] (steps : List (Instant × Request)) (e : Engine)
    (machine : Machine) :
    (serveAll steps e machine).1.registry.get? =
      (madeAll steps e machine).foldl FileStep.apply e.registry.get? := by
  induction steps generalizing e machine with
  | nil => rfl
  | cons step steps ih =>
    obtain ⟨now, r⟩ := step
    have hget := get?_serve e { machine with now := now } r
    rw [serveAll, madeAll]
    dsimp only
    generalize Machine.on { machine with now := now } (e.serve r) = outcome at hget ⊢
    obtain ⟨⟨reply, e'⟩, machine'⟩ := outcome
    dsimp only at hget ⊢
    rw [ih, List.foldl_append, hget]
    cases e.made { machine with now := now } r <;> rfl

/-- Every request that adds or removes a dataset does all of it or nothing, on every engine and
machine. After a run of requests there is under each id the dataset that was saved last, unless its
file was deleted after that, and as before where no file step was taken. -/
theorem serve_allOrNothing [Collator] [Converter] (e : Engine) (machine : Machine) :
    (∀ r id reply e' machine', r.id? = some id →
      machine.on (e.serve r) = ((reply, e'), machine') →
      AllOrNothing e machine r reply e' machine'.files) ∧
    ∀ steps id, (serveAll steps e machine).1.registry.get? id =
      (FileStep.last? (madeAll steps e machine) id).elim (e.registry.get? id) FileStep.left := by
  refine ⟨?_, fun steps id => ?_⟩
  · intro r id reply e' machine' hid hserve
    exact (ends_of_serve hid hserve).allOrNothing rfl
  · rw [get?_serveAll, FileStep.foldl_apply]

/-- Where a directory stands in the place of its file, a dataset is not added; the draft stays. -/
theorem serve_allOrNothing_directory :
    let e : Engine := ⟨.empty, some ⟨"data"⟩, 5⟩
    let machine : Machine := { files := {
      here := ["home"]
      nodes := [(["home", "data"], .directory), (["home", "data", "a.json"], .directory)] } }
    ∃ reply machine', machine.on (e.serve (.add "a" .rooms [Session.hall])) =
        ((reply, e), machine') ∧
      reply.fault?.map RegistryError.code = some "INSIGHT_IO_ERROR" ∧
      machine'.files.find? ["home", "data", "a.json"] = some .directory ∧
      machine.files.find? ["home", "data", "a.json.tmp"] = none ∧
      (machine'.files.find? ["home", "data", "a.json.tmp"]).isSome = true := by
  intro e machine
  have hfault : (machine.on (e.serve (.add "a" .rooms [Session.hall]))).1.1.fault?.map
      RegistryError.code = some "INSIGHT_IO_ERROR" := by decide +kernel
  have hdraft : ((machine.on (e.serve (.add "a" .rooms [Session.hall]))).2.files.find?
      ["home", "data", "a.json.tmp"]).isSome = true := by decide +kernel
  rcases hserve : machine.on (e.serve (.add "a" .rooms [Session.hall])) with
    ⟨⟨reply, e'⟩, machine'⟩
  rw [hserve] at hfault hdraft
  obtain ⟨fault, hreply, -⟩ := Option.map_eq_some_iff.mp hfault
  have hall := (serve_allOrNothing e machine).1 _ "a" reply e' machine' rfl hserve
  obtain ⟨rfl, -⟩ := hall.failed fault hreply
  have hdocument := hall.documents fault hreply ["home", "data", "a.json"]
    ⟨["home", "data"], "a", rfl⟩
  exact ⟨reply, machine', rfl, hfault, hdocument, rfl, hdraft⟩

end Engine

end CampusQuery
