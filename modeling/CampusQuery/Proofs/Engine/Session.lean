import Mathlib
import CampusQuery.Number.Exact
import CampusQuery.Proofs.Engine.Opening
import CampusQuery.Proofs.Registry.Document
import CampusQuery.Session
import CampusQuery.Text.Collation

/-!
# Sessions with and without reopening

In a session that begins without datasets, opening the engine anew at any points changes no reply,
if the numbers of the rows that are added are read where they were written: after every request the
files hold just the datasets that the engine has, so that the engine that is opened is the one that
was closed.

* `blind_serve` — the reply to a request does not depend on the journal.
* `Agrees.serve` — one request keeps the agreement of engine and files.
* `run_eq_run_requests` — a session gives the replies of its requests alone.
-/

namespace CampusQuery

open Machine (Blind KeepsWorld)

/-- A request about an id without a slash, or about none. -/
def Request.IsUndivided (r : Request) : Prop :=
  ∀ id, r.id? = some id → Path.slash ∉ id.toList

/-- The numbers of all rows that a request adds are read where they were written. -/
def Request.IsLossless : Request → Prop
  | .add _ kind rows => ∀ v ∈ rows, ∀ r, Record.ofJson kind v = .ok r → r.reread = r
  | _ => True

/-- The moment from which time is counted. -/
def Moment.start : Moment :=
  ⟨⟨0, 0, 0⟩, by decide⟩

namespace Archive

theorem blind_save (a : Archive) (d : Dataset) : Blind (a.save d) := by
  refine (Blind.change _).bind fun result => ?_
  cases result with
  | error => exact .pure _
  | ok =>
    refine (Blind.change _).bind fun result => ?_
    cases result <;> exact .pure _

theorem blind_delete (a : Archive) (id : String) : Blind (a.delete id) := by
  refine (Blind.change _).bind fun result => ?_
  split <;> exact .pure _

end Archive

namespace Engine

/-! ## The journal has no say -/

theorem blind_saveTo (archive : Option Archive) (d : Dataset) : Blind (saveTo archive d) := by
  cases archive with
  | none => exact .pure _
  | some a => exact a.blind_save d

theorem blind_deleteFrom (archive : Option Archive) (id : String) :
    Blind (deleteFrom archive id) := by
  cases archive with
  | none => exact .pure _
  | some a => exact a.blind_delete id

theorem blind_add (e : Engine) (id : String) (kind : Kind) (rows : List Json) :
    Blind (e.add id kind rows) := by
  have hquietly : Blind (e.addQuietly id kind rows) := by
    refine Blind.now.bind fun now => ?_
    cases e.prepare id kind rows now with
    | error => exact .pure _
    | ok d =>
      refine (blind_saveTo _ d).bind fun result => ?_
      cases result <;> exact .pure _
  refine hquietly.bind fun result => ?_
  cases result <;> exact (Blind.record _ _).bind fun _ => .pure _

theorem blind_remove (e : Engine) (id : String) : Blind (e.remove id) := by
  have hquietly : Blind (e.removeQuietly id) := by
    unfold removeQuietly
    cases e.checkPresent id with
    | error => exact .pure _
    | ok =>
      refine (blind_deleteFrom _ id).bind fun result => ?_
      cases result <;> exact .pure _
  refine hquietly.bind fun result => ?_
  cases result <;> exact (Blind.record _ _).bind fun _ => .pure _

theorem blind_close (s : Scope) (severity : Severity) (event : Event) (fields : Fields) :
    Blind (s.close severity event fields) :=
  Blind.milliseconds.bind fun _ => .add _

theorem blind_start (event : Event) (fields : Fields) : Blind (Scope.start event fields) :=
  (Blind.record _ _).bind fun _ => Blind.milliseconds.bind fun _ => .pure _

theorem blind_recordSaturated (xs : List Binary64) : Blind (recordSaturated xs) := by
  induction xs with
  | nil => exact .pure _
  | cons x xs ih => exact (Blind.record _ _).bind fun _ => ih

theorem blind_query [Collator] [Converter] (e : Engine) (raw : Json) : Blind (e.query raw) := by
  refine (blind_start _ _).bind fun s => ?_
  refine (blind_recordSaturated _).bind fun _ => ?_
  cases (e.registry.query e.limit raw).result <;>
    exact (blind_close _ _ _ _).bind fun _ => .pure _

/-- The reply to a request, the engine and the files after it do not depend on the journal. -/
theorem blind_serve [Collator] [Converter] (e : Engine) (r : Request) : Blind (e.serve r) := by
  cases r with
  | add id kind rows =>
    refine (e.blind_add id kind rows).bind fun result => ?_
    cases result <;> exact .pure _
  | remove id =>
    refine (e.blind_remove id).bind fun result => ?_
    cases result <;> exact .pure _
  | list => exact .pure _
  | query raw => exact (e.blind_query raw).bind fun _ => .pure _

/-! ## A query changes nothing -/

theorem keepsWorld_close (s : Scope) (severity : Severity) (event : Event) (fields : Fields) :
    KeepsWorld (s.close severity event fields) :=
  KeepsWorld.milliseconds.bind fun _ => .add _

theorem keepsWorld_recordSaturated (xs : List Binary64) : KeepsWorld (recordSaturated xs) := by
  induction xs with
  | nil => exact .pure _
  | cons x xs ih => exact (KeepsWorld.record _ _).bind fun _ => ih

theorem keepsWorld_query [Collator] [Converter] (e : Engine) (raw : Json) : KeepsWorld
    (e.query raw) := by
  have hstart : KeepsWorld (Scope.start .queryBegin []) :=
    (KeepsWorld.record _ _).bind fun _ => KeepsWorld.milliseconds.bind fun _ => .pure _
  refine hstart.bind fun s => ?_
  refine (keepsWorld_recordSaturated _).bind fun _ => ?_
  cases (e.registry.query e.limit raw).result <;>
    exact (keepsWorld_close _ _ _ _).bind fun _ => .pure _

/-! ## One request -/

variable {reads : List UInt8 → Dataset → Prop} {e : Engine} {directory : List String}

theorem readsBack_of_prepare {id : String} {kind : Kind} {rows : List Json} {now : Instant}
    (hnow : now.isValid = true) {d : Dataset} (h : e.prepare id kind rows now = .ok d) :
    Dataset.ReadsBack d.document d.reread := by
  obtain ⟨-, hrows⟩ := prepare_eq_ok_iff.mp h
  obtain ⟨hregistrable, hkind⟩ := Dataset.isRegistrable_of_ofRows hrows
  obtain ⟨-, -, rs, -, rfl⟩ := Dataset.ofRows_eq_ok_iff.mp hrows
  exact Dataset.ofFile_document hregistrable hkind hnow

theorem reread_of_prepare {id : String} {kind : Kind} {rows : List Json} {now : Instant}
    {d : Dataset} (h : e.prepare id kind rows now = .ok d)
    (hlossless : (Request.add id kind rows).IsLossless) : d.reread = d := by
  obtain ⟨-, hrows⟩ := prepare_eq_ok_iff.mp h
  obtain ⟨-, -, rs, hrs, rfl⟩ := Dataset.ofRows_eq_ok_iff.mp hrows
  refine Dataset.reread_eq_self fun r hr => ?_
  obtain ⟨v, hv, hread⟩ :=
    (Archive.mem_iff_of_mapM (Dataset.mapM_of_readRows hrs)).mp (by simpa using hr)
  exact hlossless v hv r hread

/-- After a request the engine has the archive and the limit it had, and agrees with the files. -/
theorem Agrees.serve [Collator] [Converter] {machine : Machine}
    (h : Agrees reads e machine.files directory) {r : Request} (hr : r.IsUndivided)
    (hreads : ∀ id kind rows d, r = .add id kind rows →
      e.prepare id kind rows machine.now = .ok d → reads d.document d) :
    (machine.on (e.serve r)).1.2.archive = e.archive ∧
      (machine.on (e.serve r)).1.2.limit = e.limit ∧
      Agrees reads (machine.on (e.serve r)).1.2 (machine.on (e.serve r)).2.files directory := by
  cases r with
  | add id kind rows =>
    have hchanged := h.on_add (hr id rfl) kind rows fun d => hreads id kind rows d rfl
    rw [Engine.serve, Machine.on_bind]
    generalize machine.on (e.add id kind rows) = outcome at hchanged
    obtain ⟨fault | e', machine'⟩ := outcome
    · exact ⟨rfl, rfl, hchanged.failed fault rfl⟩
    · exact hchanged.done e' rfl
  | remove id =>
    have hchanged := h.on_remove id
    rw [Engine.serve, Machine.on_bind]
    generalize machine.on (e.remove id) = outcome at hchanged
    obtain ⟨fault | e', machine'⟩ := outcome
    · exact ⟨rfl, rfl, hchanged.failed fault rfl⟩
    · exact hchanged.done e' rfl
  | list => exact ⟨rfl, rfl, h⟩
  | query raw =>
    have hfiles := (keepsWorld_query e raw machine).files
    refine ⟨rfl, rfl, ?_⟩
    rw [Engine.serve, Machine.on_bind]
    exact hfiles ▸ h

/-- On an empty disk an engine can be opened, and has no datasets. -/
theorem exists_open_empty : ∃ e machine',
    Machine.on {} (open_ (some "data") 5) = (.ok e, machine') ∧ e.registry = .empty := by
  have hopened : ((Machine.on {} (open_ (some "data") 5)).1.toOption.any
      fun e => e.registry.datasets.isEmpty) = true := by decide +kernel
  generalize Machine.on {} (open_ (some "data") 5) = outcome at hopened
  obtain ⟨_ | e, machine'⟩ := outcome
  · cases hopened
  · obtain ⟨⟨datasets⟩, archive, limit⟩ := e
    obtain rfl : datasets = [] := List.isEmpty_iff.mp hopened
    exact ⟨_, machine', rfl, rfl⟩

end Engine

/-! ## Whole sessions -/

namespace Session

/-- Every request of a session is about an id without a slash, or about none. -/
def IsUndivided (steps : List Step) : Prop :=
  ∀ step ∈ steps, ∀ r, step.action = .request r → r.IsUndivided

/-- The numbers of all rows that are added in a session are read where they were written. -/
def IsLossless (steps : List Step) : Prop :=
  ∀ step ∈ steps, ∀ r, step.action = .request r → r.IsLossless

/-- The requests of a session alone. -/
def requests (steps : List Step) : List Step :=
  steps.filter fun step => step.action.isRequest

theorem run_eq_of_agrees [Collator] [Converter] {root : String} {limit : Nat}
    {directory : List String}
    {steps : List Step} (hsteps : IsUndivided steps) (hlossless : IsLossless steps) {e : Engine}
    {machine machine' : Machine} (hfiles : machine.files = machine'.files)
    (harchive : e.archive = some ⟨root⟩) (hlimit : e.limit = limit)
    (h : Engine.Agrees Dataset.ReadsBack e machine.files directory) :
    ∃ replies, run root limit steps e machine = some replies ∧
      run root limit (requests steps) e machine' = some replies := by
  induction steps generalizing e machine machine' with
  | nil => exact ⟨[], rfl, rfl⟩
  | cons step steps ih =>
    obtain ⟨hstep, hrest⟩ := List.forall_mem_cons.mp hsteps
    obtain ⟨hsame, hsameRest⟩ := List.forall_mem_cons.mp hlossless
    obtain ⟨moment, action⟩ := step
    cases action with
    | request r =>
      let before : Machine := { machine with now := moment.instant }
      let before' : Machine := { machine' with now := moment.instant }
      have hworld : Machine.SameWorld before before' := ⟨hfiles, rfl⟩
      obtain ⟨hreply, hworld'⟩ := e.blind_serve r _ _ hworld
      have hbefore : Engine.Agrees Dataset.ReadsBack e before.files directory := h
      have hreads (id : String) (kind : Kind) (rows : List Json) (d : Dataset)
          (hr : r = .add id kind rows) (hd : e.prepare id kind rows before.now = .ok d) :
          Dataset.ReadsBack d.document d := by
        have hread := Engine.readsBack_of_prepare moment.valid hd
        rwa [Engine.reread_of_prepare hd (hr ▸ hsame r rfl)] at hread
      obtain ⟨harchive', hlimit', hagrees⟩ := hbefore.serve (hstep r rfl) hreads
      obtain ⟨replies, hrun, hrun'⟩ :=
        ih hrest hsameRest hworld'.files (harchive'.trans harchive) (hlimit'.trans hlimit) hagrees
      refine ⟨(before.on (e.serve r)).1.1 :: replies, ?_, ?_⟩
      · exact congrArg (Option.map _) hrun
      · rw [hreply]
        rw [hreply] at hrun'
        exact congrArg (Option.map _) hrun'
    | reopen =>
      let before : Machine := { machine with now := moment.instant }
      have hbefore : Engine.Agrees Dataset.ReadsBack e before.files directory := h
      obtain ⟨after, hopen, hafter⟩ := hbefore.on_open harchive
        fun d _ bytes path hbytes => hbytes path moment.instant
      rw [hlimit] at hopen
      obtain ⟨replies, hrun, hrun'⟩ :=
        ih hrest hsameRest (hafter.trans hfiles) harchive hlimit (hafter.symm ▸ h)
      refine ⟨replies, ?_, hrun'⟩
      have : (Engine.open_ (some root) limit : StateM Machine _).run before = (.ok e, after) :=
        hopen
      simp only [run]
      rw [this]
      exact hrun

/-- An engine that was opened without datasets agrees with the files. -/
theorem agrees_of_open {root : String} {limit : Nat} {machine machine' : Machine} {e : Engine}
    (hopen : machine.on (Engine.open_ (some root) limit) = (.ok e, machine'))
    (hempty : e.registry = .empty) :
    e.archive = some ⟨root⟩ ∧ e.limit = limit ∧
      ∃ directory, Engine.Agrees Dataset.ReadsBack e machine'.files directory := by
  obtain ⟨names, ds, hnames, hds, hr, harchive, hlimit⟩ := Engine.of_open hopen
  have hnone := (Engine.registry_eq_empty_iff hopen hnames).mp hempty
  obtain ⟨directory, hholds⟩ := Archive.Holds.of_load hnames hds hr (by simp [hnone])
  refine ⟨harchive, hlimit, directory, ⟨root⟩, harchive, hholds.mono ?_⟩
  rw [hempty]
  exact fun _ hd => nomatch hd

/-- In a session that begins with an engine opened where no datasets are, and in which the numbers
of the rows that are added are read where they were written, opening the engine anew at any points
always succeeds and changes no reply: the session gives the replies of its requests alone. -/
theorem run_eq_run_requests [Collator] [Converter] {root : String} {limit : Nat}
    {machine machine' : Machine}
    {e : Engine} (hopen : machine.on (Engine.open_ (some root) limit) = (.ok e, machine'))
    (hempty : e.registry = .empty) {steps : List Step} (hsteps : IsUndivided steps)
    (hlossless : IsLossless steps) :
    ∃ replies, run root limit steps e machine' = some replies ∧
      run root limit (requests steps) e machine' = some replies := by
  obtain ⟨harchive, hlimit, directory, hagrees⟩ := agrees_of_open hopen hempty
  exact run_eq_of_agrees hsteps hlossless rfl harchive hlimit hagrees

/-- A row of a dataset of rooms. -/
def hall : Json :=
  .array [.string "Hall 1", .string "H", .string "1", .string "H 1", .string "Main Mall",
    .number (.integer 49), .number (.integer (-123)), .number (.integer 20), .string "Open",
    .string "Chairs", .string "link"]

/-- Its numbers have few digits. -/
theorem isLossless_hall : (Request.add "halls" .rooms [hall]).IsLossless := by
  have hread : (Record.ofJson .rooms hall).toOption.all (fun r => r.reread == r) = true := by
    decide +kernel
  intro v hv r hr
  obtain rfl := List.mem_singleton.mp hv
  rw [hr] at hread
  exact eq_of_beq hread

/-- A dataset that is added, found again after opening anew and removed, from an empty disk on. -/
theorem run_eq_run_requests_add_list_remove :
    let steps : List Step := [⟨.start, .request (.add "halls" .rooms [hall])⟩, ⟨.start, .reopen⟩,
      ⟨.start, .request .list⟩, ⟨.start, .request (.remove "halls")⟩]
    ∃ e machine', Machine.on {} (Engine.open_ (some "data") 5) = (.ok e, machine') ∧
      e.registry = .empty ∧ IsUndivided steps ∧ IsLossless steps ∧
        ∃ replies, run "data" 5 steps e machine' = some replies ∧
          run "data" 5 (requests steps) e machine' = some replies := by
  intro steps
  obtain ⟨e, machine', hopen, hempty⟩ := Engine.exists_open_empty
  have hhalls : Path.slash ∉ "halls".toList := by decide +kernel
  have hsteps : IsUndivided steps := by
    intro step hstep r hr id hid
    simp only [steps, List.mem_cons, List.not_mem_nil, or_false] at hstep
    rcases hstep with rfl | rfl | rfl | rfl <;> cases hr <;> cases hid <;> exact hhalls
  have hlossless : IsLossless steps := by
    intro step hstep r hr
    simp only [steps, List.mem_cons, List.not_mem_nil, or_false] at hstep
    rcases hstep with rfl | rfl | rfl | rfl <;> cases hr
    · exact isLossless_hall
    · trivial
    · trivial
  exact ⟨e, machine', hopen, hempty, hsteps, hlossless,
    run_eq_run_requests hopen hempty hsteps hlossless⟩

end Session

end CampusQuery
