import Mathlib
import CampusQuery.Proofs.Answer.Group
import CampusQuery.Proofs.Engine.Session

/-!
# What is recorded

Every operation on an engine adds entries to the journal that its result determines: of a change one
entry, of a query its beginning, the numbers beyond all decimals and its end, of the opening of an
engine its steps. Of these the lines are kept, in order, that are grave enough.

* `Machine.Records` — entries that have been recorded between two machines; they add up.
* `Machine.Quiet` — a program that records nothing.
* `Operation.entries` — the entries of an operation and its result.
* `records_performAll` — what is recorded in a run.
-/

namespace CampusQuery

namespace Machine

variable {α β : Type}

/-! ## Entries in the journal -/

/-- Entries that have been recorded between two machines: the journal has the lines of those that
rank no lower than its minimum, in order, and that minimum is the same. -/
structure Records (before after : Machine) (entries : List Entry) : Prop where
  lines : after.lines =
    ((entries.filter fun e => before.minimum.rank ≤ e.severity.rank).map Entry.line).reverse ++
      before.lines
  minimum : after.minimum = before.minimum

namespace Records

protected theorem refl (machine : Machine) : Records machine machine [] :=
  ⟨rfl, rfl⟩

theorem append {first second third : Machine} {es es' : List Entry} (h : Records first second es)
    (h' : Records second third es') : Records first third (es ++ es') := by
  refine ⟨?_, h'.minimum.trans h.minimum⟩
  rw [h'.lines, h.lines, h.minimum, List.filter_append, List.map_append, List.reverse_append,
    List.append_assoc]

theorem add (e : Entry) (machine : Machine) :
    Records machine (machine.on (Journal.add e)).2 [e] := by
  unfold Journal.add
  rw [on_bind]
  show Records machine (machine.on (if e.severity.passes machine.minimum = true then
    Journal.append e.line else pure ())).2 [e]
  have hpasses : e.severity.passes machine.minimum = true ↔
      machine.minimum.rank ≤ e.severity.rank := decide_eq_true_iff
  by_cases h : machine.minimum.rank ≤ e.severity.rank
  · rw [if_pos (hpasses.mpr h)]
    exact ⟨by simp [h]; rfl, rfl⟩
  · rw [if_neg (mt hpasses.mp h)]
    exact ⟨by simp [h]; rfl, rfl⟩

theorem record (event : Event) (fields : Fields) (machine : Machine) :
    Records machine (machine.on (Journal.record event fields)).2 [.ofEvent event fields] :=
  add _ machine

end Records

/-- A program that records nothing. -/
def Quiet (p : StateM Machine α) : Prop :=
  ∀ machine : Machine, Records machine (machine.on p).2 []

namespace Quiet

theorem of_keeps {p : StateM Machine α}
    (h : ∀ lines minimum, Keeps (fun machine => machine.lines = lines ∧ machine.minimum = minimum)
      p) : Quiet p := by
  intro machine
  obtain ⟨hlines, hminimum⟩ := h machine.lines machine.minimum machine ⟨rfl, rfl⟩
  exact ⟨hlines, hminimum⟩

protected theorem pure (a : α) : Quiet (pure a) :=
  Records.refl

protected theorem bind {p : StateM Machine α} {f : α → StateM Machine β} (hp : Quiet p)
    (hf : ∀ a, Quiet (f a)) : Quiet (p >>= f) :=
  fun machine => (hp machine).append (hf _ _)

theorem change (f : FileTree → Except DiskFault FileTree) : Quiet (Machine.change f) :=
  of_keeps fun _ _ => .change fun _ _ h _ => h

theorem makeDirectories (path : String) : Quiet (Disk.makeDirectories path) :=
  of_keeps fun _ _ => .makeLineage (fun _ => .change fun _ _ h _ => h) _

theorem now : Quiet Clock.now :=
  Records.refl

end Quiet

end Machine

open Machine (Records Quiet)

/-! ## Programs that record nothing -/

namespace Engine

theorem quiet_saveTo (archive : Option Archive) (d : Dataset) : Quiet (saveTo archive d) := by
  cases archive with
  | none => exact .pure _
  | some a =>
    refine (Quiet.change _).bind fun result => ?_
    cases result with
    | error => exact .pure _
    | ok =>
      refine (Quiet.change _).bind fun result => ?_
      cases result <;> exact .pure _

theorem quiet_deleteFrom (archive : Option Archive) (id : String) :
    Quiet (deleteFrom archive id) := by
  cases archive with
  | none => exact .pure _
  | some a =>
    refine (Quiet.change _).bind fun result => ?_
    split <;> exact .pure _

theorem quiet_addQuietly (e : Engine) (id : String) (kind : Kind) (rows : List Json) :
    Quiet (e.addQuietly id kind rows) := by
  refine Quiet.now.bind fun now => ?_
  cases e.prepare id kind rows now with
  | error => exact .pure _
  | ok d =>
    refine (quiet_saveTo _ d).bind fun result => ?_
    cases result <;> exact .pure _

theorem quiet_removeQuietly (e : Engine) (id : String) : Quiet (e.removeQuietly id) := by
  unfold removeQuietly
  cases e.checkPresent id with
  | error => exact .pure _
  | ok =>
    refine (quiet_deleteFrom _ id).bind fun result => ?_
    cases result <;> exact .pure _

end Engine

/-! ## What is to be recorded -/

/-- The numbers in a field of the rows of a group that no decimal denotes, row by row. -/
def Grouping.beyond [Converter] (rows : Array Record) (group : List Nat) (f : Field) :
    List Binary64 :=
  group.filterMap fun place =>
    (rows[place]?.bind fun row => row.number? f).filter fun x => (Decimal.ofBinary64? x).isNone

/-- The numbers that no decimal denotes, for each group, for each of its sums and means, whether it
is shown or not. -/
def Registry.beyond [Converter] (r : Registry) (raw : Json) : List Binary64 :=
  match Plan.ofJson r.kindOf raw with
  | .error _ => []
  | .ok p =>
    match r.find p, p.grouping with
    | .ok d, some g =>
      (partition d.rows g.keys (p.matched d.rows)).flatMap fun group =>
        (g.rules.filter fun rule => rule.aggregate = .sum ∨ rule.aggregate = .average).flatMap
          fun rule => Grouping.beyond d.rows group rule.key.field
    | _, _ => []

namespace Entry

/-- A change that was refused. -/
def rejected (id : String) (fault : RegistryError) : Entry :=
  ⟨.warn, "DATASET_REJECTED",
    [("code", fault.code), ("dataset", id), ("reason", fault.message)]⟩

/-- The end of a query; the clock of a machine stands still. -/
def queried : Except QueryError Answer → Entry
  | .ok a => ⟨.info, "QUERY_COMPLETE", [("matched", toString a.matched),
      ("rows", toString a.rows.length), ("scanned", toString a.scanned), ("elapsed_ms", "0")]⟩
  | .error fault => ⟨.warn, "QUERY_REJECTED",
      [("code", fault.code), ("reason", fault.message), ("elapsed_ms", "0")]⟩

/-- A number that counts as the extreme decimal. -/
def saturated (x : Binary64) : Entry :=
  ⟨.warn, "AGGREGATE_SATURATED", [("value", NumberStyle.plain.render x)]⟩

end Entry

/-- The entries of a request and its reply. -/
def Request.entries [Converter] (r : Registry) : Request → Reply → List Entry
  | .add id kind _, .added (.ok _) =>
    [⟨.info, "DATASET_ADDED", [("dataset", id), ("kind", kind.label)]⟩]
  | .add id _ _, .added (.error fault) => [.rejected id fault]
  | .remove id, .removed (.ok _) => [⟨.info, "DATASET_REMOVED", [("dataset", id)]⟩]
  | .remove id, .removed (.error fault) => [.rejected id fault]
  | .query raw, .answered result =>
    ⟨.trace, "QUERY_BEGIN", []⟩ :: (r.beyond raw).map .saturated ++ [.queried result]
  | _, _ => []

/-- Whether the directory of an archive is there, or can be made, but the datasets in it cannot be
read. -/
def Archive.failsToLoad (root : String) (machine : Machine) : Bool :=
  match machine.on (Disk.makeDirectories root) with
  | (.ok (), made) => !(made.on ((⟨root⟩ : Archive).load made.now)).1.isOk
  | (.error _, _) => false

/-- The entries of the loading of an archive. -/
def Archive.entries (root : String) (machine : Machine) : Except RegistryError Engine → List Entry
  | .ok e => [⟨.info, "DATASETS_LOADED",
      [("count", toString e.registry.size), ("data_dir", root)]⟩]
  | .error fault =>
    bif failsToLoad root machine then
      [⟨.fatal, "DATASET_LOAD_FAILED", [("code", fault.code), ("reason", fault.message)]⟩]
    else []

/-- The entries of the opening of an engine. -/
def Engine.openEntries (root : Option String) (machine : Machine)
    (result : Except RegistryError Engine) : List Entry :=
  ⟨.info, "INSIGHTDB_STARTUP_BEGIN", []⟩ ::
    root.toList.flatMap (fun root => Archive.entries root machine result) ++
    bif result.isOk then [⟨.info, "INSIGHTDB_STARTUP_COMPLETE", []⟩] else []

/-! ## Changes and queries -/

namespace Engine

theorem records_add (e : Engine) (id : String) (kind : Kind) (rows : List Json)
    (machine : Machine) :
    Records machine (machine.on (e.add id kind rows)).2
      (match (machine.on (e.add id kind rows)).1 with
        | .ok _ => [⟨.info, "DATASET_ADDED", [("dataset", id), ("kind", kind.label)]⟩]
        | .error fault => [.rejected id fault]) := by
  have hquiet := quiet_addQuietly e id kind rows machine
  rw [add, Machine.on_bind]
  generalize machine.on (e.addQuietly id kind rows) = outcome at hquiet ⊢
  obtain ⟨fault | e', after⟩ := outcome
  · exact hquiet.append (.record _ _ after)
  · exact hquiet.append (.record _ _ after)

theorem records_remove (e : Engine) (id : String) (machine : Machine) :
    Records machine (machine.on (e.remove id)).2
      (match (machine.on (e.remove id)).1 with
        | .ok _ => [⟨.info, "DATASET_REMOVED", [("dataset", id)]⟩]
        | .error fault => [.rejected id fault]) := by
  have hquiet := quiet_removeQuietly e id machine
  rw [remove, Machine.on_bind]
  generalize machine.on (e.removeQuietly id) = outcome at hquiet ⊢
  obtain ⟨fault | e', after⟩ := outcome
  · exact hquiet.append (.record _ _ after)
  · exact hquiet.append (.record _ _ after)

theorem records_recordSaturated (xs : List Binary64) (machine : Machine) :
    Records machine (machine.on (recordSaturated xs)).2 (xs.map .saturated) := by
  induction xs generalizing machine with
  | nil => exact .refl machine
  | cons x xs ih =>
    exact (Records.record .aggregateSaturated [("value", NumberStyle.plain.render x)]
      machine).append (ih _)

end Engine

theorem flatMap_filter {α β : Type} (p : α → Bool) (f : α → List β) (xs : List α) :
    (xs.filter p).flatMap f = xs.flatMap fun x => if p x then f x else [] := by
  induction xs with
  | nil => rfl
  | cons x xs ih => by_cases hx : p x = true <;> simp [hx, ih]

theorem Aggregate.saturated_eq [Converter] (a : Aggregate) (rows : Array Record) (group : List Nat)
    (k : FieldKey) :
    a.saturated (Grouping.valuesOf rows group k) =
      if a = .sum ∨ a = .average then Grouping.beyond rows group k.field else [] := by
  have hbeyond : ((Grouping.valuesOf rows group k).filterMap fun x => x.bind Value.number?).filter
      Decimal.isBeyond = Grouping.beyond rows group k.field := by
    rw [Grouping.valuesOf, Grouping.beyond, List.filterMap_map, List.filter_filterMap]
    refine List.filterMap_congr fun place _ => ?_
    cases hrow : rows[place]? with
    | none => simp [valueAt, hrow]
    | some row =>
      simp only [Function.comp_apply, valueAt, hrow, Option.bind_some, Record.number?]
      rfl
  rw [saturated, hbeyond]
  exact if_congr Iff.rfl rfl rfl

theorem Registry.saturated_eq_beyond [Collator] [Converter] (r : Registry) (limit : Nat)
    (raw : Json) : (r.query limit raw).saturated = r.beyond raw := by
  unfold query beyond
  cases Plan.ofJson r.kindOf raw with
  | error => rfl
  | ok p =>
    dsimp only
    unfold execute
    cases r.find p with
    | error => rfl
    | ok d =>
      cases hgrouping : p.grouping with
      | none => simp [Plan.outcome, Plan.saturated, hgrouping]
      | some g =>
        simp only [Plan.outcome, Plan.saturated, hgrouping, Grouping.saturated]
        refine List.flatMap_congr fun group _ => ?_
        rw [flatMap_filter]
        refine List.flatMap_congr fun rule _ => ?_
        simp only [Aggregate.saturated_eq, decide_eq_true_eq]

namespace Engine

theorem records_query [Collator] [Converter] (e : Engine) (raw : Json) (machine : Machine) :
    Records machine (machine.on (e.query raw)).2
      (⟨.trace, "QUERY_BEGIN", []⟩ :: (e.registry.beyond raw).map .saturated ++
        [.queried (machine.on (e.query raw)).1]) := by
  rw [← Registry.saturated_eq_beyond e.registry e.limit raw, query]
  generalize e.registry.query e.limit raw = outcome
  have hbegin := Records.record .queryBegin [] machine
  have hsaturated := hbegin.append (records_recordSaturated outcome.saturated _)
  obtain ⟨saturated, fault | a⟩ := outcome
  · exact hsaturated.append (.add (.queried (.error fault)) _)
  · exact hsaturated.append (.add (.queried (.ok a)) _)

/-! ## Opening -/

theorem size_of_registerAll {ds : List Dataset} {r : Registry}
    (h : registerAll .empty ds = .ok r) : r.size = ds.length := by
  obtain ⟨-, hperm, -⟩ := registerAll_eq_ok_perm Registry.sorted_empty h
  exact hperm.length_eq

theorem records_openArchive (root : String) (limit : Nat) (machine : Machine) :
    Records machine (machine.on (openArchive root limit)).2
      (Archive.entries root machine (machine.on (openArchive root limit)).1) := by
  have hmake := Quiet.makeDirectories root machine
  rw [openArchive, Machine.on_bind, Archive.open_, Machine.on_bind]
  unfold Archive.entries Archive.failsToLoad
  generalize machine.on (Disk.makeDirectories root) = outcome at hmake ⊢
  obtain ⟨fault | ⟨⟩, made⟩ := outcome
  · exact hmake
  · simp only [Machine.on_pure]
    rw [Machine.on_bind, Machine.on_now]
    obtain ⟨loaded, hload⟩ : ∃ loaded,
        made.on ((⟨root⟩ : Archive).load made.now) = (loaded, made) := ⟨_, Archive.on_load _ _ _⟩
    dsimp only
    rw [Machine.on_bind, hload]
    cases loaded with
    | error fault => exact hmake.append (.record _ _ made)
    | ok ds =>
      dsimp only
      cases hregister : registerAll .empty ds with
      | error fault => exact hmake
      | ok r =>
        have hrecord := hmake.append (.record .datasetsLoaded
          [("count", toString ds.length), ("data_dir", root)] made)
        rw [← size_of_registerAll hregister] at hrecord ⊢
        exact hrecord

/-- Whether the datasets can be read does not depend on the journal. -/
theorem failsToLoad_congr {root : String} {machine machine' : Machine}
    (h : Machine.SameWorld machine machine') :
    Archive.failsToLoad root machine = Archive.failsToLoad root machine' := by
  obtain ⟨hresult, hworld⟩ := Machine.Blind.makeLineage (Path.lineage root) machine machine' h
  unfold Archive.failsToLoad Disk.makeDirectories
  generalize machine.on (Disk.makeLineage (Path.lineage root)) = outcome at hresult hworld ⊢
  generalize machine'.on (Disk.makeLineage (Path.lineage root)) = outcome' at hresult hworld ⊢
  obtain ⟨result, made⟩ := outcome
  obtain ⟨result', made'⟩ := outcome'
  obtain rfl : result = result' := hresult
  cases result with
  | error => rfl
  | ok =>
    dsimp only at hworld ⊢
    rw [Archive.on_load, Archive.on_load, hworld.files, hworld.now]

theorem records_open (root : Option String) (limit : Nat) (machine : Machine) :
    Records machine (machine.on (open_ root limit)).2
      (openEntries root machine (machine.on (open_ root limit)).1) := by
  have hbegin := Records.record .startupBegin [] machine
  have hworld := Machine.sameWorld_record .startupBegin [] machine
  have hcomplete := Records.record .startupComplete []
  rw [open_, Machine.on_bind]
  cases root with
  | none => exact hbegin.append (hcomplete _)
  | some root =>
    have hopened := records_openArchive root limit (machine.on (Journal.record .startupBegin [])).2
    rw [Machine.on_bind]
    generalize (machine.on (Journal.record .startupBegin [])).2 = begun at hbegin hworld hopened ⊢
    dsimp only
    generalize begun.on (openArchive root limit) = outcome at hopened ⊢
    have hentries (result : Except RegistryError Engine) :
        Archive.entries root begun result = Archive.entries root machine result := by
      unfold Archive.entries
      rw [failsToLoad_congr hworld]
    rw [hentries] at hopened
    obtain ⟨fault | e, opened⟩ := outcome
    · have heq : openEntries (some root) machine (.error fault) =
          [⟨.info, "INSIGHTDB_STARTUP_BEGIN", []⟩] ++ Archive.entries root machine (.error fault) := by
        simp [openEntries, Except.isOk, Except.toBool]
      show Records machine opened (openEntries (some root) machine (.error fault))
      rw [heq]
      exact hbegin.append hopened
    · have heq : openEntries (some root) machine (.ok e) =
          [⟨.info, "INSIGHTDB_STARTUP_BEGIN", []⟩] ++ Archive.entries root machine (.ok e) ++
            [⟨.info, "INSIGHTDB_STARTUP_COMPLETE", []⟩] := by
        simp [openEntries, Except.isOk, Except.toBool]
      show Records machine (opened.on (Journal.record .startupComplete [])).2
        (openEntries (some root) machine (.ok e))
      rw [heq]
      exact (hbegin.append hopened).append (hcomplete opened)

/-! ## Why an opening fails -/

/-- On a disk an archive cannot be opened only if its directory cannot be made or its datasets
cannot be read. -/
theorem failsToLoad_of_open {root : String} {limit : Nat} {machine : Machine}
    (hdistinct : machine.files.IsDistinct) {fault : RegistryError}
    (h : (machine.on (open_ (some root) limit)).1 = .error fault) :
    Archive.failsToLoad root machine = true ∨
      ∃ cause, fault = .disk root cause ∧
        (machine.on (Disk.makeDirectories root)).1 = .error cause := by
  obtain ⟨begun, machine₁, hworld, hon, -⟩ := on_open root limit machine
  obtain ⟨machine₂, hopen, -⟩ := on_openArchive root limit begun
  have hresult : (machine.on (Disk.makeDirectories root)).1 =
      (begun.on (Disk.makeDirectories root)).1 :=
    (Machine.Blind.makeLineage (Path.lineage root) machine begun hworld).1
  have hbegun : begun.files.IsDistinct := hworld.files ▸ hdistinct
  rw [hon, hopen] at h
  rw [failsToLoad_congr hworld, hresult]
  unfold Archive.failsToLoad
  generalize hmake : begun.on (Disk.makeDirectories root) = outcome at h ⊢
  obtain ⟨cause | ⟨⟩, made⟩ := outcome
  · exact .inr ⟨cause, (Except.error.inj h).symm, rfl⟩
  · have hkept := Disk.isDistinct_makeDirectories hbegun hmake
    left
    dsimp only at h ⊢
    rw [Archive.on_load] at h ⊢
    dsimp only at h ⊢
    cases hlist : made.files.list root with
    | error => rfl
    | ok names =>
      rw [hlist] at h
      dsimp only at h ⊢
      cases hds : (Archive.datasetNames names).mapM
          ((⟨root⟩ : Archive).datasetIn made.now made.files) with
      | error => rfl
      | ok ds =>
        obtain ⟨directory, -, -, rfl⟩ := FileTree.list_eq_ok_iff.mp hlist
        obtain ⟨r, hr⟩ := exists_registerAll_of_mapM
          (fun name hname => (Archive.mem_datasetNames.mp hname).2)
          (nodup_datasetNames hkept directory) hds
        rw [hds] at h
        dsimp only at h
        rw [hr] at h
        cases h

/-! ## Requests -/

theorem records_serve [Collator] [Converter] (e : Engine) (r : Request) (machine : Machine) :
    Records machine (machine.on (e.serve r)).2
      (r.entries e.registry (machine.on (e.serve r)).1.1) := by
  cases r with
  | add id kind rows =>
    have hadd := records_add e id kind rows machine
    rw [serve, Machine.on_bind]
    generalize machine.on (e.add id kind rows) = outcome at hadd ⊢
    obtain ⟨fault | e', after⟩ := outcome <;> exact hadd
  | remove id =>
    have hremove := records_remove e id machine
    rw [serve, Machine.on_bind]
    generalize machine.on (e.remove id) = outcome at hremove ⊢
    obtain ⟨fault | e', after⟩ := outcome <;> exact hremove
  | list => exact .refl machine
  | query raw => exact records_query e raw machine

end Engine

/-! ## Runs -/

/-- What can be done with an engine: opening another one in its place, or a request. -/
inductive Operation where
  | open_ (root : Option String) (limit : Nat)
  | request (r : Request)

/-- What an operation gives. -/
inductive Result where
  | opened (result : Except RegistryError Engine)
  | replied (reply : Reply)

namespace Engine

/-- Performs an operation, and gives the engine after it. -/
def perform [Collator] [Converter] (e : Engine) : Operation → StateM Machine (Result × Engine)
  | .open_ root limit => do
    match ← open_ root limit with
    | .ok e' => return (.opened (.ok e'), e')
    | .error fault => return (.opened (.error fault), e)
  | .request r => do
    let (reply, e') ← e.serve r
    return (.replied reply, e')

end Engine

/-- The entries of an operation on an engine and a machine, and of its result. -/
def Operation.entries [Converter] (e : Engine) (machine : Machine) :
    Operation → Result → List Entry
  | .open_ root _, .opened result => Engine.openEntries root machine result
  | .request r, .replied reply => r.entries e.registry reply
  | _, _ => []

namespace Engine

theorem records_perform [Collator] [Converter] (e : Engine) (op : Operation) (machine : Machine) :
    Records machine (machine.on (e.perform op)).2
      (op.entries e machine (machine.on (e.perform op)).1.1) := by
  cases op with
  | open_ root limit =>
    have hopen := records_open root limit machine
    rw [perform, Machine.on_bind]
    generalize machine.on (open_ root limit) = outcome at hopen ⊢
    obtain ⟨fault | e', after⟩ := outcome <;> exact hopen
  | request r =>
    have hserve := records_serve e r machine
    rw [perform, Machine.on_bind]
    generalize machine.on (e.serve r) = outcome at hserve ⊢
    obtain ⟨⟨reply, e'⟩, after⟩ := outcome
    exact hserve

/-- The machine after operations one after the other, each at an instant of its own, and for each
operation the entries of it and its result. -/
def performAll [Collator] [Converter] :
    List (Instant × Operation) → Engine → Machine → Machine × List (List Entry)
  | [], _, machine => (machine, [])
  | (now, op) :: rest, e, machine =>
    let machine := { machine with now := now }
    let ((result, e'), machine') := machine.on (e.perform op)
    let (last, entries) := performAll rest e' machine'
    (last, op.entries e machine result :: entries)

theorem records_performAll [Collator] [Converter] (ops : List (Instant × Operation)) (e : Engine)
    (machine : Machine) :
    Records machine (performAll ops e machine).1 (performAll ops e machine).2.flatten := by
  induction ops generalizing e machine with
  | nil => exact .refl machine
  | cons step ops ih =>
    obtain ⟨now, op⟩ := step
    have hperform := records_perform e op { machine with now := now }
    rw [performAll]
    dsimp only
    generalize Machine.on { machine with now := now } (e.perform op) = outcome at hperform ⊢
    obtain ⟨⟨result, e'⟩, machine'⟩ := outcome
    exact Records.append ⟨hperform.lines, hperform.minimum⟩ (ih e' machine')

/-- Each operation records what its result says, in a single one and in any run. An opening that
fails has its entry wherever the datasets could not be read; on a disk it has none only if the
directory could not be made. -/
theorem perform_records [Collator] [Converter] (e : Engine) (machine : Machine) :
    (∀ op, Records machine (machine.on (e.perform op)).2
      (op.entries e machine (machine.on (e.perform op)).1.1)) ∧
    (∀ ops, Records machine (performAll ops e machine).1 (performAll ops e machine).2.flatten) ∧
    ∀ root limit fault, machine.files.IsDistinct →
      (machine.on (open_ (some root) limit)).1 = .error fault →
      Archive.failsToLoad root machine = true ∨
        ∃ cause, fault = .disk root cause ∧
          (machine.on (Disk.makeDirectories root)).1 = .error cause :=
  ⟨fun op => records_perform e op machine, fun ops => records_performAll ops e machine,
    fun _ _ _ hdistinct h => failsToLoad_of_open hdistinct h⟩

/-- A run in which a dataset is added and then asked for in vain, and an opening that fails because
there is a file in the place of the directory. -/
theorem perform_records_halls :
    let ops : List (Instant × Operation) := [(default, .open_ (some "data") 5),
      (default, .request (.add "halls" .rooms [Session.hall])), (default, .request (.query .null))]
    let begun : Entry := ⟨.info, "INSIGHTDB_STARTUP_BEGIN", []⟩
    let blocked : Machine := { files := { here := ["home"], nodes := [(["home", "data"], .file [])] } }
    (performAll ops .empty {}).1.lines = ([begun,
      ⟨.info, "DATASETS_LOADED", [("count", "0"), ("data_dir", "data")]⟩,
      ⟨.info, "INSIGHTDB_STARTUP_COMPLETE", []⟩,
      ⟨.info, "DATASET_ADDED", [("dataset", "halls"), ("kind", "rooms")]⟩,
      ⟨.warn, "QUERY_REJECTED", [("code", "INSIGHT_MALFORMED_QUERY"),
        ("reason", "Query must be an object, found null"), ("elapsed_ms", "0")]⟩].map
          Entry.line).reverse ∧
    ∃ cause, (blocked.on (open_ (some "data") 5)).1 = .error (.disk "data" cause) ∧
      (blocked.on (open_ (some "data") 5)).2.lines = [begun.line] := by
  intro ops begun blocked
  have hentries : ((performAll ops .empty {}).2.flatten.filter fun e =>
      Severity.rank .info ≤ e.severity.rank) = [begun,
      ⟨.info, "DATASETS_LOADED", [("count", "0"), ("data_dir", "data")]⟩,
      ⟨.info, "INSIGHTDB_STARTUP_COMPLETE", []⟩,
      ⟨.info, "DATASET_ADDED", [("dataset", "halls"), ("kind", "rooms")]⟩,
      ⟨.warn, "QUERY_REJECTED", [("code", "INSIGHT_MALFORMED_QUERY"),
        ("reason", "Query must be an object, found null"), ("elapsed_ms", "0")]⟩] := by
    decide +kernel
  have hrun := ((perform_records .empty {}).2.1 ops).lines
  refine ⟨?_, ?_⟩
  · rw [hrun, ← hentries]
    exact List.append_nil _
  · have hopening : ((openEntries (some "data") blocked (blocked.on (open_ (some "data") 5)).1).filter
        fun e => Severity.rank .info ≤ e.severity.rank) = [begun] := by decide +kernel
    have hlines : (blocked.on (open_ (some "data") 5)).2.lines = [begun.line] := by
      rw [(records_open (some "data") 5 blocked).lines]
      show (((openEntries (some "data") blocked (blocked.on (open_ (some "data") 5)).1).filter
        fun e => Severity.rank .info ≤ e.severity.rank).map Entry.line).reverse ++ [] = [begun.line]
      rw [hopening]
      rfl
    have hfails : Archive.failsToLoad "data" blocked = false := by decide +kernel
    have hdistinct : blocked.files.IsDistinct := ⟨by decide, by decide⟩
    have hopened : (blocked.on (open_ (some "data") 5)).1.isOk = false := by decide +kernel
    cases hopen : (blocked.on (open_ (some "data") 5)).1 with
    | ok e =>
      rw [hopen] at hopened
      cases hopened
    | error fault =>
      rcases (perform_records .empty blocked).2.2 "data" 5 fault hdistinct hopen with h | h
      · exact absurd (hfails.symm.trans h) (by decide)
      · obtain ⟨cause, rfl, -⟩ := h
        exact ⟨cause, rfl, hlines⟩

end Engine

end CampusQuery
