import CampusQuery.Answer.Answer
import CampusQuery.Journal.Journal
import CampusQuery.Registry.Archive

/-!
# The engine

An `Engine` is a registry, the archive that holds the same datasets if there is one, and the limit
on the length of answers. A change is made in the archive first and then in the registry, and every
operation is recorded in the journal.
-/

namespace CampusQuery

/-- A registry with its archive and the limit on the length of answers (`InsightEngine`). -/
structure Engine where
  registry : Registry
  archive : Option Archive
  limit : Nat

namespace Engine

/-- The engine without datasets or archive (`InsightEngine.in_memory`). -/
def empty : Engine := ⟨.empty, none, defaultLimit⟩

/-- An answer's rows as a document. -/
def rowsJson (a : Answer) : Json :=
  .array (a.rows.map Json.object)

variable {m : Type → Type} [Monad m] [Disk m] [Journal m] [Clock m]

/-- Registers datasets one after the other. -/
def registerAll (r : Registry) (ds : List Dataset) : Except RegistryError Registry :=
  ds.foldlM Registry.add r

/-- Opens an engine on the archive in a directory. -/
def openArchive (root : String) (limit : Nat) : m (Except RegistryError Engine) := do
  match ← Archive.open_ root with
  | .error e => return .error e
  | .ok archive =>
    match ← archive.load (← Clock.now) with
    | .error e =>
      Journal.record .datasetLoadFailed [("code", e.code), ("reason", e.message)]
      return .error e
    | .ok datasets =>
      match registerAll .empty datasets with
      | .error e => return .error e
      | .ok registry =>
        Journal.record .datasetsLoaded
          [("count", toString datasets.length), ("data_dir", archive.root)]
        return .ok ⟨registry, some archive, limit⟩

/-- Opens an engine, on the archive in a directory if one is given (`InsightEngine.with_config`). -/
def open_ (root : Option String) (limit : Nat) : m (Except RegistryError Engine) := do
  Journal.record .startupBegin []
  let opened ←
    match root with
    | some root => openArchive root limit
    | none => pure (.ok ⟨.empty, none, limit⟩)
  if opened matches .ok _ then Journal.record .startupComplete []
  return opened

/-! ## Changes -/

/-- Writes a dataset to the archive, if there is one. -/
def saveTo (archive : Option Archive) (d : Dataset) : m (Except RegistryError Unit) :=
  match archive with
  | some a => a.save d
  | none => return .ok ()

/-- Removes a dataset from the archive, if there is one. -/
def deleteFrom (archive : Option Archive) (id : String) : m (Except RegistryError Unit) :=
  match archive with
  | some a => a.delete id
  | none => return .ok ()

/-- The dataset to be registered under an id that is valid and free. -/
def prepare (e : Engine) (id : String) (kind : Kind) (rows : List Json) (now : Instant) :
    Except RegistryError Dataset := do
  Dataset.checkId id
  if e.registry.contains id then throw (.alreadyExists id)
  Dataset.ofRows id kind rows now

/-- Adds a dataset without recording it (`InsightEngine.add_locked`). -/
def addQuietly (e : Engine) (id : String) (kind : Kind) (rows : List Json) :
    m (Except RegistryError Engine) := do
  match e.prepare id kind rows (← Clock.now) with
  | .error fault => return .error fault
  | .ok d =>
    match ← saveTo e.archive d with
    | .error fault => return .error fault
    | .ok () => return (e.registry.add d).map fun r => { e with registry := r }

/-- Adds a dataset (`InsightEngine.add_dataset`). -/
def add (e : Engine) (id : String) (kind : Kind) (rows : List Json) :
    m (Except RegistryError Engine) := do
  let result ← e.addQuietly id kind rows
  match result with
  | .ok _ => Journal.record .datasetAdded [("dataset", id), ("kind", kind.label)]
  | .error fault =>
    Journal.record .datasetRejected
      [("code", fault.code), ("dataset", id), ("reason", fault.message)]
  return result

/-- Checks that there is a dataset of an id. -/
def checkPresent (e : Engine) (id : String) : Except RegistryError Unit := do
  Dataset.checkId id
  if !e.registry.contains id then throw (.notFound id)

/-- Removes a dataset without recording it (`InsightEngine.remove_locked`). -/
def removeQuietly (e : Engine) (id : String) : m (Except RegistryError Engine) := do
  match e.checkPresent id with
  | .error fault => return .error fault
  | .ok () =>
    match ← deleteFrom e.archive id with
    | .error fault => return .error fault
    | .ok () => return (e.registry.remove id).map fun (_, r) => { e with registry := r }

/-- Removes a dataset (`InsightEngine.remove_dataset`). -/
def remove (e : Engine) (id : String) : m (Except RegistryError Engine) := do
  let result ← e.removeQuietly id
  match result with
  | .ok _ => Journal.record .datasetRemoved [("dataset", id)]
  | .error fault =>
    Journal.record .datasetRejected
      [("code", fault.code), ("dataset", id), ("reason", fault.message)]
  return result

/-! ## Queries -/

/-- Records the numbers that were too large for a sum or a mean. -/
def recordSaturated (xs : List Binary64) : m Unit :=
  xs.forM fun x => Journal.record .aggregateSaturated [("value", NumberStyle.plain.render x)]

/-- Answers a query (`InsightEngine.execute`). -/
def query [Collator] [Converter] (e : Engine) (raw : Json) : m (Except QueryError Answer) := do
  let scope ← Scope.start .queryBegin []
  let outcome := e.registry.query e.limit raw
  recordSaturated outcome.saturated
  match outcome.result with
  | .ok a =>
    scope.complete .queryComplete [("matched", toString a.matched),
      ("rows", toString a.rows.length), ("scanned", toString a.scanned)]
  | .error fault => scope.fail .queryRejected fault.code fault.message
  return outcome.result

end Engine

end CampusQuery
