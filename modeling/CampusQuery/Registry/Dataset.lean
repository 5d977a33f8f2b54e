import CampusQuery.Catalog.Record
import CampusQuery.Disk.Fault
import CampusQuery.Json.Reader
import CampusQuery.Time.Instant

/-!
# Datasets

A dataset has an id, a kind, rows of that kind and the time at which it was registered. An id has a
character that is not a blank, and no underscore, so that keys can be told apart.

`RegistryError` lists why a dataset cannot be registered, removed or loaded.
-/

namespace CampusQuery

/-- A registered dataset. -/
structure Dataset where
  id : String
  kind : Kind
  rows : Array Record
  loadedAt : Instant
  deriving Repr

/-- What a list of datasets shows of one. -/
structure DatasetInfo where
  id : String
  kind : Kind
  rows : Nat
  loadedAt : Instant
  deriving DecidableEq, Repr

/-- Why the file of a dataset cannot be used. -/
inductive Corruption where
  | unreadable (e : ReadError)
  | otherId (id : String)

/-- Why a dataset cannot be registered, removed or loaded (`StoreError`). -/
inductive RegistryError where
  | invalidId (id : String)
  | alreadyExists (id : String)
  | notFound (id : String)
  | noRows (id : String)
  | invalidRow (id : String) (index : Nat) (reason : Mismatch)
  | disk (path : String) (fault : DiskFault)
  | corrupt (path : String) (reason : Corruption)

/-- The wording of why a file cannot be used. -/
def Corruption.message : Corruption → String
  | .unreadable e => e.message
  | .otherId id => s!"file holds dataset '{id}'"

namespace RegistryError

/-- The code of an error (`StoreError.code`). -/
def code : RegistryError → String
  | .invalidId _ => "INSIGHT_INVALID_ID"
  | .alreadyExists _ => "INSIGHT_DATASET_EXISTS"
  | .notFound _ => "INSIGHT_DATASET_NOT_FOUND"
  | .noRows _ => "INSIGHT_DATASET_EMPTY"
  | .invalidRow _ _ _ => "INSIGHT_INVALID_ROW"
  | .disk _ _ => "INSIGHT_IO_ERROR"
  | .corrupt _ _ => "INSIGHT_CORRUPT_DATASET"

/-- The wording of an error. -/
def message : RegistryError → String
  | .invalidId id => s!"Invalid dataset id: '{id}'"
  | .alreadyExists id => s!"Dataset already exists: {id}"
  | .notFound id => s!"Dataset not found: {id}"
  | .noRows id => s!"Dataset {id} has no rows"
  | .invalidRow id index reason => s!"Dataset {id}: row {index} is invalid: {reason.message}"
  | .disk path fault => s!"I/O error on {path}: {fault.message}"
  | .corrupt path reason => s!"Corrupt dataset file {path}: {reason.message}"

end RegistryError

namespace Dataset

/-- Whether a text can be the id of a dataset. -/
def isValidId (id : String) : Bool :=
  !isBlankText id && !id.toList.contains separator

/-- Checks that a text can be the id of a dataset (`validate_id`). -/
def checkId (id : String) : Except RegistryError Unit :=
  if isValidId id then .ok () else .error (.invalidId id)

/-- Rows of a kind, of which the first stands at `index`. -/
def readRows (id : String) (kind : Kind) (index : Nat) :
    List Json → Except RegistryError (List Record)
  | [] => .ok []
  | v :: vs =>
    match Record.ofJson kind v with
    | .error reason => .error (.invalidRow id index reason)
    | .ok r => do return r :: (← readRows id kind (index + 1) vs)

/-- A dataset of rows that are to be of its kind, registered now (`Dataset.from_json_rows`). -/
def ofRows (id : String) (kind : Kind) (rows : List Json) (now : Instant) :
    Except RegistryError Dataset := do
  checkId id
  if rows.isEmpty then throw (.noRows id)
  return ⟨id, kind, (← readRows id kind 0 rows).toArray, now⟩

/-- What a list of datasets shows of a dataset (`Dataset.info`). -/
def info (d : Dataset) : DatasetInfo :=
  ⟨d.id, d.kind, d.rows.size, d.loadedAt⟩

end Dataset

/-- A dataset in a list, as documents hold it. -/
def DatasetInfo.toJson (d : DatasetInfo) : Json :=
  .object [("id", .string d.id), ("kind", .string d.kind.label), ("numRows", Json.ofNat d.rows),
    ("loadedAt", .string d.loadedAt.text)]

end CampusQuery
