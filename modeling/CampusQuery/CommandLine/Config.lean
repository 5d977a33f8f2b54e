import CampusQuery.Answer.Answer
import CampusQuery.CommandLine.Error
import CampusQuery.Disk.Disk
import CampusQuery.Journal.Severity
import CampusQuery.Json.Form

/-!
# Configuration

A configuration names the directory of the archive, the limit on the length of answers and the
least severity that is kept in the journal. It may be read from a file, an object in which each
field may be left out.
-/

namespace CampusQuery

/-- How a command runs (`Config`). -/
structure Config where
  dataDirectory : String := "./insightdb-data"
  limit : Nat := defaultLimit
  logLevel : String := "INFO"
  deriving DecidableEq, Repr

namespace Config

/-- The configuration where nothing else is said. -/
def standard : Config := {}

/-- What has been read of a configuration. -/
structure Draft where
  dataDirectory : Option String := none
  limit : Option Nat := none
  logLevel : Option String := none

/-- The form of a configuration. -/
def form : Form Draft where
  name := "Config"
  exact := true
  fields := [
    ⟨"data_dir", true, fun d => d.dataDirectory.isSome, fun _ d rest => do
      let (s, rest) ← Json.readText rest
      return ({ d with dataDirectory := some s }, rest)⟩,
    ⟨"max_result_rows", true, fun d => d.limit.isSome, fun _ d rest => do
      let (n, rest) ← Json.readSize rest
      return ({ d with limit := some n }, rest)⟩,
    ⟨"log_level", true, fun d => d.logLevel.isSome, fun _ d rest => do
      let (s, rest) ← Json.readText rest
      return ({ d with logLevel := some s }, rest)⟩]

/-- The configuration with what has been read. -/
def ofDraft (d : Draft) : Config :=
  ⟨d.dataDirectory.getD standard.dataDirectory, d.limit.getD standard.limit,
    d.logLevel.getD standard.logLevel⟩

/-- The least severity that is kept (`Config.severity`). -/
def severity (c : Config) : Except ConfigFault Severity :=
  match Severity.ofText? c.logLevel with
  | some severity => .ok severity
  | none => .error (.unknownLevel c.logLevel)

/-- Checks that a command can run so (`Config.validate`). -/
def check (c : Config) : Except ConfigFault Unit := do
  if isBlankText c.dataDirectory then throw .blankDirectory
  if c.limit = 0 then throw .zeroLimit
  let _ ← c.severity

/-- Reads a configuration from text (`Config.load`). -/
def ofText (s : String) : Except ConfigFault Config := do
  match form.read {} s.toUTF8.toList with
  | .error e => throw (.malformed e)
  | .ok draft =>
    check (ofDraft draft)
    return ofDraft draft

variable {m : Type → Type} [Monad m] [Disk m]

/-- The configuration in a file, or the standard one if none is named (`Config.load_or_default`). -/
def load (path : Option String) : m (Except ConfigFault Config) := do
  match path with
  | none => return .ok standard
  | some path =>
    match ← Disk.readText path with
    | .error fault => return .error (.unreadable fault)
    | .ok s => return ofText s

end Config

end CampusQuery
