import CampusQuery.CommandLine.Arguments
import CampusQuery.CommandLine.Config
import CampusQuery.Engine
import CampusQuery.Machine
import CampusQuery.Number.Exact
import CampusQuery.Text.Collation

/-!
# Running a command

A command reads its configuration, opens the engine on the archive, does one thing and prints one
document: the result, or the code and wording of what went wrong.
-/

namespace CampusQuery

/-- What a program leaves behind: its exit status and what it printed. -/
structure Exit where
  status : Nat
  output : String
  deriving DecidableEq, Repr

namespace Command

/-- The name and version of the program. -/
def versionText : String := "insightdb 0.1.0\n"

/-- How the program is called. -/
def usage : String :=
  "Usage: insightdb [--config <CONFIG>] <COMMAND>\n\n" ++
  "Commands:\n" ++
  "  add     --id <ID> --kind <courses|rooms> --rows <FILE>\n" ++
  "  remove  --id <ID>\n" ++
  "  list\n" ++
  "  query   [--file <FILE>]\n"

/-- A document with the result of a command (`success`). -/
def success (data : Json) : Json :=
  .object [("status", .string "ok"), ("data", data)]

/-- A document with the error of a command (`failure`). -/
def failure (e : CommandError) : Json :=
  .object [("status", .string "error"), ("code", .string e.code), ("message", .string e.message)]

/-- Reads a document, of which `source` is the name (`parse_document`). -/
def parseDocument (source s : String) : Except CommandError Json :=
  if isBlankText s then .error (.input (.empty source))
  else
    match Json.ofText s with
    | .ok v => .ok v
    | .error e => .error (.input (.malformed e))

variable {m : Type → Type} [Monad m] [Disk m] [Journal m] [Clock m] [Console m]

/-- The document in a file (`read_json_file`). -/
def readFile (path : String) : m (Except CommandError Json) := do
  match ← Disk.readText path with
  | .error fault => return .error (.input (.unreadable path fault))
  | .ok s => return parseDocument path s

/-- The document on standard input (`read_request`). -/
def readInput : m (Except CommandError Json) := do
  match Disk.textOf (← Console.input) with
  | .error fault => return .error (.input (.stream fault))
  | .ok s => return parseDocument "stdin" s

/-- Does what a command asks of an engine (`run_command`). -/
def apply [Collator] [Converter] (e : Engine) : Command → m (Except CommandError Json)
  | .add id kind path => do
    match ← readFile path with
    | .error fault => return .error fault
    | .ok (.array rows) =>
      match ← e.add id kind rows with
      | .ok e => return .ok (.array (e.registry.ids.map Json.string))
      | .error fault => return .error (.registry fault)
    | .ok _ => return .error (.input (.notRows path))
  | .remove id => do
    match ← e.remove id with
    | .ok _ => return .ok (.string id)
    | .error fault => return .error (.registry fault)
  | .list => return .ok (.array (e.registry.list.map DatasetInfo.toJson))
  | .query file => do
    let request ←
      match file with
      | some path => readFile path
      | none => readInput
    match request with
    | .error fault => return .error fault
    | .ok raw =>
      match ← e.query raw with
      | .ok a => return .ok (Engine.rowsJson a)
      | .error fault => return .error (.query fault)

/-- Does what a command asks, with the configuration in a file or the standard one (`run_cli`). -/
def perform [Collator] [Converter] (config : Option String) (c : Command) :
    m (Except CommandError Json) := do
  match ← Config.load config with
  | .error fault => return .error (.config fault)
  | .ok config =>
    match config.severity with
    | .error fault => return .error (.config fault)
    | .ok severity =>
      Journal.setMinimum severity
      Journal.record .configLoaded [("data_dir", config.dataDirectory),
        ("max_result_rows", toString config.limit)]
      match ← Engine.open_ (some config.dataDirectory) config.limit with
      | .error fault => return .error (.registry fault)
      | .ok e => apply e c

/-- Runs the program with some arguments (`run`). -/
def run [Collator] [Converter] (arguments : List String) : m Exit := do
  match Invocation.ofArguments arguments with
  | .rejected => return ⟨2, ""⟩
  | .help => return ⟨0, usage⟩
  | .version => return ⟨0, versionText⟩
  | .run config c =>
    match ← perform config c with
    | .ok data => return ⟨0, (success data).compact ++ "\n"⟩
    | .error e => return ⟨1, (failure e).compact ++ "\n"⟩

end Command

end CampusQuery
