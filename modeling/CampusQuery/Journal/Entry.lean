import CampusQuery.Journal.Severity
import CampusQuery.Text.Blank
import CampusQuery.Text.Quoted

/-!
# Entries of the journal

Every entry of the journal names an event and how grave it is, and may have further fields.
`Entry.line` writes it as one line of JSON: the event, the severity, and then the fields in the
order of their keys. All control characters are escaped, so that no field can break the line.
-/

namespace CampusQuery

/-- What is recorded. -/
inductive Event where
  | startupBegin
  | startupComplete
  | configLoaded
  | datasetsLoaded
  | datasetLoadFailed
  | datasetAdded
  | datasetRejected
  | datasetRemoved
  | queryBegin
  | queryComplete
  | queryRejected
  | aggregateSaturated
  deriving DecidableEq, Repr

namespace Event

/-- The name of an event (`Event.as_str`). -/
def label : Event → String
  | .startupBegin => "INSIGHTDB_STARTUP_BEGIN"
  | .startupComplete => "INSIGHTDB_STARTUP_COMPLETE"
  | .configLoaded => "CONFIG_LOADED"
  | .datasetsLoaded => "DATASETS_LOADED"
  | .datasetLoadFailed => "DATASET_LOAD_FAILED"
  | .datasetAdded => "DATASET_ADDED"
  | .datasetRejected => "DATASET_REJECTED"
  | .datasetRemoved => "DATASET_REMOVED"
  | .queryBegin => "QUERY_BEGIN"
  | .queryComplete => "QUERY_COMPLETE"
  | .queryRejected => "QUERY_REJECTED"
  | .aggregateSaturated => "AGGREGATE_SATURATED"

/-- How grave an event is (`Event.severity`). -/
def severity : Event → Severity
  | .datasetLoadFailed => .fatal
  | .datasetRejected | .queryRejected | .aggregateSaturated => .warn
  | .queryBegin => .trace
  | _ => .info

end Event

/-- What is said of an event beyond its name: keys and values. -/
abbrev Fields := List (String × String)

/-- An entry of the journal. -/
structure Entry where
  severity : Severity
  event : String
  fields : Fields
  deriving DecidableEq, Repr

namespace Entry

/-- The entry of an event. -/
def ofEvent (event : Event) (fields : Fields) : Entry :=
  ⟨event.severity, event.label, fields⟩

/-- A character within the quotes of a line (`escape_into`). -/
def escapedChar (c : Char) : String :=
  match c with
  | '"' => "\\\""
  | '\\' => "\\\\"
  | '\n' => "\\n"
  | '\r' => "\\r"
  | '\t' => "\\t"
  | c => if isControl c then "\\u" ++ Quoted.hex c.toNat 4 else c.toString

/-- A text between double quotes, without any control character. -/
def quoted (s : String) : String :=
  s.foldl (fun out c => out ++ escapedChar c) "\"" ++ "\""

/-- The fields in the order of their keys; those of one key stay as they were. -/
def sortedFields (e : Entry) : Fields :=
  e.fields.mergeSort fun a b => decide (a.1 ≤ b.1)

/-- An entry as a line, without the end of the line (`Logger.format_line`). -/
def line (e : Entry) : String :=
  let parts := ("event", e.event) :: ("severity", e.severity.label) :: e.sortedFields
  let texts := parts.map fun (key, value) => quoted key ++ ":" ++ quoted value
  "\x7b" ++ ",".intercalate texts ++ "\x7d"

end Entry

end CampusQuery
