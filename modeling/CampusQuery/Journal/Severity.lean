/-!
# Severities

How grave an event is, from `Severity.trace` to `Severity.fatal`.
-/

namespace CampusQuery

/-- How grave an event is. -/
inductive Severity where
  | trace
  | info
  | warn
  | error
  | fatal
  deriving DecidableEq, Repr, Inhabited

namespace Severity

/-- The severities from the least to the greatest. -/
def all : List Severity := [.trace, .info, .warn, .error, .fatal]

/-- The place of a severity among them. -/
def rank : Severity → Nat
  | .trace => 0
  | .info => 1
  | .warn => 2
  | .error => 3
  | .fatal => 4

/-- The name of a severity (`Severity.as_str`). -/
def label : Severity → String
  | .trace => "TRACE"
  | .info => "INFO"
  | .warn => "WARN"
  | .error => "ERROR"
  | .fatal => "FATAL"

/-- The severity of a given name, in letters of either case (`Severity.parse`). -/
def ofText? (name : String) : Option Severity :=
  all.find? fun severity => severity.label == name.map Char.toUpper

/-- Whether a severity is no less than another (`Severity.passes`). -/
def passes (severity minimum : Severity) : Bool :=
  minimum.rank ≤ severity.rank

/-- The greater of two severities. -/
def max (a b : Severity) : Severity :=
  if a.rank < b.rank then b else a

end Severity

end CampusQuery
