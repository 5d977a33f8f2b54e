import CampusQuery.Journal.Entry
import CampusQuery.Time.Instant

/-!
# Journals

A `Journal` keeps the lines of those entries that are no less grave than its minimum. A `Scope` is
an operation under way, of which the beginning and the end are recorded, with the time between.
-/

namespace CampusQuery

/-- A journal: the least severity of what is kept, and a place for lines. -/
class Journal (m : Type → Type) where
  minimum : m Severity
  setMinimum : Severity → m Unit
  append : String → m Unit

/-- A clock: the moment, and milliseconds from some fixed moment. -/
class Clock (m : Type → Type) where
  now : m Instant
  milliseconds : m Nat

namespace Journal

/-- A line as it is written, with its end. -/
def written (line : String) : String :=
  line ++ "\n"

variable {m : Type → Type} [Monad m] [Journal m]

/-- Keeps an entry, if it is grave enough (`Logger.log`). -/
def add (e : Entry) : m Unit := do
  if e.severity.passes (← minimum) then append e.line

/-- Keeps the entry of an event (`log_event_with_fields`). -/
def record (event : Event) (fields : Fields) : m Unit :=
  add (Entry.ofEvent event fields)

end Journal

/-- An operation under way (`ObservationScope`). -/
structure Scope where
  event : Event
  fields : Fields
  started : Nat

namespace Scope

variable {m : Type → Type} [Monad m] [Journal m] [Clock m]

/-- The beginning of an operation (`ObservationScope.new`). -/
def start (event : Event) (fields : Fields) : m Scope := do
  Journal.record event fields
  return ⟨event, fields, ← Clock.milliseconds⟩

/-- The end of an operation, with the fields of its beginning and the time it took
(`ObservationScope.finish`). -/
def close (s : Scope) (severity : Severity) (event : Event) (fields : Fields) : m Unit := do
  let elapsed := (← Clock.milliseconds) - s.started
  Journal.add ⟨severity, event.label, s.fields ++ fields ++ [("elapsed_ms", toString elapsed)]⟩

/-- The end of an operation that did what it should (`ObservationScope.complete`). -/
def complete (s : Scope) (event : Event) (fields : Fields) : m Unit :=
  s.close event.severity event fields

/-- The end of an operation that failed, which is at least a warning (`ObservationScope.fail`). -/
def fail (s : Scope) (event : Event) (code reason : String) : m Unit :=
  s.close (event.severity.max .warn) event [("code", code), ("reason", reason)]

/-- The end of an operation of which nobody said how it ended (`ObservationScope.drop`). -/
def abandon (s : Scope) : m Unit :=
  Journal.add ⟨.warn, s.event.label ++ "_INCOMPLETE",
    [("reason", "scope dropped without completion")]⟩

end Scope

end CampusQuery
