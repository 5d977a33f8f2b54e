import CampusQuery.Answer.Row
import CampusQuery.Query.Language
import CampusQuery.Registry.Registry

/-!
# Answers

A query is read, its dataset looked up, the rows that count are chosen, grouped if it asks for that,
cut down to its columns, counted against the limit and only then sorted: an answer that is too long
is refused, never cut short.

`Outcome.saturated` lists the numbers that were too large for a sum or a mean, whatever became of
the query.
-/

namespace CampusQuery

/-- The longest answer, unless another limit is set (`DEFAULT_MAX_RESULT_ROWS`). -/
def defaultLimit : Nat := 5000

/-- The rows of an answer, and how many rows were looked at and how many of these counted
(`ExecutionResult`). -/
structure Answer where
  rows : List Row
  scanned : Nat
  matched : Nat

/-- What becomes of a query. -/
structure Outcome where
  saturated : List Binary64
  result : Except QueryError Answer

namespace Plan

/-- The places of the rows that count. -/
def matched (p : Plan) (rows : Array Record) : List Nat :=
  p.filter.select rows (List.range rows.size)

/-- The rows to show, before they are sorted. -/
def shown [Converter] (p : Plan) (rows : Array Record) (places : List Nat) : List Row :=
  match p.grouping with
  | some g => (g.summaries rows places).map (Row.ofSummary p.columns)
  | none => places.map (Row.ofPlace p.columns rows)

/-- Rows in the order that the query asks for. -/
def sorted [Collator] (p : Plan) (rows : List Row) : List Row :=
  match p.order with
  | some o => o.sort rows
  | none => rows

/-- The numbers beyond all decimals in sums and means. -/
def saturated [Converter] (p : Plan) (rows : Array Record) (places : List Nat) : List Binary64 :=
  match p.grouping with
  | some g => g.saturated rows places
  | none => []

/-- What becomes of a query of the rows of its dataset (`QueryExecutor.execute_validated`). -/
def outcome [Collator] [Converter] (p : Plan) (rows : Array Record) (limit : Nat) : Outcome :=
  let places := p.matched rows
  let shown := p.shown rows places
  ⟨p.saturated rows places,
    if limit < shown.length then .error (.resultTooLarge shown.length limit)
    else .ok ⟨p.sorted shown, rows.size, places.length⟩⟩

end Plan

namespace Registry

/-- The dataset that a plan is about. Its kind must still be the one that the keys were resolved
for. -/
def find (r : Registry) (p : Plan) : Except QueryError Dataset :=
  match r.get? p.dataset with
  | none => .error (.datasetNotFound p.dataset)
  | some d =>
    if d.kind = p.kind then .ok d else .error (.malformed (.otherKind p.dataset d.kind))

/-- What becomes of a plan (`QueryExecutor.execute_validated`). -/
def execute [Collator] [Converter] (r : Registry) (limit : Nat) (p : Plan) : Outcome :=
  match r.find p with
  | .error e => ⟨[], .error e⟩
  | .ok d => p.outcome d.rows limit

/-- What becomes of a query (`QueryExecutor.execute`). -/
def query [Collator] [Converter] (r : Registry) (limit : Nat) (raw : Json) : Outcome :=
  match Plan.ofJson r.kindOf raw with
  | .error cause => ⟨[], .error (.malformed cause)⟩
  | .ok p => r.execute limit p

end Registry

end CampusQuery
