import Std.Data.HashSet.Basic
import CampusQuery.Catalog.Record
import CampusQuery.Query.Plan

/-!
# The rows that a filter lets through

Rows are told apart by their place in the dataset, never by what they hold, so equal rows stay two.
`Filter.select` takes the places of some rows and gives those of the rows that satisfy a filter, in
the order given: a conjunction narrows the rows from one filter to the next, a disjunction joins
what its filters let through, and a negation leaves out what its filter lets through.

`Filter.holds` says of one row whether it satisfies a filter.
-/

namespace CampusQuery

/-- The value of a field in the row at a place (`Record.field`). -/
def valueAt (rows : Array Record) (f : Field) (place : Nat) : Option Value :=
  rows[place]?.bind fun r => r.get? f

namespace Filter

/-- Whether a value compares with a bound as wanted; a row without a number does not. -/
def comparesAt (rows : Array Record) (c : Comparison) (f : Field) (bound : Binary64)
    (place : Nat) : Bool :=
  ((valueAt rows f place).bind Value.number?).any fun x => c.holds x bound

/-- Whether a text is of a pattern; a row without a text is not. -/
def accepts (rows : Array Record) (f : Field) (pattern : Pattern) (place : Nat) : Bool :=
  ((valueAt rows f place).bind Value.text?).any pattern.accepts

mutual

/-- Of some rows those that satisfy a filter (`FilterEvaluator.evaluate`). -/
def select (rows : Array Record) : Filter → List Nat → List Nat
  | .all, places => places
  | .and filters, places => narrow rows filters places
  | .or filters, places =>
    let found := join rows filters places {}
    places.filter fun place => found.contains place
  | .not filter, places =>
    let found := Std.HashSet.ofList (select rows filter places)
    places.filter fun place => !found.contains place
  | .compare c key bound, places => places.filter (comparesAt rows c key.field bound)
  | .like key pattern, places => places.filter (accepts rows key.field pattern)

/-- Of some rows those that satisfy each of the filters. Once no row is left the other filters are
not looked at. -/
def narrow (rows : Array Record) : List Filter → List Nat → List Nat
  | [], places => places
  | filter :: filters, places =>
    if places.isEmpty then places else narrow rows filters (select rows filter places)

/-- The rows found already, and of some rows those that satisfy any of the filters. -/
def join (rows : Array Record) :
    List Filter → List Nat → Std.HashSet Nat → Std.HashSet Nat
  | [], _, found => found
  | filter :: filters, places, found =>
    join rows filters places (found.insertMany (select rows filter places))

end

mutual

/-- Whether the row at a place satisfies a filter. -/
def holds (rows : Array Record) (place : Nat) : Filter → Bool
  | .all => true
  | .and filters => allHold rows place filters
  | .or filters => anyHolds rows place filters
  | .not filter => !holds rows place filter
  | .compare c key bound => comparesAt rows c key.field bound place
  | .like key pattern => accepts rows key.field pattern place

/-- Whether the row at a place satisfies each of the filters. -/
def allHold (rows : Array Record) (place : Nat) : List Filter → Bool
  | [] => true
  | filter :: filters => holds rows place filter && allHold rows place filters

/-- Whether the row at a place satisfies any of the filters. -/
def anyHolds (rows : Array Record) (place : Nat) : List Filter → Bool
  | [] => false
  | filter :: filters => holds rows place filter || anyHolds rows place filters

end

end Filter

end CampusQuery
