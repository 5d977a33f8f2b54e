import CampusQuery.Catalog.Field
import CampusQuery.Number.Binary64
import CampusQuery.Query.Pattern

/-!
# Plans

A `Plan` is what a query asks for, with every key resolved to a field: the dataset, the rows that
count, how they are grouped and summed up, the columns to show and the order of the rows.
-/

namespace CampusQuery

/-- A key of a query and the field that it names (`FieldRef`). -/
structure FieldKey where
  key : String
  field : Field
  deriving DecidableEq, Repr

/-- The type of the field that a key names. -/
def FieldKey.type (k : FieldKey) : FieldType :=
  k.field.type

/-- A comparison with a number. -/
inductive Comparison where
  | less
  | greater
  | equal
  deriving DecidableEq, Repr

namespace Comparison

/-- The name of a comparison (`Comparison.as_str`). -/
def label : Comparison → String
  | .less => "LT"
  | .greater => "GT"
  | .equal => "EQ"

/-- Whether a number compares so with a bound (`Comparison.holds`). -/
def holds : Comparison → Binary64 → Binary64 → Bool
  | .less, x, bound => x.value < bound.value
  | .greater, x, bound => bound.value < x.value
  | .equal, x, bound => x.value == bound.value

end Comparison

/-- A condition on rows. -/
inductive Filter where
  | all
  | and (filters : List Filter)
  | or (filters : List Filter)
  | not (filter : Filter)
  | compare (comparison : Comparison) (key : FieldKey) (bound : Binary64)
  | like (key : FieldKey) (pattern : Pattern)
  deriving Inhabited

/-- A way to sum up the values of a field over a group of rows (`ApplyToken`). -/
inductive Aggregate where
  | max
  | min
  | average
  | sum
  | count
  deriving DecidableEq, Repr

namespace Aggregate

/-- The name of an aggregate (`ApplyToken.as_str`). -/
def label : Aggregate → String
  | .max => "MAX"
  | .min => "MIN"
  | .average => "AVG"
  | .sum => "SUM"
  | .count => "COUNT"

/-- All aggregates. -/
def all : List Aggregate := [.max, .min, .average, .sum, .count]

/-- The aggregate of a given name (`ApplyToken.parse`). -/
def ofLabel? (name : String) : Option Aggregate :=
  all.find? fun aggregate => aggregate.label == name

/-- Whether an aggregate can be taken of a field of a type: only counting can of a text
(`ApplyToken.accepts`). -/
def accepts (aggregate : Aggregate) (type : FieldType) : Bool :=
  aggregate == .count || type == .numeric

end Aggregate

/-- A named aggregate of a field (`ApplyRule`). -/
structure Rule where
  name : String
  aggregate : Aggregate
  key : FieldKey
  deriving DecidableEq, Repr

/-- How rows are grouped, and what is said of each group (`Transform`). -/
structure Grouping where
  keys : List FieldKey
  rules : List Rule
  deriving DecidableEq, Repr

/-- A column of an answer: a field, or the name of a rule (`ColumnKey`). -/
inductive Column where
  | field (key : FieldKey)
  | rule (name : String)
  deriving DecidableEq, Repr

namespace Column

/-- The name under which an answer shows a column (`ColumnKey.name`). -/
def name : Column → String
  | .field key => key.key
  | .rule name => name

/-- Whether a column holds texts (`ColumnKey.is_text`). -/
def isText : Column → Bool
  | .field key => key.type == .text
  | .rule _ => false

end Column

/-- Whether rows go up or down. -/
inductive Direction where
  | up
  | down
  deriving DecidableEq, Repr

/-- The direction of a given name. -/
def Direction.ofLabel? (name : String) : Option Direction :=
  if name = "UP" then some .up else if name = "DOWN" then some .down else none

/-- The name of a direction. -/
def Direction.label : Direction → String
  | .up => "UP"
  | .down => "DOWN"

/-- The order of the rows of an answer: by the first column in which two differ (`Order`). -/
structure RowOrder where
  direction : Direction
  columns : List Column
  deriving DecidableEq, Repr

/-- What a query asks for (`ValidatedQuery`). -/
structure Plan where
  dataset : String
  kind : Kind
  filter : Filter
  grouping : Option Grouping
  columns : List Column
  order : Option RowOrder

end CampusQuery
