import CampusQuery.Json.Printer
import CampusQuery.Query.Plan

/-!
# Errors of queries

A query is malformed, or its dataset is not there, or its answer is too long. `Malformed` lists the
ways in which a query can be malformed, and `Malformed.message` words them.
-/

namespace CampusQuery

/-- The parts of a query, as messages name them. -/
inductive Part where
  | query
  | condition
  | filter
  | and
  | or
  | comparison (c : Comparison)
  | like
  | transformations
  | group
  | apply
  | rule
  | ruleBody
  | aggregate (a : Aggregate)
  | options
  | columns
  | orderKeys
  deriving DecidableEq, Repr

/-- The name of a part of a query. -/
def Part.label : Part → String
  | .query => "Query"
  | .condition => "WHERE"
  | .filter => "Filter"
  | .and => "AND"
  | .or => "OR"
  | .comparison c => c.label
  | .like => "IS"
  | .transformations => "TRANSFORMATIONS"
  | .group => "GROUP"
  | .apply => "APPLY"
  | .rule => "APPLY rule"
  | .ruleBody => "APPLY body"
  | .aggregate a => a.label
  | .options => "OPTIONS"
  | .columns => "COLUMNS"
  | .orderKeys => "ORDER keys"

/-- How a query is malformed. -/
inductive Malformed where
  | notObject (part : Part) (found : JsonType)
  | notSingle (part : Part) (entries : Nat)
  | notArray (part : Part)
  | emptyArray (part : Part)
  | entryNotText (part : Part) (found : JsonType)
  | wrongType (part : Part) (expected : FieldType) (key : String) (actual : FieldType)
  | unknownClause (key : String)
  | missingWhere
  | missingOptions
  | unknownFilter (key : String)
  | boundNotNumber (c : Comparison) (found : JsonType)
  | patternNotText (found : JsonType)
  | badPattern (raw : String)
  | missingGroup
  | missingApply
  | extraTransformation
  | emptyRuleName
  | separatorInRuleName (name : String)
  | unknownAggregate (name : String)
  | targetNotText (a : Aggregate)
  | duplicateRule (name : String)
  | unknownOption (key : String)
  | missingColumns
  | notGrouped (key : String)
  | badOrder (found : JsonType)
  | missingDirection
  | missingOrderKeys
  | extraOrder
  | badDirection (v : Json)
  | orderKeyNotColumn (key : String)
  | badKey (key : String)
  | otherDataset (bound id : String)
  | foreignKey (key : String) (kind : Kind)
  | noDataset
  | noField
  | otherKind (id : String) (kind : Kind)
  /-- A reason given in words. -/
  | stated (reason : String)

/-- The wording of a fault of a query. -/
def Malformed.message : Malformed → String
  | .notObject part found => s!"{part.label} must be an object, found {found.label}"
  | .notSingle part entries => s!"{part.label} must have exactly one key, found {entries}"
  | .notArray part => s!"{part.label} must be an array"
  | .emptyArray part => s!"{part.label} must be a non-empty array"
  | .entryNotText part found => s!"{part.label} entries must be strings, found {found.label}"
  | .wrongType part expected key actual =>
    s!"{part.label} requires a {expected.label} field, '{key}' is {actual.label}"
  | .unknownClause key => s!"Invalid key '{key}' in query"
  | .missingWhere => "Missing WHERE"
  | .missingOptions => "Missing OPTIONS"
  | .unknownFilter key => s!"Invalid filter key '{key}'"
  | .boundNotNumber c found => s!"{c.label} value must be a number, found {found.label}"
  | .patternNotText found => s!"IS value must be a string, found {found.label}"
  | .badPattern raw => s!"Invalid IS pattern '{raw}': '*' only allowed at either end"
  | .missingGroup => "TRANSFORMATIONS missing GROUP"
  | .missingApply => "TRANSFORMATIONS missing APPLY"
  | .extraTransformation => "TRANSFORMATIONS must contain exactly GROUP and APPLY"
  | .emptyRuleName => "APPLY key cannot be empty"
  | .separatorInRuleName name => s!"APPLY key '{name}' cannot contain '{separator}'"
  | .unknownAggregate name => s!"Invalid APPLY token '{name}'"
  | .targetNotText a => s!"{a.label} target must be a key"
  | .duplicateRule name => s!"Duplicate APPLY key '{name}'"
  | .unknownOption key => s!"Invalid key '{key}' in OPTIONS"
  | .missingColumns => "OPTIONS missing COLUMNS"
  | .notGrouped key => s!"COLUMNS key '{key}' is neither a GROUP nor an APPLY key"
  | .badOrder found => s!"ORDER must be a key or an object, found {found.label}"
  | .missingDirection => "ORDER missing dir"
  | .missingOrderKeys => "ORDER missing keys"
  | .extraOrder => "ORDER must contain exactly dir and keys"
  | .badDirection v => "Invalid ORDER dir " ++ v.compact
  | .orderKeyNotColumn key => s!"ORDER key '{key}' must be in COLUMNS"
  | .badKey key => s!"Invalid key '{key}'"
  | .otherDataset bound id => s!"Cannot query more than one dataset: '{bound}' and '{id}'"
  | .foreignKey key kind => s!"Invalid key '{key}' for {kind.label} dataset"
  | .noDataset => "Query references no dataset"
  | .noField => "Query references no dataset field"
  | .otherKind id kind => s!"Dataset '{id}' is a {kind.label} dataset"
  | .stated reason => reason

/-- Why a query has no answer (`QueryError`). -/
inductive QueryError where
  | malformed (cause : Malformed)
  | datasetNotFound (id : String)
  | resultTooLarge (rows limit : Nat)

namespace QueryError

/-- The code of an error (`QueryErrorCode.code`). -/
def code : QueryError → String
  | .malformed _ => "INSIGHT_MALFORMED_QUERY"
  | .datasetNotFound _ => "INSIGHT_DATASET_NOT_FOUND"
  | .resultTooLarge _ _ => "INSIGHT_RESULT_TOO_LARGE"

/-- The wording of an error. -/
def message : QueryError → String
  | .malformed cause => cause.message
  | .datasetNotFound id => s!"Dataset '{id}' not found"
  | .resultTooLarge rows limit => s!"Result of {rows} rows exceeds maximum of {limit}"

/-- An error with its code before it. -/
def display (e : QueryError) : String :=
  s!"{e.code}: {e.message}"

/-- Whether the query is malformed. -/
def isMalformed : QueryError → Bool
  | .malformed _ => true
  | _ => false

end QueryError

end CampusQuery
