import CampusQuery.Query.Target

/-!
# The language of queries

A query is an object with a filter under `WHERE`, the columns and order of its answer under
`OPTIONS`, and a grouping under `TRANSFORMATIONS` if it has one. `Plan.ofJson` reads it from left to
right and stops at the first fault. Every key in it is resolved as it is met, so the first one
decides which dataset the query is about.
-/

namespace CampusQuery

namespace Check

/-! ## Shapes -/

/-- The entries of an object (`as_object`). -/
def entries (part : Part) : Json → Check (List (String × Json))
  | .object entries => return entries
  | v => throw (.notObject part v.type)

/-- The one of some entries. -/
def single (part : Part) : List (String × Json) → Check (String × Json)
  | [entry] => return entry
  | entries => throw (.notSingle part entries.length)

/-- The one entry of an object (`single_entry`). -/
def singleEntry (part : Part) (v : Json) : Check (String × Json) := do
  single part (← entries part v)

/-- The items of an array that is not empty. -/
def items (part : Part) : Json → Check (List Json)
  | .array [] => throw (.emptyArray part)
  | .array items => return items
  | _ => throw (.notArray part)

/-- A text in an array. -/
def text (part : Part) : Json → Check String
  | .string s => return s
  | v => throw (.entryNotText part v.type)

/-- The texts of an array that is not empty (`as_key_list`). -/
def texts (part : Part) (v : Json) : Check (List String) := do
  (← items part v).mapM (text part)

/-- A value that must be there. -/
def found (value : Option Json) (missing : Malformed) : Check Json :=
  match value with
  | some v => return v
  | none => throw missing

/-- What is read of a value, if there is one. -/
def optional {α : Type} (read : Json → Check α) : Option Json → Check (Option α)
  | none => return none
  | some v => some <$> read v

/-- A condition that must hold. -/
def require (condition : Bool) (fault : Malformed) : Check Unit :=
  if condition then pure () else throw fault

/-- There must be no entries but those of given names. -/
def noOthers (names : List String) (fault : String → Malformed) (entries : List (String × Json)) :
    Check Unit :=
  match entries.find? fun entry => !names.contains entry.1 with
  | some entry => throw (fault entry.1)
  | none => pure ()

/-! ## Filters -/

/-- A key of a field of the wanted type (`QueryValidator.resolve_typed`). -/
def typedKey (known : String → Option Kind) (part : Part) (type : FieldType) (key : String) :
    Check FieldKey := do
  let k ← Target.resolve known key
  require (k.type == type) (.wrongType part type key k.type)
  return k

/-- The number that a field is compared with. -/
def bound (c : Comparison) (v : Json) : Check Binary64 :=
  match v.number? with
  | some x => return x
  | none => throw (.boundNotNumber c v.type)

/-- A comparison of a numeric field with a number (`QueryValidator.parse_comparison`). -/
def comparison (known : String → Option Kind) (c : Comparison) (body : Json) : Check Filter := do
  let (key, v) ← singleEntry (.comparison c) body
  let k ← typedKey known (.comparison c) .numeric key
  return .compare c k (← bound c v)

/-- The pattern that a text is to match. -/
def pattern : Json → Check Pattern
  | .string raw =>
    match Pattern.ofText? raw with
    | some pattern => return pattern
    | none => throw (.badPattern raw)
  | v => throw (.patternNotText v.type)

/-- A condition on a text field. -/
def like (known : String → Option Kind) (body : Json) : Check Filter := do
  let (key, v) ← singleEntry .like body
  let k ← typedKey known .like .text key
  return .like k (← pattern v)

mutual

/-- A filter: an object with one entry, whose key says of what form it is
(`QueryValidator.parse_filter`). -/
def filter (known : String → Option Kind) : Json → Check Filter
  | .object [(key, body)] =>
    if key = "AND" then .and <$> branches known .and body
    else if key = "OR" then .or <$> branches known .or body
    else if key = "LT" then comparison known .less body
    else if key = "GT" then comparison known .greater body
    else if key = "EQ" then comparison known .equal body
    else if key = "IS" then like known body
    else if key = "NOT" then .not <$> filter known body
    else throw (.unknownFilter key)
  | .object entries => throw (.notSingle .filter entries.length)
  | v => throw (.notObject .filter v.type)

/-- The filters that a connective joins. -/
def branches (known : String → Option Kind) (part : Part) : Json → Check (List Filter)
  | .array [] => throw (.emptyArray part)
  | .array (item :: items) => do
    let first ← filter known item
    return first :: (← filters known items)
  | _ => throw (.notArray part)

/-- Filters one after the other. -/
def filters (known : String → Option Kind) : List Json → Check (List Filter)
  | [] => return []
  | item :: items => do
    let first ← filter known item
    return first :: (← filters known items)

end

/-- The filter of a query; an empty object lets all rows through (`QueryValidator.parse_where`). -/
def condition (known : String → Option Kind) (v : Json) : Check Filter := do
  if (← entries .condition v).isEmpty then return .all else filter known v

/-! ## Groupings -/

/-- The aggregate of a label. -/
def aggregate (label : String) : Check Aggregate :=
  match Aggregate.ofLabel? label with
  | some a => return a
  | none => throw (.unknownAggregate label)

/-- The field that an aggregate is taken of. -/
def aggregated (known : String → Option Kind) (a : Aggregate) : Json → Check FieldKey
  | .string key => do
    let k ← Target.resolve known key
    require (a.accepts k.type) (.wrongType (.aggregate a) .numeric key k.type)
    return k
  | _ => throw (.targetNotText a)

/-- A rule: an object with the name of the rule as its key and under it an object with one aggregate
and its target (`QueryValidator.parse_apply_rule`). -/
def rule (known : String → Option Kind) (v : Json) : Check Rule := do
  let (name, body) ← singleEntry .rule v
  require (name != "") .emptyRuleName
  require (!name.toList.contains separator) (.separatorInRuleName name)
  let (label, target) ← singleEntry .ruleBody body
  let a ← aggregate label
  return ⟨name, a, ← aggregated known a target⟩

/-- Rules one after the other, each with a name that none before it has. -/
def rules (known : String → Option Kind) (names : List String) : List Json → Check (List Rule)
  | [] => return []
  | v :: vs => do
    let r ← rule known v
    require (!names.contains r.name) (.duplicateRule r.name)
    return r :: (← rules known (r.name :: names) vs)

/-- The rules of an array, which may be empty. -/
def ruleList (known : String → Option Kind) : Json → Check (List Rule)
  | .array vs => rules known [] vs
  | _ => throw (.notArray .apply)

/-- A grouping: the keys by which rows are grouped, and the rules
(`QueryValidator.parse_transformations`). -/
def grouping (known : String → Option Kind) (v : Json) : Check Grouping := do
  let parts ← entries .transformations v
  let group ← found (parts.lookup "GROUP") .missingGroup
  let apply ← found (parts.lookup "APPLY") .missingApply
  require (parts.length == 2) .extraTransformation
  let keys ← (← texts .group group).mapM (Target.resolve known)
  return ⟨keys, ← ruleList known apply⟩

/-! ## Columns and order -/

/-- A column of the answer (`QueryValidator.transform_column`). Of grouped rows only the keys of the
grouping and its rules can be shown. -/
def column (known : String → Option Kind) (grouping : Option Grouping) (key : String) :
    Check Column := do
  match grouping with
  | none => return .field (← Target.resolve known key)
  | some grouping =>
    match grouping.keys.find? fun k => k.key == key with
    | some k => return .field k
    | none =>
      require (grouping.rules.any fun r => r.name == key) (.notGrouped key)
      return .rule key

/-- The column of the answer of a given name. -/
def shownColumn (columns : List Column) (key : String) : Check Column :=
  match columns.find? fun column => column.name == key with
  | some column => return column
  | none => throw (.orderKeyNotColumn key)

/-- A direction. -/
def direction (v : Json) : Check Direction :=
  match v.string?.bind Direction.ofLabel? with
  | some d => return d
  | none => throw (.badDirection v)

/-- The order of the answer: a column, or a direction and columns (`QueryValidator.parse_order`). -/
def order (columns : List Column) : Json → Check RowOrder
  | .string key => return ⟨.up, [← shownColumn columns key]⟩
  | .object parts => do
    let dir ← found (parts.lookup "dir") .missingDirection
    let keys ← found (parts.lookup "keys") .missingOrderKeys
    require (parts.length == 2) .extraOrder
    let d ← direction dir
    return ⟨d, ← (← texts .orderKeys keys).mapM (shownColumn columns)⟩
  | v => throw (.badOrder v.type)

/-- The columns and the order of the answer (`QueryValidator.parse_options`). -/
def options (known : String → Option Kind) (grouping : Option Grouping) (v : Json) :
    Check (List Column × Option RowOrder) := do
  let parts ← entries .options v
  noOthers ["COLUMNS", "ORDER"] .unknownOption parts
  let names ← texts .columns (← found (parts.lookup "COLUMNS") .missingColumns)
  let columns ← names.mapM (column known grouping)
  return (columns, ← optional (order columns) (parts.lookup "ORDER"))

/-! ## Queries -/

/-- The filter, the grouping, the columns and the order of a query. -/
def clauses (known : String → Option Kind) (v : Json) :
    Check (Filter × Option Grouping × List Column × Option RowOrder) := do
  let parts ← entries .query v
  noOthers ["WHERE", "OPTIONS", "TRANSFORMATIONS"] .unknownClause parts
  let whereClause ← found (parts.lookup "WHERE") .missingWhere
  let optionsClause ← found (parts.lookup "OPTIONS") .missingOptions
  let filter ← condition known whereClause
  let grouping ← optional (grouping known) (parts.lookup "TRANSFORMATIONS")
  return (filter, grouping, ← options known grouping optionsClause)

/-- A query, which must say what dataset it is about (`QueryValidator.validate`). -/
def query (known : String → Option Kind) (v : Json) : Check Plan := do
  let (filter, grouping, columns, order) ← clauses known v
  match ← get with
  | ⟨none, _⟩ => throw .noDataset
  | ⟨some _, none⟩ => throw .noField
  | ⟨some dataset, some kind⟩ => return ⟨dataset, kind, filter, grouping, columns, order⟩

end Check

/-- Reads a query; `known` gives the kinds of the datasets there are. -/
def Plan.ofJson (known : String → Option Kind) (v : Json) : Except Malformed Plan :=
  ((Check.query known v).run.run {}).1

end CampusQuery
