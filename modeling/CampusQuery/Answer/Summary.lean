import CampusQuery.Answer.Group
import CampusQuery.Number.Decimal

/-!
# What is said of a group

Of each group of rows an answer shows the values of its keys and one value for each rule: the
greatest or least number, a sum or mean taken in decimals and rounded to two places, or the number
of different values. A number beyond all decimals counts as the extreme one; `saturated` lists such
numbers.
-/

namespace CampusQuery

/-- A row of an answer: names and values. -/
abbrev Row := List (String × Json)

namespace Aggregate

/-- How many decimal places a sum or a mean is rounded to (`AGGREGATE_SCALE`). -/
def places : Nat := 2

/-- The sum of some numbers, as a decimal (`Aggregate.decimal_sum`). -/
def total [Converter] (xs : List Binary64) : Decimal :=
  xs.foldl (fun sum x => sum.add (Decimal.ofBinary64 x)) Decimal.zero

/-- The sum of some numbers divided by a count, as a decimal. -/
def mean [Converter] (xs : List Binary64) (count : Nat) : Decimal :=
  ((total xs).divNat? count).getD Decimal.zero

/-- A decimal as answers show it (`Aggregate.decimal_value`). -/
def shown (d : Decimal) : Json :=
  Json.ofNumber? (some (d.roundTo places).toBinary64)

/-- The best of some numbers, by a choice between two. -/
def best (better : Binary64 → Binary64 → Binary64) (xs : List Binary64) : Option Binary64 :=
  xs.foldl (fun best x => some (match best with | none => x | some y => better y x)) none

/-- The aggregate of the values of a field over the rows of a group (`Aggregate.compute`). -/
def value [Converter] (aggregate : Aggregate) (values : List (Option Value)) : Json :=
  let numbers := values.filterMap fun x => x.bind Value.number?
  match aggregate with
  | .max => Json.ofNumber? (best Binary64.max numbers)
  | .min => Json.ofNumber? (best Binary64.min numbers)
  | .sum => shown (total numbers)
  | .average => shown (mean numbers values.length)
  | .count =>
    let classes := values.map fun x => x.map Value.unsignedZero
    Json.ofNat (Std.HashSet.ofList classes).size

/-- Whether an aggregate is taken in decimals. -/
def IsDecimal (aggregate : Aggregate) : Prop :=
  aggregate = .sum ∨ aggregate = .average

instance (aggregate : Aggregate) : Decidable aggregate.IsDecimal :=
  inferInstanceAs (Decidable (_ ∨ _))

/-- The numbers among some values that are beyond all decimals, if the aggregate is taken in
decimals. -/
def saturated [Converter] (aggregate : Aggregate) (values : List (Option Value)) :
    List Binary64 :=
  if aggregate.IsDecimal then
    (values.filterMap fun x => x.bind Value.number?).filter Decimal.isBeyond
  else
    []

end Aggregate

namespace Grouping

/-- The values of a field in the rows of a group. -/
def valuesOf (rows : Array Record) (group : List Nat) (k : FieldKey) : List (Option Value) :=
  group.map (valueAt rows k.field)

/-- A value as answers show it. -/
def shown (x : Option Value) : Json :=
  (x.map Value.shown).getD .null

/-- What an answer shows of a group: the values of the keys, which are those of its first row, and
those of the rules (`TransformEngine.summarize`). -/
def summary [Converter] (g : Grouping) (rows : Array Record) (group : List Nat) : Row :=
  let keys :=
    match group.head? with
    | some first => g.keys.map fun k => (k.key, shown (valueAt rows k.field first))
    | none => []
  let rules := g.rules.map fun r => (r.name, r.aggregate.value (valuesOf rows group r.key))
  Json.insertAll (keys ++ rules)

/-- What an answer shows of the groups of the rows at some places (`TransformEngine.apply`). -/
def summaries [Converter] (g : Grouping) (rows : Array Record) (places : List Nat) : List Row :=
  (partition rows g.keys places).map (g.summary rows)

/-- The numbers beyond all decimals, group by group and rule by rule. -/
def saturated [Converter] (g : Grouping) (rows : Array Record) (places : List Nat) :
    List Binary64 :=
  (partition rows g.keys places).flatMap fun group =>
    g.rules.flatMap fun r => r.aggregate.saturated (valuesOf rows group r.key)

end Grouping

end CampusQuery
