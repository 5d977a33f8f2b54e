import CampusQuery.Answer.Summary
import CampusQuery.Text.Collator

/-!
# Rows of an answer

An answer shows of every row the columns asked for, in their order, and may sort the rows. They are
compared by one column after the other, texts as readers order them and all else as numbers; a row
without the text counts as having an empty one, and a row without the number as having less than
any. Rows that are equal in all columns of the order stay as they were.
-/

namespace CampusQuery

namespace Row

/-- The columns of the row at a place (`Projection.from_records`). -/
def ofPlace (columns : List Column) (rows : Array Record) (place : Nat) : Row :=
  Json.insertAll (columns.map fun column =>
    match column with
    | .field k => (k.key, Grouping.shown (valueAt rows k.field place))
    | .rule name => (name, .null))

/-- The columns of what is said of a group (`Projection.from_groups`). -/
def ofSummary (columns : List Column) (summary : Row) : Row :=
  Json.insertAll (columns.map fun column =>
    (column.name, (summary.lookup column.name).getD .null))

/-! ## Order -/

/-- The text of a row in a column. -/
def text (r : Row) (column : Column) : String :=
  ((r.lookup column.name).bind Json.string?).getD ""

/-- The number of a row in a column. -/
def number? (r : Row) (column : Column) : Option Binary64 :=
  (r.lookup column.name).bind Json.number?

/-- The order of numbers, of which none is the least. -/
def orderNumbers : Option Binary64 → Option Binary64 → Ordering
  | some x, some y => x.order y
  | some _, none => .gt
  | none, some _ => .lt
  | none, none => .eq

/-- The order of two rows by a column (`ResultSorter.compare_key`). -/
def orderBy [Collator] (column : Column) (a b : Row) : Ordering :=
  if column.isText then collate (a.text column) (b.text column)
  else orderNumbers (a.number? column) (b.number? column)

/-- The order of two rows by the first of some columns in which they differ. -/
def orderByAll [Collator] (columns : List Column) (a b : Row) : Ordering :=
  columns.foldr (fun column rest => (orderBy column a b).then rest) .eq

end Row

namespace RowOrder

/-- The order in which two rows are shown; downwards the rows as a whole are compared the other way
round. -/
def compare [Collator] (o : RowOrder) (a b : Row) : Ordering :=
  match o.direction with
  | .up => Row.orderByAll o.columns a b
  | .down => (Row.orderByAll o.columns a b).swap

/-- The rows of an answer in order (`ResultSorter.sort`). -/
def sort [Collator] (o : RowOrder) (rows : List Row) : List Row :=
  rows.mergeSort fun a b => o.compare a b != .gt

end RowOrder

end CampusQuery
