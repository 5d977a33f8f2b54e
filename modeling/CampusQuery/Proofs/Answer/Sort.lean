import Mathlib
import CampusQuery.Answer.Row
import CampusQuery.Proofs.StableSort
import CampusQuery.Proofs.Text.Collator

/-!
# Rows in order

The rows of an answer are sorted by the columns of an order, compared by the first column in which
they differ. That comparison is a total preorder whatever rows hold and by whatever collator texts
compare, and rows that are tied in all columns stay in the order they had. There is one list of the
rows that is so sorted.

* `Row.textIn`, `Row.rank` — what a row has in a column to be ordered by, a row without a number
  having less than any, and one without a text the empty one.
* `Row.IsLess`, `Row.IsTied` — how two rows compare in a column.
* `RowOrder.Before` — how two rows compare in an order.
* `RowOrder.sort_unique` — the rows of an answer in order.
-/

namespace CampusQuery

/-! ## Comparisons -/

section Comparisons

variable {α : Type} {cmp : α → α → Ordering}

/-- The comparison of items by texts as readers order them, or by numbers, of which none is the
least. -/
def compareAs [Collator] (isText : Bool) (textOf : α → String) (numberOf : α → Option Int)
    (x y : α) : Ordering :=
  if isText then collate (textOf x) (textOf y) else compare (numberOf x) (numberOf y)

instance [Collator] (isText : Bool) (textOf : α → String) (numberOf : α → Option Int) :
    Std.TransCmp (compareAs isText textOf numberOf) := by
  cases isText with
  | true => exact inferInstanceAs (Std.TransCmp (Ordering.byKey textOf collate))
  | false => exact inferInstanceAs (Std.TransCmp (compareOn numberOf))

namespace Direction

/-- A comparison in a direction. -/
def directed (d : Direction) (cmp : α → α → Ordering) (x y : α) : Ordering :=
  match d with
  | .up => cmp x y
  | .down => (cmp x y).swap

theorem directed_down [Std.OrientedCmp cmp] : Direction.down.directed cmp = fun x y => cmp y x := by
  funext x y
  exact Std.OrientedCmp.eq_swap.symm

theorem transCmp_directed (d : Direction) (h : Std.TransCmp cmp) :
    Std.TransCmp (d.directed cmp) := by
  cases d with
  | up => exact h
  | down =>
    rw [directed_down]
    exact Std.TransCmp.opposite

end Direction

end Comparisons

/-! ## How rows compare -/

namespace Row

variable {a b : Row} {c : Column} {columns : List Column}

/-- What a row has in a column to be ordered by: its text there, or else the empty one. -/
def textIn (c : Column) (r : Row) : String :=
  match r.lookup c.name with
  | some (.string s) => s
  | _ => ""

/-- The place of a row in a column of numbers, in units of the least; a row without a number stands
below all others. -/
def rank (c : Column) (r : Row) : WithBot Int :=
  match r.lookup c.name with
  | some (.number n) => n.toBinary64.value
  | _ => ⊥

/-- A row is neither less nor more than another in a column. -/
def IsTied (c : Column) (a b : Row) : Prop :=
  if c.isText then a.textIn c = b.textIn c else a.rank c = b.rank c

instance : Decidable (IsTied c a b) :=
  inferInstanceAs (Decidable
    (if c.isText then a.textIn c = b.textIn c else a.rank c = b.rank c))

/-- Two rows differ in no column. -/
def Tied (columns : List Column) (a b : Row) : Prop :=
  ∀ c ∈ columns, IsTied c a b

instance : Decidable (Tied columns a b) :=
  inferInstanceAs (Decidable (∀ c ∈ columns, IsTied c a b))

theorem orderNumbers_eq_compare (x y : Option Binary64) :
    orderNumbers x y = compare (x.map Binary64.value) (y.map Binary64.value) := by
  cases x <;> cases y <;> rfl

theorem text_eq_textIn (r : Row) (c : Column) : r.text c = r.textIn c := by
  unfold text textIn
  rcases r.lookup c.name with - | (_ | _ | _ | _ | _ | _) <;> rfl

theorem rank_eq (r : Row) (c : Column) :
    r.rank c = match r.number? c with
      | some x => (x.value : WithBot Int)
      | none => ⊥ := by
  unfold rank number?
  rcases r.lookup c.name with - | (_ | _ | _ | _ | _ | _) <;> rfl

theorem orderNumbers_eq_lt_iff :
    orderNumbers (a.number? c) (b.number? c) = .lt ↔ a.rank c < b.rank c := by
  rw [rank_eq, rank_eq]
  cases a.number? c <;> cases b.number? c <;>
    simp [orderNumbers, Binary64.order, compare_lt_iff_lt]

theorem orderNumbers_eq_eq_iff :
    orderNumbers (a.number? c) (b.number? c) = .eq ↔ a.rank c = b.rank c := by
  rw [rank_eq, rank_eq]
  cases a.number? c <;> cases b.number? c <;>
    simp [orderNumbers, Binary64.order]

variable [Collator]

/-- A row is less than another in a column: the collator puts its text first or, if it does not tell
the two apart, their code points do; or its number is less. -/
def IsLess (c : Column) (a b : Row) : Prop :=
  if c.isText then
    Collator.order (a.textIn c) (b.textIn c) = .lt ∨
      Collator.order (a.textIn c) (b.textIn c) = .eq ∧ a.textIn c < b.textIn c
  else a.rank c < b.rank c

/-- A row is less than another in the first column in which they differ. -/
def Precedes (columns : List Column) (a b : Row) : Prop :=
  ∃ before c after, columns = before ++ c :: after ∧ (∀ d ∈ before, IsTied d a b) ∧ IsLess c a b

theorem orderBy_eq_lt_iff : orderBy c a b = .lt ↔ IsLess c a b := by
  unfold orderBy IsLess
  rw [text_eq_textIn, text_eq_textIn]
  split_ifs
  · exact collate_eq_lt_iff
  · exact orderNumbers_eq_lt_iff

theorem orderBy_eq_eq_iff : orderBy c a b = .eq ↔ IsTied c a b := by
  unfold orderBy IsTied
  rw [text_eq_textIn, text_eq_textIn]
  split_ifs
  · exact collate_eq_iff
  · exact orderNumbers_eq_eq_iff

theorem precedes_cons :
    Precedes (c :: columns) a b ↔ IsLess c a b ∨ IsTied c a b ∧ Precedes columns a b := by
  constructor
  · intro ⟨before, d, after, hcolumns, hbefore, hless⟩
    cases before with
    | nil =>
      obtain ⟨rfl, -⟩ := List.cons.inj hcolumns
      exact .inl hless
    | cons e before =>
      obtain ⟨rfl, rfl⟩ := List.cons.inj hcolumns
      exact .inr ⟨hbefore _ List.mem_cons_self, before, d, after, rfl,
        fun e he => hbefore e (List.mem_cons_of_mem _ he), hless⟩
  · intro h
    rcases h with hless | ⟨htied, before, d, after, rfl, hbefore, hless⟩
    · exact ⟨[], c, columns, rfl, fun d hd => absurd hd List.not_mem_nil, hless⟩
    · refine ⟨c :: before, d, after, rfl, fun e he => ?_, hless⟩
      rcases List.mem_cons.mp he with rfl | he
      · exact htied
      · exact hbefore e he

theorem orderByAll_eq_lt_iff : orderByAll columns a b = .lt ↔ Precedes columns a b := by
  induction columns with
  | nil =>
    refine iff_of_false Ordering.noConfusion fun ⟨before, c, after, hcolumns, _⟩ => ?_
    cases before <;> cases hcolumns
  | cons c columns ih =>
    rw [precedes_cons, ← orderBy_eq_lt_iff, ← orderBy_eq_eq_iff, ← ih]
    exact Ordering.then_eq_lt

theorem orderByAll_eq_eq_iff : orderByAll columns a b = .eq ↔ Tied columns a b := by
  induction columns with
  | nil => exact iff_of_true rfl fun c hc => absurd hc List.not_mem_nil
  | cons c columns ih =>
    rw [Tied, List.forall_mem_cons, ← orderBy_eq_eq_iff, ← Tied, ← ih]
    exact Ordering.then_eq_eq

theorem orderBy_eq_compareAs (c : Column) :
    orderBy c =
      compareAs c.isText (fun r => text r c) fun r => (number? r c).map Binary64.value := by
  funext a b
  rw [orderBy, orderNumbers_eq_compare]
  rfl

instance (c : Column) : Std.TransCmp (orderBy c) := by
  rw [orderBy_eq_compareAs]
  infer_instance

instance (columns : List Column) : Std.TransCmp (orderByAll columns) :=
  transCmp_lexicographic (fun _ => inferInstance) columns

end Row

/-! ## The rows of an answer -/

namespace RowOrder

section Order

variable [Collator] {o : RowOrder} {a b : Row} {rows sorted : List Row}

/-- A row comes before another: upwards the lesser one, downwards the greater. -/
def Before (o : RowOrder) (a b : Row) : Prop :=
  match o.direction with
  | .up => Row.Precedes o.columns a b
  | .down => Row.Precedes o.columns b a

/-- The same rows with none before one above it, and rows that differ in no column as they were. -/
structure IsSorted (o : RowOrder) (rows sorted : List Row) : Prop where
  perm : sorted.Perm rows
  ordered : sorted.Pairwise fun a b => ¬ o.Before b a
  stable : ∀ a, (sorted.filter fun b => Row.Tied o.columns a b) =
    rows.filter fun b => Row.Tied o.columns a b

theorem compare_down (columns : List Column) :
    (RowOrder.mk .down columns).compare = fun a b => (RowOrder.mk .up columns).compare b a :=
  Direction.directed_down

theorem compare_eq_directed (o : RowOrder) :
    o.compare = o.direction.directed (lexicographic Row.orderBy o.columns) := by
  obtain ⟨direction, columns⟩ := o
  cases direction <;> rfl

instance (o : RowOrder) : Std.TransCmp o.compare := by
  rw [o.compare_eq_directed]
  exact o.direction.transCmp_directed (transCmp_lexicographic (fun _ => inferInstance) o.columns)

theorem compare_eq_lt_iff : o.compare a b = .lt ↔ o.Before a b := by
  unfold compare Before
  cases o.direction with
  | up => exact Row.orderByAll_eq_lt_iff
  | down =>
    show (Row.orderByAll o.columns a b).swap = .lt ↔ Row.Precedes o.columns b a
    rw [Ordering.swap_eq_lt, Std.OrientedCmp.gt_iff_lt]
    exact Row.orderByAll_eq_lt_iff

theorem compare_eq_eq_iff : o.compare a b = .eq ↔ Row.Tied o.columns a b := by
  unfold compare
  cases o.direction with
  | up => exact Row.orderByAll_eq_eq_iff
  | down => exact Ordering.swap_eq_eq.trans Row.orderByAll_eq_eq_iff

theorem isSorted_iff : o.IsSorted rows sorted ↔ IsStableSort o.compare rows sorted := by
  have hgt (a b : Row) : ¬ o.Before b a ↔ o.compare a b ≠ .gt := by
    rw [← compare_eq_lt_iff, ← Std.OrientedCmp.gt_iff_lt]
  have htied (a : Row) : (fun b => decide (Row.Tied o.columns a b)) =
      fun b => decide (o.compare a b = .eq) := by
    funext b
    rw [decide_eq_decide]
    exact compare_eq_eq_iff.symm
  constructor
  · intro ⟨hperm, hordered, hstable⟩
    exact ⟨hperm, hordered.imp fun h => (hgt _ _).mp h, fun a => htied a ▸ hstable a⟩
  · intro ⟨hperm, hordered, hstable⟩
    exact ⟨hperm, hordered.imp fun h => (hgt _ _).mpr h, fun a => htied a ▸ hstable a⟩

end Order

/-- Whatever consistent collator texts compare by, the rows of an answer are sorted by a total
preorder: a row comes before another if it is less in the first column in which they differ, the
other way round downwards. There is one list of the rows in that order with tied rows as they were,
and it is the one shown. So downwards is upwards of the reversed rows, reversed, and rows that are
sorted are left alone. -/
theorem sort_unique [Collator] (o : RowOrder) (rows : List Row) :
    Std.TransCmp o.compare ∧
    (∀ a b, (o.compare a b = .lt ↔ o.Before a b) ∧
      (o.compare a b = .eq ↔ Row.Tied o.columns a b)) ∧
    (∀ sorted, o.IsSorted rows sorted ↔ sorted = o.sort rows) ∧
    (RowOrder.mk .down o.columns).sort rows =
      ((RowOrder.mk .up o.columns).sort rows.reverse).reverse ∧
    o.sort (o.sort rows) = o.sort rows := by
  have hsort (o : RowOrder) (rows : List Row) : IsStableSort o.compare rows (o.sort rows) :=
    isStableSort_mergeSort o.compare rows
  refine ⟨inferInstance, fun a b => ⟨compare_eq_lt_iff, compare_eq_eq_iff⟩, fun sorted => ?_, ?_, ?_⟩
  · rw [isSorted_iff]
    constructor
    · intro h
      exact h.unique (hsort o rows)
    · rintro rfl
      exact hsort o rows
  · have hdown := hsort (RowOrder.mk .down o.columns) rows
    rw [compare_down] at hdown
    exact hdown.unique (hsort (RowOrder.mk .up o.columns) rows.reverse).reverse
  · exact (hsort o (o.sort rows)).unique (hsort o rows).self

end RowOrder

end CampusQuery
