import Mathlib
import CampusQuery.Proofs.Answer.Aggregate
import CampusQuery.Proofs.Answer.Partition
import CampusQuery.Proofs.Answer.Sort
import CampusQuery.Proofs.Number.Integer64

/-!
# Fields as the dataset holds them

A row of an answer stands for a row of the dataset, or for a group of these, in which all agree on
the fields shown. Whatever numbers the dataset holds, the answer tells the rows apart by a field just
as the dataset does, and sorts them by its columns as what the dataset holds is sorted: nothing
depends on how numbers are shown.

* `FieldKey.order` — the order of the rows of a dataset by what they hold in a field.
* `Plan.ShowsStored` — what is to hold of the rows of an answer;
  `Plan.Resolved.showsStored_ofPlace`, `Plan.Resolved.showsStored_ofSummary`, that it does.
* `Plan.numbers_shown_exactly` — what is shown of numbers is exact, and so are the order of rows and
  the difference between groups.
-/

namespace CampusQuery

/-- Numbers are shown alike just if they are equal in value. -/
theorem JsonNumber.ofBinary64_inj {x y : Binary64} :
    ofBinary64 x = ofBinary64 y ↔ x.value = y.value :=
  ⟨fun h => Json.value_eq_of_ofNumber? (congrArg Json.number h),
    fun h => Json.number.inj (Json.ofNumber?_congr h)⟩

/-! ## What the dataset holds -/

section Stored

variable (rows : Array Record)

/-- The number that the row at a place has in a field, in units of `2⁻¹⁰⁷⁴`. -/
def numberAt (f : Field) (place : Nat) : Option ℤ :=
  ((valueAt rows f place).bind Value.number?).map Binary64.value

/-- The text that the row at a place has in a field. -/
def textAt (f : Field) (place : Nat) : Option String :=
  (valueAt rows f place).bind Value.text?

/-- The order of the rows at two places by a field: by the numbers that they have, or by their texts
as readers order them. A row without a number is before all others, and one without a text has the
empty one. -/
def FieldKey.order [Collator] (k : FieldKey) : Nat → Nat → Ordering :=
  compareAs (k.type == .text) (fun place => (textAt rows k.field place).getD "")
    (numberAt rows k.field)

instance [Collator] (k : FieldKey) : Std.TransCmp (k.order rows) :=
  inferInstanceAs (Std.TransCmp (compareAs _ _ _))

end Stored

/-! ## What a row of an answer shows of a field -/

namespace Grouping

variable (v : Option Value)

theorem string?_shown : (shown v).string? = v.bind Value.text? := by
  rcases v with - | x | s <;> rfl

theorem number?_shown :
    (shown v).number?.map Binary64.value = (v.bind Value.number?).map Binary64.value := by
  rcases v with - | x | s
  · rfl
  · exact congrArg some (JsonNumber.value_ofBinary64 x)
  · rfl

theorem isStorable_shown (depth : Nat) : (shown v).IsStorable depth := by
  rcases v with - | x | s
  · cases depth <;> trivial
  · exact JsonNumber.isStorable_ofBinary64 depth x
  · cases depth <;> trivial

end Grouping

namespace Row

/-- What is printed of a row under a name. -/
def printed (row : Row) (name : String) : Option String :=
  (row.lookup name).map Json.compact

/-- A row shows what the row of the dataset at a place has in a field. -/
def ShowsField (rows : Array Record) (row : Row) (k : FieldKey) (place : Nat) : Prop :=
  row.lookup k.key = some (Grouping.shown (valueAt rows k.field place))

namespace ShowsField

variable {rows : Array Record} {a b : Row} {k : FieldKey} {x y : Nat}

theorem printed_eq_iff (ha : a.ShowsField rows k x) (hb : b.ShowsField rows k y) :
    a.printed k.key = b.printed k.key ↔ AgreeOn rows k x y := by
  rw [printed, printed, ha, hb, Option.map_some, Option.map_some, Option.some.injEq,
    Json.compact_inj (Grouping.isStorable_shown _ 0) (Grouping.isStorable_shown _ 0)]
  exact ⟨Grouping.shown_inj, Grouping.shown_congr⟩

/-- Rows are compared by what the dataset holds. -/
theorem orderBy_eq [Collator] (ha : a.ShowsField rows k x) (hb : b.ShowsField rows k y) :
    orderBy (.field k) a b = k.order rows x y := by
  have htext {r : Row} {z : Nat} (h : r.ShowsField rows k z) :
      r.text (.field k) = (textAt rows k.field z).getD "" := by
    rw [text, Column.name, h, Option.bind_some, Grouping.string?_shown]
    rfl
  have hnumber {r : Row} {z : Nat} (h : r.ShowsField rows k z) :
      (r.number? (.field k)).map Binary64.value = numberAt rows k.field z := by
    rw [number?, Column.name, h, Option.bind_some, Grouping.number?_shown]
    rfl
  rw [orderBy_eq_compareAs, FieldKey.order, compareAs, compareAs, htext ha, htext hb, hnumber ha,
    hnumber hb]
  rfl

end ShowsField

end Row

/-! ## The rows of an answer -/

variable {α : Type}

/-- The order of two items in a column, each of which has a place in the dataset and a row in the
answer: by what is at the places for a field, and as the rows show it for a rule. -/
def Column.storedOrder [Collator] (rows : Array Record) (row : α → Row) (place : α → Nat) :
    Column → α → α → Ordering
  | .field k, a, b => k.order rows (place a) (place b)
  | .rule name, a, b => Row.orderBy (.rule name) (row a) (row b)

/-- The order of two items by the first column in which they differ. -/
def RowOrder.storedOrder [Collator] (o : RowOrder) (rows : Array Record) (row : α → Row)
    (place : α → Nat) : α → α → Ordering :=
  o.direction.directed (lexicographic (Column.storedOrder rows row place) o.columns)

instance [Collator] (rows : Array Record) (row : α → Row) (place : α → Nat) (o : RowOrder) :
    Std.TransCmp (o.storedOrder rows row place) := by
  refine o.direction.transCmp_directed (transCmp_lexicographic (fun c => ?_) o.columns)
  cases c with
  | field k => exact inferInstanceAs (Std.TransCmp (Ordering.byKey place (k.order rows)))
  | rule name =>
    exact inferInstanceAs (Std.TransCmp (Ordering.byKey row (Row.orderBy (.rule name))))

namespace Plan

/-- The rows of an answer stand for some items, each with a place in the dataset. They show the
numbers that are at these places, print the same under a key just if the rows of the dataset agree
on it, and are sorted as what the dataset holds: the items stably, and then each is shown. -/
structure ShowsStored [Collator] (p : Plan) (rows : Array Record) (answer : List Row)
    (items : List α) (row : α → Row) (place : α → Nat) : Prop where
  shown : answer = items.map row
  number : ∀ a ∈ items, ∀ k x, .field k ∈ p.columns →
    valueAt rows k.field (place a) = some (.number x) →
      (row a).lookup k.key = some (.number (.ofBinary64 x))
  printed : ∀ a ∈ items, ∀ b ∈ items, ∀ k, .field k ∈ p.columns →
    ((row a).printed k.key = (row b).printed k.key ↔ AgreeOn rows k (place a) (place b))
  sorted : ∀ o ∈ p.order, ∃ inOrder, IsStableSort (o.storedOrder rows row place) items inOrder ∧
    p.sorted answer = inOrder.map row

variable {p : Plan} {rows : Array Record} {places : List Nat} {row : α → Row} {place : α → Nat}
  {items : List α}

/-- Rows that show what the dataset holds in their fields are such: in each column they are compared
as the items are, so the sort of the items is carried to them. -/
theorem Resolved.showsStored [Collator] (hp : p.Resolved)
    (h : ∀ a ∈ items, ∀ k, .field k ∈ p.columns → (row a).ShowsField rows k (place a)) :
    p.ShowsStored rows (items.map row) items row place where
  shown := rfl
  number a ha k x hk hx := by
    have hshown := h a ha k hk
    rw [Row.ShowsField, hx] at hshown
    exact hshown
  printed a ha b hb k hk := (h a ha k hk).printed_eq_iff (h b hb k hk)
  sorted o ho := by
    refine ⟨_, isStableSort_mergeSort (o.storedOrder rows row place) items, ?_⟩
    have hcolumn (a b : α) (ha : a ∈ items) (hb : b ∈ items) (c : Column) (hc : c ∈ o.columns) :
        c.storedOrder rows row place a b = Row.orderBy c (row a) (row b) := by
      have hmem := hp.order o ho c hc
      cases c with
      | field k => exact ((h a ha k hmem).orderBy_eq (h b hb k hmem)).symm
      | rule name => rfl
    have hcompare (a : α) (ha : a ∈ items) (b : α) (hb : b ∈ items) :
        o.storedOrder rows row place a b = o.compare (row a) (row b) := by
      have hsame := lexicographic_congr (hcolumn a b ha hb)
      rw [o.compare_eq_directed]
      unfold RowOrder.storedOrder Direction.directed
      rw [hsame]
    rw [sorted, ho]
    exact (List.map_mergeSort fun a ha b hb => congrArg (· != .gt) (hcompare a ha b hb)).symm

/-- Without groups each row of the answer stands for a row of the dataset, -/
theorem Resolved.showsStored_ofPlace [Collator] [Converter] (hp : p.Resolved)
    (hnone : p.grouping = none) :
    p.ShowsStored rows (p.shown rows places) places (Row.ofPlace p.columns rows) id := by
  have hshown : p.shown rows places = places.map (Row.ofPlace p.columns rows) := by
    rw [Plan.shown, hnone]
  rw [hshown]
  refine hp.showsStored fun place _ k hk => ?_
  rw [Row.ShowsField, Row.ofPlace_eq]
  refine Json.lookup_insertAll ?_ fun entry hentry hname => ?_
  · rw [Row.keys_entryAt]
    exact List.mem_map.mpr ⟨_, hk, rfl⟩
  -- a column of this name is of the field, and no rule is a column
  · obtain ⟨c, hc, rfl⟩ := List.mem_map.mp hentry
    cases c with
    | field k' =>
      have hkey : k'.key = k.key := hname
      have hfield : k'.field = k.field :=
        (hp.columns _ hc).1.unique (hkey ▸ (hp.columns _ hk).1)
      exact congrArg (fun f => Grouping.shown (valueAt rows f place)) hfield
    | rule name =>
      obtain ⟨g, hg, -⟩ := hp.columns _ hc
      rw [hnone] at hg
      cases hg

/-- and with groups each stands for the first row of a group. -/
theorem Resolved.showsStored_ofSummary [Collator] [Converter] (hp : p.Resolved) {g : Grouping}
    (hg : g ∈ p.grouping) :
    p.ShowsStored rows (p.shown rows places) (partition rows g.keys places)
      (fun group => Row.ofSummary p.columns (g.summary rows group)) (fun group => group.headD 0) := by
  have hshown : p.shown rows places = (partition rows g.keys places).map fun group =>
      Row.ofSummary p.columns (g.summary rows group) := by
    rw [Plan.shown, hg]
    exact List.map_map
  rw [hshown]
  refine hp.showsStored fun group hgroup k hk => ?_
  have hfirst := head?_of_mem_partition rows hgroup
  have hsummary : (g.summary rows group).lookup k.key = _ :=
    Grouping.lookup_summary (hp.namesApart hg) hfirst ((hp.columns _ hk).2 g hg)
  rw [Row.ShowsField]
  refine Json.lookup_insertAll ?_ fun entry hentry hname => ?_
  · rw [List.map_map]
    exact List.mem_map.mpr ⟨_, hk, rfl⟩
  · obtain ⟨c, -, rfl⟩ := List.mem_map.mp hentry
    dsimp only at hname ⊢
    rw [hname, hsummary, Option.getD_some]

/-- Rows of one group agree with its first, and no two groups print the same under all keys. -/
theorem Resolved.nodup_printed [Converter] (hp : p.Resolved) {g : Grouping} (hg : g ∈ p.grouping) :
    (∀ group ∈ partition rows g.keys places, ∀ place ∈ group, ∀ k ∈ g.keys,
      AgreeOn rows k place (group.headD 0)) ∧
    ((∀ k ∈ g.keys, .field k ∈ p.columns) → ((partition rows g.keys places).map fun group =>
      g.keys.map fun k => (Row.ofSummary p.columns (g.summary rows group)).printed k.key).Nodup) := by
  have hclasses := areClasses_partition rows g.keys places
  have hfirst {group : List Nat} (h : group ∈ partition rows g.keys places) :
      group.headD 0 ∈ group := List.mem_of_head? (head?_of_mem_partition rows h)
  refine ⟨fun group hgroup place hplace => ?_, fun hcolumns => ?_⟩
  · have hsame := hclasses.eq_filter hgroup (hfirst hgroup)
    rw [hsame, List.mem_filter, decide_eq_true_eq] at hplace
    exact tupleAt_eq_iff.mp hplace.2
  · refine hclasses.nodup.map_on fun group hgroup group' hgroup' heq => ?_
    refine hclasses.eq_of_mem hgroup hgroup' (hfirst hgroup) (hfirst hgroup') ?_
    refine tupleAt_eq_iff.mpr fun k hk => ?_
    exact ((hp.showsStored_ofSummary hg).printed group hgroup group' hgroup' k (hcolumns k hk)).mp
      (List.map_inj_left.mp heq k hk)

/-- What is shown of a number is the number, an integer just if it is whole and less than `2 ^ 63` in
size: the 64-bit integer to which such a number is converted is the number, though to tell them from
the rest they are compared with a bound that is rounded itself. So numbers are shown alike just if
they are equal in value, and are read back in their order. The rows of an answer to any query show
what the dataset holds, be it of single rows or of groups; they are sorted as that, and no two
groups print the same. -/
theorem numbers_shown_exactly [Collator] [Converter] :
    (∀ x : Binary64,
      JsonNumber.ofBinary64 x =
          (if x.fraction = 0 ∧ |x.value| < (Binary64.ofInt Int64.maxValue.toInt).value then
            .integer x.toInt64.toInt
          else .float x) ∧
        (JsonNumber.ofBinary64 x).IsExact x) ∧
    (∀ x y : Binary64,
      (JsonNumber.ofBinary64 x = .ofBinary64 y ↔ x.value = y.value) ∧
        (JsonNumber.ofBinary64 x).toBinary64.order (JsonNumber.ofBinary64 y).toBinary64 =
          x.order y) ∧
    ∀ known raw p, Plan.ofJson known raw = .ok p → ∀ rows places,
      (p.grouping = none →
        p.ShowsStored rows (p.shown rows places) places (Row.ofPlace p.columns rows) id) ∧
      ∀ g ∈ p.grouping,
        let groups := partition rows g.keys places
        let row (group : List Nat) := Row.ofSummary p.columns (g.summary rows group)
        p.ShowsStored rows (p.shown rows places) groups row (fun group => group.headD 0) ∧
        (∀ group ∈ groups, ∀ place ∈ group, ∀ k ∈ g.keys, AgreeOn rows k place (group.headD 0)) ∧
        ((∀ k ∈ g.keys, .field k ∈ p.columns) →
          (groups.map fun group => g.keys.map fun k => (row group).printed k.key).Nodup) := by
  refine ⟨fun x => ⟨JsonNumber.ofBinary64_eq_ite x, JsonNumber.isExact_ofBinary64 x⟩,
    fun x y => ⟨JsonNumber.ofBinary64_inj, JsonNumber.order_toBinary64 x y⟩,
    fun known raw p hread rows places => ?_⟩
  have hp := (ofJson_eq_ok_iff.mp hread).2.resolved
  exact ⟨hp.showsStored_ofPlace, fun g hg => ⟨hp.showsStored_ofSummary hg, hp.nodup_printed hg⟩⟩

/-- Sections whose averages are `2 ^ 63`, the number before it and `-0`: the last two are shown as
integers, and no two of the groups print the same. -/
theorem numbers_shown_exactly_bound :
    let bound : Binary64 := ⟨false, 2 ^ 52, 1085, by decide⟩
    let below : Binary64 := ⟨false, 2 ^ 53 - 1, 1084, by decide⟩
    let rows := #[Grouping.numberedSection "cs" "310" bound,
      Grouping.numberedSection "cs" "320" below,
      Grouping.numberedSection "cs" "330" Binary64.zero.neg]
    let known : String → Option Kind := fun _ => some .courses
    let options : Json :=
      .object [("COLUMNS", .array [.string "a_avg"]), ("ORDER", .string "a_avg")]
    let raw : Json := .object [("WHERE", .object []), ("OPTIONS", options)]
    let grouped : Json := .object [("WHERE", .object []), ("OPTIONS", options),
      ("TRANSFORMATIONS", .object [("GROUP", .array [.string "a_avg"]), ("APPLY", .array [])])]
    let avg : FieldKey := ⟨"a_avg", .avg⟩
    let g : Grouping := ⟨[avg], []⟩
    let p : Plan := ⟨"a", .courses, .all, none, [.field avg], some ⟨.up, [.field avg]⟩⟩
    let q : Plan := { p with grouping := some g }
    JsonNumber.ofBinary64 bound = .float bound ∧
      JsonNumber.ofBinary64 below = .integer (2 ^ 63 - 1024) ∧
      below.toInt64.toInt = 2 ^ 63 - 1024 ∧
      JsonNumber.ofBinary64 Binary64.zero.neg = .integer 0 ∧
      Plan.ofJson known raw = .ok p ∧ p.grouping = none ∧
      p.ShowsStored rows (p.shown rows [0, 1, 2]) [0, 1, 2] (Row.ofPlace p.columns rows) id ∧
      Plan.ofJson known grouped = .ok q ∧ g ∈ q.grouping ∧ (∀ k ∈ g.keys, .field k ∈ q.columns) ∧
      ((partition rows g.keys [0, 1, 2]).map fun group =>
        g.keys.map fun k => (Row.ofSummary q.columns (g.summary rows group)).printed k.key).Nodup := by
  intro bound below rows known options raw grouped avg g p q
  obtain ⟨hnumber, -, hplan⟩ := numbers_shown_exactly
  have hread : Plan.ofJson known raw = .ok p := rfl
  have hgrouped : Plan.ofJson known grouped = .ok q := rfl
  have hg : g ∈ q.grouping := rfl
  have hcolumns : ∀ k ∈ g.keys, .field k ∈ q.columns := by decide
  have hbelow : JsonNumber.ofBinary64 below = .integer (2 ^ 63 - 1024) := by decide +kernel
  obtain ⟨-, -, hnodup⟩ := (hplan known grouped q hgrouped rows [0, 1, 2]).2 g hg
  exact ⟨by decide +kernel, hbelow, (hnumber below).2.converted _ hbelow, by decide +kernel, hread,
    rfl, (hplan known raw p hread rows [0, 1, 2]).1 rfl, hgrouped, hg, hcolumns, hnodup hcolumns⟩

end Plan

end CampusQuery
