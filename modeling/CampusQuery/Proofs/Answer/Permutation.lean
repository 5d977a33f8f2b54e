import Mathlib
import CampusQuery.Answer.Answer
import CampusQuery.Proofs.Answer.Aggregate
import CampusQuery.Proofs.Answer.Columns
import CampusQuery.Proofs.Answer.Verdict

/-!
# The order of the rows of a dataset

A query does not look at the order in which the rows of a dataset stand. In another order the filter
chooses the same rows, they make up the same groups, and each group has the same rows. The first row
of a group may be another, but it shows the same values; so whatever an answer says of a group is the
same, but for sums and means, which are taken in decimals one number after the other.

* `Registry.Permuted` — the same datasets with their rows in other orders.
* `Plan.shown_perm_of_perm` — the rows to show are the same in another order.
* `Plan.AddsUp`, `Plan.IsModerate` — when sums and means are the same.
* `Registry.query_permuted` — the outcome of a query is the same up to the order of the rows.
-/

namespace CampusQuery

/-! ## Rows in place of places -/

theorem map_eq_map_of_map_some {α β γ : Type} {f : α → Option β} {a : α → γ} {b : β → γ}
    (hab : ∀ x y, f x = some y → a x = b y) {xs : List α} {ys : List β}
    (h : xs.map f = ys.map some) : xs.map a = ys.map b := by
  induction xs generalizing ys with
  | nil =>
    cases ys with
    | nil => rfl
    | cons => cases h
  | cons x xs ih =>
    cases ys with
    | nil => cases h
    | cons y ys =>
      obtain ⟨hx, hxs⟩ := List.cons.inj h
      rw [List.map_cons, List.map_cons, hab x y hx, ih hxs]

/-- The columns of a row. -/
def Row.ofRecord (columns : List Column) (r : Record) : Row :=
  Json.insertAll (columns.map fun
    | .field k => (k.key, Grouping.shown (r.get? k.field))
    | .rule name => (name, .null))

theorem Row.ofPlace_eq_ofRecord {rows : Array Record} {place : Nat} {r : Record}
    (h : rows[place]? = some r) (columns : List Column) :
    ofPlace columns rows place = ofRecord columns r := by
  refine congrArg Json.insertAll (List.map_congr_left fun c _ => ?_)
  cases c with
  | field k => exact congrArg (fun x => (k.key, Grouping.shown x)) (Filter.valueAt_eq h k.field)
  | rule name => rfl

section Groups

variable {rows : Array Record} {group : List Nat} {rs rs' : List Record}

theorem valuesOf_eq (h : group.map (rows[·]?) = rs.map some) (k : FieldKey) :
    Grouping.valuesOf rows group k = rs.map fun r => r.get? k.field :=
  map_eq_map_of_map_some (fun _ _ hr => Filter.valueAt_eq hr k.field) h

/-- What is said of some rows: the values of the keys in the first of them, and those of the rules. -/
def Grouping.ofRecords [Converter] (g : Grouping) (rs : List Record) : Row :=
  let keys :=
    match rs.head? with
    | some first => g.keys.map fun k => (k.key, shown (first.get? k.field))
    | none => []
  Json.insertAll (keys ++
    g.rules.map fun r => (r.name, r.aggregate.value (rs.map fun x => x.get? r.key.field)))

theorem Grouping.summary_eq_ofRecords [Converter] (g : Grouping)
    (h : group.map (rows[·]?) = rs.map some) : g.summary rows group = g.ofRecords rs := by
  unfold summary ofRecords
  simp only [valuesOf_eq h]
  cases group with
  | nil =>
    obtain rfl : rs = [] := List.map_eq_nil_iff.mp h.symm
    rfl
  | cons first group =>
    cases rs with
    | nil => cases h
    | cons r rs =>
      have hfirst := (List.cons.inj h).1
      simp only [List.head?_cons, Filter.valueAt_eq hfirst]

/-- Of the same rows in another order the same is said, if they agree on the keys. -/
theorem Grouping.ofRecords_of_perm [Converter] {g : Grouping} (hperm : rs.Perm rs')
    (hagree : ∀ r ∈ rs, ∀ r' ∈ rs', g.tuple r = g.tuple r')
    (hdecimals : ∀ r ∈ g.rules, r.aggregate.IsDecimal →
      Aggregate.AddUp (Aggregate.numbers (rs.map fun x => x.get? r.key.field)) ∧
        r.aggregate.IsModerate (rs.map fun x => x.get? r.key.field)) :
    g.ofRecords rs = g.ofRecords rs' := by
  have hrules : (g.rules.map fun r =>
        (r.name, r.aggregate.value (rs.map fun x => x.get? r.key.field))) =
      g.rules.map fun r => (r.name, r.aggregate.value (rs'.map fun x => x.get? r.key.field)) :=
    List.map_congr_left fun r hr =>
      congrArg (r.name, ·) (Aggregate.value_eq_of_perm (hperm.map _) (hdecimals r hr))
  unfold ofRecords
  rw [hrules]
  cases rs with
  | nil =>
    obtain rfl := hperm.nil_eq.symm
    rfl
  | cons r rs =>
    cases rs' with
    | nil => exact absurd hperm.eq_nil (List.cons_ne_nil r rs)
    | cons r' rs' =>
      -- the first rows may be two, but they agree on the keys
      have htuple := hagree r List.mem_cons_self r' List.mem_cons_self
      refine congrArg (fun keys => Json.insertAll (keys ++ _)) (List.map_congr_left fun k hk => ?_)
      rw [shown_congr (List.map_inj_left.mp htuple k hk)]

end Groups

namespace Plan

variable {p : Plan} {rows rows' : Array Record} {limit : Nat}

/-! ## The rows that are chosen -/

theorem chosen_perm (p : Plan) (h : rows.toList.Perm rows'.toList) :
    (p.chosen rows).Perm (p.chosen rows') :=
  h.filter _

theorem expected_of_perm (p : Plan) (h : rows.toList.Perm rows'.toList) :
    p.expected rows = p.expected rows' := by
  have hchosen := p.chosen_perm h
  unfold expected
  cases p.grouping with
  | none => exact hchosen.length_eq
  | some g => exact congrArg Finset.card (List.toFinset_eq_of_perm _ _ (hchosen.map g.tuple))

/-- The rows of the groups of a plan: for every tuple of the rows that are chosen, those of these
that have the tuple. -/
theorem exists_tuples (p : Plan) (rows : Array Record) (g : Grouping) :
    ∃ tuples : List (List (Option (Int ⊕ String))), tuples.Nodup ∧
      (∀ t, t ∈ tuples ↔ t ∈ (p.chosen rows).map g.tuple) ∧
      partition rows g.keys (p.matched rows) =
        tuples.map (fun t => (p.matched rows).filter fun place => tupleAt rows g.keys place = t) ∧
      ∀ t, ((p.matched rows).filter fun place => tupleAt rows g.keys place = t).map (rows[·]?) =
        ((p.chosen rows).filter fun r => g.tuple r = t).map some := by
  obtain ⟨tuples, hnodup, hmem, hgroups⟩ :=
    (areClasses_partition rows g.keys (p.matched rows)).exists_said
  rw [map_tupleAt_matched] at hmem
  refine ⟨tuples, hnodup, hmem, hgroups, fun t => ?_⟩
  have htuple (place : Nat) : tupleAt rows g.keys place =
      g.keys.map fun k => (rows[place]?.bind fun r => r.get? k.field).map Value.denoted := rfl
  calc ((p.matched rows).filter fun place => tupleAt rows g.keys place = t).map (rows[·]?)
    _ = ((p.matched rows).map (rows[·]?)).filter fun x =>
          g.keys.map (fun k => (x.bind fun r => r.get? k.field).map Value.denoted) = t := by
      simp only [htuple, List.filter_map]
      rfl
    _ = ((p.chosen rows).filter fun r => g.tuple r = t).map some := by
      rw [map_getElem?_matched, List.filter_map]
      rfl

/-! ## Sums and means -/

/-- Something holds of the values of every sum and every mean that a plan takes of a group. -/
def OfDecimals (p : Plan) (rows : Array Record)
    (holds : Aggregate → List (Option Value) → Prop) : Prop :=
  ∀ g ∈ p.grouping, ∀ group ∈ partition rows g.keys (p.matched rows), ∀ r ∈ g.rules,
    r.aggregate.IsDecimal → holds r.aggregate (Grouping.valuesOf rows group r.key)

/-- The numbers of every sum and every mean add up exactly in decimals. -/
def AddsUp (p : Plan) (rows : Array Record) : Prop :=
  p.OfDecimals rows fun _ values => Aggregate.AddUp (Aggregate.numbers values)

/-- No sum and no mean is beyond `2 ^ 45`. -/
def IsModerate (p : Plan) (rows : Array Record) : Prop :=
  p.OfDecimals rows Aggregate.IsModerate

/-- A plan without sums and means. -/
def TakesNoDecimals (p : Plan) : Prop :=
  ∀ g ∈ p.grouping, ∀ r ∈ g.rules, ¬ r.aggregate.IsDecimal

theorem TakesNoDecimals.ofDecimals (h : p.TakesNoDecimals) (rows : Array Record)
    (holds : Aggregate → List (Option Value) → Prop) : p.OfDecimals rows holds :=
  fun g hg _ _ r hr hdecimal => absurd hdecimal (h g hg r hr)

/-! ## The rows to show -/

/-- The groups of a dataset with its rows in another order are summed up alike, in another order. -/
theorem summaries_perm_of_perm [Converter] {g : Grouping} (hg : g ∈ p.grouping)
    (h : rows.toList.Perm rows'.toList) (hadds : p.AddsUp rows) (hmoderate : p.IsModerate rows) :
    (g.summaries rows (p.matched rows)).Perm (g.summaries rows' (p.matched rows')) := by
  obtain ⟨tuples, hnodup, hmem, hgroups, hrows⟩ := p.exists_tuples rows g
  obtain ⟨tuples', hnodup', hmem', hgroups', hrows'⟩ := p.exists_tuples rows' g
  have hchosen := p.chosen_perm h
  have htuples : tuples.Perm tuples' := by
    refine (List.perm_ext_iff_of_nodup hnodup hnodup').mpr fun t => ?_
    rw [hmem, hmem', (hchosen.map g.tuple).mem_iff]
  -- each tuple has groups of the same rows on both sides
  have hsame : ∀ t ∈ tuples,
      g.summary rows ((p.matched rows).filter fun place => tupleAt rows g.keys place = t) =
        g.summary rows' ((p.matched rows').filter fun place => tupleAt rows' g.keys place = t) := by
    intro t ht
    have hgroup : ((p.matched rows).filter fun place => tupleAt rows g.keys place = t) ∈
        partition rows g.keys (p.matched rows) := by
      rw [hgroups]
      exact List.mem_map_of_mem ht
    rw [g.summary_eq_ofRecords (hrows t), g.summary_eq_ofRecords (hrows' t)]
    refine Grouping.ofRecords_of_perm (hchosen.filter _) ?_ ?_
    · intro r hr r' hr'
      have hr := of_decide_eq_true (List.mem_filter.mp hr).2
      have hr' := of_decide_eq_true (List.mem_filter.mp hr').2
      exact hr.trans hr'.symm
    · intro r hr hdecimal
      rw [← valuesOf_eq (hrows t)]
      exact ⟨hadds g hg _ hgroup r hr hdecimal, hmoderate g hg _ hgroup r hr hdecimal⟩
  rw [Grouping.summaries, Grouping.summaries, hgroups, hgroups', List.map_map, List.map_map]
  exact (List.Perm.of_eq (List.map_congr_left hsame)).trans (htuples.map _)

theorem shown_perm_of_perm [Converter] (h : rows.toList.Perm rows'.toList) (hadds : p.AddsUp rows)
    (hmoderate : p.IsModerate rows) :
    (p.shown rows (p.matched rows)).Perm (p.shown rows' (p.matched rows')) := by
  unfold shown
  cases hg : p.grouping with
  | none =>
    have hplaces (rows : Array Record) : (p.matched rows).map (Row.ofPlace p.columns rows) =
        (p.chosen rows).map (Row.ofRecord p.columns) :=
      map_eq_map_of_map_some (fun _ _ hr => Row.ofPlace_eq_ofRecord hr p.columns)
        map_getElem?_matched
    simp only [hplaces]
    exact (p.chosen_perm h).map _
  | some g => exact (summaries_perm_of_perm hg h hadds hmoderate).map _

end Plan

/-! ## Outcomes -/

/-- Two results that are the same but for what the rows hold. -/
def AlikeUpToRows : Except QueryError Answer → Except QueryError Answer → Prop
  | .ok a, .ok b =>
    a.rows.length = b.rows.length ∧ a.scanned = b.scanned ∧ a.matched = b.matched
  | .error e, .error e' => e = e'
  | _, _ => False

namespace Plan

variable {p : Plan} {rows rows' : Array Record}

/-- In another order of the rows there is the same error, or an answer that differs in the rows to
show alone. -/
theorem outcome_of_perm [Collator] [Converter] (p : Plan) (h : rows.toList.Perm rows'.toList)
    (limit : Nat) :
    (∃ e, (p.outcome rows limit).result = .error e ∧ (p.outcome rows' limit).result = .error e) ∨
      ∃ n m, (p.outcome rows limit).result =
          .ok ⟨p.sorted (p.shown rows (p.matched rows)), n, m⟩ ∧
        (p.outcome rows' limit).result = .ok ⟨p.sorted (p.shown rows' (p.matched rows')), n, m⟩ := by
  have hexpected := p.expected_of_perm h
  have hscanned : rows.size = rows'.size := by simpa using h.length_eq
  have hmatched := (p.chosen_perm h).length_eq
  rcases Nat.lt_or_ge limit (p.expected rows) with hlt | hle
  · refine .inl ⟨_, outcome_of_lt hlt, ?_⟩
    rw [outcome_of_lt (hexpected ▸ hlt), hexpected]
  · refine .inr ⟨_, _, outcome_of_le hle, ?_⟩
    rw [outcome_of_le (hexpected ▸ hle), hscanned, hmatched]

theorem outcome_alike_rows [Collator] [Converter] (p : Plan) (h : rows.toList.Perm rows'.toList)
    (limit : Nat) : AlikeUpToRows (p.outcome rows limit).result (p.outcome rows' limit).result := by
  rcases p.outcome_of_perm h limit with ⟨e, he, he'⟩ | ⟨n, m, hok, hok'⟩
  · rw [he, he']
    exact rfl
  · rw [hok, hok']
    refine ⟨?_, rfl, rfl⟩
    rw [length_sorted_shown, length_sorted_shown, p.expected_of_perm h]

theorem outcome_alike_of_perm [Collator] [Converter] (h : rows.toList.Perm rows'.toList)
    (hadds : p.AddsUp rows) (hmoderate : p.IsModerate rows) (limit : Nat) :
    AlikeUpToOrder (p.outcome rows limit).result (p.outcome rows' limit).result := by
  rcases p.outcome_of_perm h limit with ⟨e, he, he'⟩ | ⟨n, m, hok, hok'⟩
  · rw [he, he']
    exact rfl
  · rw [hok, hok']
    refine ⟨?_, rfl, rfl⟩
    exact ((sorted_perm _).trans (shown_perm_of_perm h hadds hmoderate)).trans (sorted_perm _).symm

end Plan

/-! ## Registries -/

/-- Two datasets of one id and kind with the same rows, in some order. -/
structure Dataset.Permuted (d d' : Dataset) : Prop where
  id : d.id = d'.id
  kind : d.kind = d'.kind
  rows : d.rows.toList.Perm d'.rows.toList

namespace Registry

variable {r r' : Registry} {limit : Nat} {raw : Json} {p : Plan}

/-- Two registries with the same datasets, each with its rows in some order. -/
def Permuted (r r' : Registry) : Prop :=
  List.Forall₂ Dataset.Permuted r.datasets r'.datasets

theorem Permuted.get?_cases (h : r.Permuted r') (id : String) :
    (r.get? id = none ∧ r'.get? id = none) ∨
      ∃ d d', r.get? id = some d ∧ r'.get? id = some d' ∧ d.Permuted d' := by
  unfold Permuted at h
  unfold Registry.get?
  generalize r.datasets = ds at *
  generalize r'.datasets = ds' at *
  induction h with
  | nil => exact .inl ⟨rfl, rfl⟩
  | @cons d d' ds ds' hd _ ih =>
    rw [List.find?_cons, List.find?_cons, ← hd.id]
    cases d.id == id with
    | true => exact .inr ⟨d, d', rfl, rfl, hd⟩
    | false => exact ih

theorem Permuted.kindOf (h : r.Permuted r') : r'.kindOf = r.kindOf := by
  funext id
  unfold Registry.kindOf
  rcases h.get?_cases id with ⟨hd, hd'⟩ | ⟨d, d', hd, hd', hpermuted⟩
  · rw [hd, hd']
  · rw [hd, hd']
    exact congrArg some hpermuted.kind.symm

/-- What becomes of a query, where its dataset is of the same rows. -/
theorem query_congr_of_permuted [Collator] [Converter] (h : r.Permuted r')
    {alike : Except QueryError Answer → Except QueryError Answer → Prop}
    (hrefl : ∀ e, alike (.error e) (.error e))
    (houtcome : ∀ p d d', Plan.ofJson r.kindOf raw = .ok p → r.get? p.dataset = some d →
      d.Permuted d' → alike (p.outcome d.rows limit).result (p.outcome d'.rows limit).result) :
    alike (r.query limit raw).result (r'.query limit raw).result := by
  cases hread : Plan.ofJson r.kindOf raw with
  | error cause =>
    rw [query_of_error hread, query_of_error (h.kindOf ▸ hread)]
    exact hrefl _
  | ok p =>
    have hread' : Plan.ofJson r'.kindOf raw = .ok p := h.kindOf ▸ hread
    rcases h.get?_cases p.dataset with ⟨hd, hd'⟩ | ⟨d, d', hd, hd', hpermuted⟩
    · rw [query_of_absent hread hd, query_of_absent hread' hd']
      exact hrefl _
    · rw [query_of_present hread hd, query_of_present hread' hd']
      exact houtcome p d d' hread hd hpermuted

/-- With the rows of its datasets in other orders a registry has for every query the same error, or
an answer of as many rows, with as many rows looked at and as many chosen. The rows of the answer
are the same in some order, if the query takes no sums and no means; and if it does, where the
numbers of each add up in decimals and no sum and no mean is beyond `2 ^ 45`. -/
theorem query_permuted [Collator] [Converter] (h : r.Permuted r') (limit : Nat) (raw : Json) :
    AlikeUpToRows (r.query limit raw).result (r'.query limit raw).result ∧
    ((∀ p, Plan.ofJson r.kindOf raw = .ok p → p.TakesNoDecimals) →
      AlikeUpToOrder (r.query limit raw).result (r'.query limit raw).result) ∧
    ((∀ p d, Plan.ofJson r.kindOf raw = .ok p → r.get? p.dataset = some d →
        p.AddsUp d.rows ∧ p.IsModerate d.rows) →
      AlikeUpToOrder (r.query limit raw).result (r'.query limit raw).result) := by
  refine ⟨?_, fun hnone => ?_, fun hexact => ?_⟩
  · exact query_congr_of_permuted h (fun _ => rfl) fun p d d' _ _ hd =>
      p.outcome_alike_rows hd.rows limit
  · refine query_congr_of_permuted h (fun _ => rfl) fun p d d' hread _ hd => ?_
    have hdecimals := (hnone p hread).ofDecimals d.rows
    exact Plan.outcome_alike_of_perm hd.rows (hdecimals _) (hdecimals _) limit
  · refine query_congr_of_permuted h (fun _ => rfl) fun p d d' hread hget hd => ?_
    obtain ⟨hadds, hmoderate⟩ := hexact p d hread hget
    exact Plan.outcome_alike_of_perm hd.rows hadds hmoderate limit

/-! ### One group -/

/-- A section with an average. -/
def gradedSection (average : Binary64) : Record :=
  ⟨.courses, [.text "cs", .text "", .text "", .text "", .text "", .number average,
    .number .zero, .number .zero, .number .zero, .number .zero], rfl⟩

/-- A dataset of sections of one department. -/
def gradedSections (averages : List Binary64) : Dataset :=
  ⟨"a", .courses, (averages.map gradedSection).toArray, ⟨0, 0, 0⟩⟩

/-- A query for the sum of the averages in each department. -/
def sumQuery : Json :=
  .object [("WHERE", .object []),
    ("OPTIONS", .object [("COLUMNS", .array [.string "a_dept", .string "sum"])]),
    ("TRANSFORMATIONS", .object [("GROUP", .array [.string "a_dept"]),
      ("APPLY", .array [.object [("sum", .object [("SUM", .string "a_avg")])]])])]

/-- The groups and sums of `sumQuery`. -/
def sumGrouping : Grouping :=
  ⟨[⟨"a_dept", .dept⟩], [⟨"sum", .sum, ⟨"a_avg", .avg⟩⟩]⟩

/-- The plan of `sumQuery`. -/
def sumPlan : Plan :=
  ⟨"a", .courses, .all, some sumGrouping, [.field ⟨"a_dept", .dept⟩, .rule "sum"], none⟩

theorem permuted_gradedSections {xs ys : List Binary64} (h : xs.Perm ys) :
    (⟨[gradedSections xs]⟩ : Registry).Permuted ⟨[gradedSections ys]⟩ :=
  .cons ⟨rfl, rfl, by simpa [gradedSections] using h.map gradedSection⟩ .nil

theorem ofJson_sumQuery (xs : List Binary64) :
    Plan.ofJson (⟨[gradedSections xs]⟩ : Registry).kindOf sumQuery = .ok sumPlan := rfl

theorem partition_gradedSections (x y z : Binary64) :
    partition (gradedSections [x, y, z]).rows sumGrouping.keys
      (sumPlan.matched (gradedSections [x, y, z]).rows) = [[0, 1, 2]] := by
  have hparts : partsBy (classAt (gradedSections [x, y, z]).rows .dept) [0, 1, 2] = [[0, 1, 2]] := by
    rw [partsBy_eq]
    rfl
  show [[0, 1, 2]].flatMap (partsBy (classAt (gradedSections [x, y, z]).rows .dept)) = _
  rw [List.flatMap_singleton, hparts]

/-- What holds of the values of the one group holds of all sums and means. -/
theorem ofDecimals_gradedSections {x y z : Binary64}
    {holds : Aggregate → List (Option Value) → Prop}
    (h : holds .sum [some (.number x), some (.number y), some (.number z)]) :
    sumPlan.OfDecimals (gradedSections [x, y, z]).rows holds := by
  rintro _ ⟨⟩ group hgroup r hr -
  rw [partition_gradedSections, List.mem_singleton] at hgroup
  obtain rfl := List.mem_singleton.mp hr
  rw [hgroup]
  exact h

theorem query_gradedSections [Collator] [Converter] (x y z : Binary64) :
    ((⟨[gradedSections [x, y, z]]⟩ : Registry).query 5 sumQuery).result =
      .ok ⟨[[("a_dept", .string "cs"), ("sum", Aggregate.shown (Aggregate.total [x, y, z]))]], 3, 3⟩ := by
  have hpresent : (⟨[gradedSections [x, y, z]]⟩ : Registry).query 5 sumQuery =
      sumPlan.outcome (gradedSections [x, y, z]).rows 5 :=
    query_of_present (ofJson_sumQuery _) rfl
  have hshown : sumPlan.shown (gradedSections [x, y, z]).rows
      (sumPlan.matched (gradedSections [x, y, z]).rows) =
        [[("a_dept", .string "cs"), ("sum", Aggregate.shown (Aggregate.total [x, y, z]))]] := by
    show (sumGrouping.summaries _ _).map _ = _
    rw [Grouping.summaries, partition_gradedSections]
    rfl
  rw [hpresent, Plan.outcome]
  dsimp only
  rw [hshown]
  rfl

/-- A quarter. -/
def quarter : Binary64 := ⟨false, 2 ^ 52, 1020, by decide⟩

/-- The number written `35184436524369.2`, a little above `2 ^ 45`. -/
def large : Binary64 := ⟨false, 4503607875119258, 1067, by decide⟩

theorem written_quarter : quarter.written = 1 / 4 := by
  have hshortest : quarter.shortest NumberStyle.plain.tie = ⟨25, -2⟩ := by decide +kernel
  rw [Binary64.written, hshortest]
  norm_num [signed, quarter]

theorem written_quarter_neg : quarter.neg.written = -(1 / 4) := by
  have hshortest : quarter.neg.shortest NumberStyle.plain.tie = ⟨25, -2⟩ := by decide +kernel
  rw [Binary64.written, hshortest]
  norm_num [signed, quarter, Binary64.neg]

theorem written_large : large.written = 351844365243692 / 10 := by
  have hshortest : large.shortest NumberStyle.plain.tie = ⟨351844365243692, -1⟩ := by
    decide +kernel
  rw [Binary64.written, hshortest]
  norm_num [signed, large]

/-- A quarter more and a quarter less, in whatever order, leave a sum as it is. -/
theorem query_permuted_quarters :
    let r : Registry := ⟨[gradedSections [quarter, quarter.neg, quarter]]⟩
    let r' : Registry := ⟨[gradedSections [quarter, quarter, quarter.neg]]⟩
    r.Permuted r' ∧ Plan.ofJson r.kindOf sumQuery = .ok sumPlan ∧
      AlikeUpToRows (r.query 5 sumQuery).result (r'.query 5 sumQuery).result ∧
      AlikeUpToOrder (r.query 5 sumQuery).result (r'.query 5 sumQuery).result := by
  intro r r'
  have hpermuted : r.Permuted r' := permuted_gradedSections (.cons _ (.swap _ _ _))
  obtain ⟨hrows, -, horder⟩ := query_permuted hpermuted 5 sumQuery
  refine ⟨hpermuted, ofJson_sumQuery _, hrows, horder ?_⟩
  rintro _ _ ⟨⟩ ⟨⟩
  refine ⟨ofDecimals_gradedSections ⟨2, by decide, by decide +kernel, ?_⟩,
    ofDecimals_gradedSections ?_⟩
  · show (|quarter.written| + (|quarter.neg.written| + (|quarter.written| + 0))) * 10 ^ 2 < 2 ^ 96
    rw [written_quarter, written_quarter_neg]
    norm_num
  · show |quarter.written + (quarter.neg.written + (quarter.written + 0))| ≤ 2 ^ 45 * 1
    rw [written_quarter, written_quarter_neg]
    norm_num

/-- Above `2 ^ 45` the order of the rows can show. A quarter more and a quarter less add up to a
decimal without places if they come first, and leave two places if they come last; the sum is then
one step of the format too large. -/
theorem query_of_permuted_large :
    let d := gradedSections [quarter, quarter.neg, large]
    let r : Registry := ⟨[d]⟩
    let r' : Registry := ⟨[gradedSections [large, quarter, quarter.neg]]⟩
    r.Permuted r' ∧ Plan.ofJson r.kindOf sumQuery = .ok sumPlan ∧
      r.get? sumPlan.dataset = some d ∧ sumPlan.AddsUp d.rows ∧
      ¬ AlikeUpToOrder (r.query 5 sumQuery).result (r'.query 5 sumQuery).result := by
  intro d r r'
  refine ⟨permuted_gradedSections ((List.Perm.cons _ (.swap _ _ _)).trans (.swap _ _ _)),
    ofJson_sumQuery _, rfl, ?_, ?_⟩
  · refine ofDecimals_gradedSections ⟨2, by decide, by decide +kernel, ?_⟩
    show (|quarter.written| + (|quarter.neg.written| + (|large.written| + 0))) * 10 ^ 2 < 2 ^ 96
    rw [written_quarter, written_quarter_neg, written_large]
    norm_num
  · have hsums : Aggregate.shown (Aggregate.total [quarter, quarter.neg, large]) ≠
        Aggregate.shown (Aggregate.total [large, quarter, quarter.neg]) := by
      rw [Aggregate.shown, Aggregate.shown, Json.ofNumber?, Json.ofNumber?, ne_eq,
        Json.number.injEq]
      decide +kernel
    rw [query_gradedSections, query_gradedSections]
    rintro ⟨hrows, -, -⟩
    have hrow := List.singleton_perm_singleton.mp hrows
    simp only [List.cons.injEq, Prod.mk.injEq, true_and, and_true] at hrow
    exact hsums hrow

end Registry

end CampusQuery
