import Mathlib
import CampusQuery.Answer.Answer
import CampusQuery.Proofs.Answer.Dependence
import CampusQuery.Proofs.Answer.Group
import CampusQuery.Proofs.Entries

/-!
# What becomes of a query

A query passes through three gates, each with its own error: it is read, its dataset is looked up,
and the rows to show are counted against the limit. How many of these there are is said here of the
dataset alone, without places, tables or groups.

* `Plan.expected` — the number of rows that satisfy the filter, or of the different tuples of values
  that these have under the keys of a grouping.
* `Plan.length_shown` — an answer shows as many rows.
* `Json.withoutOrder` — a query with its order left out.
* `Registry.query_verdict` — which outcome a query has, and that its order has no part in it.
-/

namespace CampusQuery

/-! ## How many rows there are to show -/

/-- What a row says under the keys of a grouping. -/
def Grouping.tuple (g : Grouping) (r : Record) : List (Option (Int ⊕ String)) :=
  g.keys.map fun k => (r.get? k.field).map Value.denoted

namespace Plan

/-- The rows that satisfy the filter. -/
def chosen (p : Plan) (rows : Array Record) : List Record :=
  rows.toList.filter fun r => p.filter.Satisfies r

/-- How many rows there are to show: as many as satisfy the filter, or as there are different tuples
among these. -/
def expected (p : Plan) (rows : Array Record) : Nat :=
  match p.grouping with
  | none => (p.chosen rows).length
  | some g => ((p.chosen rows).map g.tuple).toFinset.card

variable {p : Plan} {rows : Array Record} {limit : Nat}

theorem map_getElem?_range : (List.range rows.size).map (rows[·]?) = rows.toList.map some := by
  refine List.ext_getElem (by simp) fun i hi _ => ?_
  have hlt : i < rows.size := by simpa using hi
  simp [hlt]

theorem matched_eq : p.matched rows =
    (List.range rows.size).filter fun place => rows[place]?.any fun r => p.filter.Satisfies r := by
  rw [matched, Filter.select_eq_filter_holds]
  -- each place of the range has a row, and only of a row does a filter say anything
  refine List.filter_congr fun place hplace => ?_
  have hget := Array.getElem?_eq_getElem (List.mem_range.mp hplace)
  rw [Bool.eq_iff_iff, Filter.holds_iff_satisfies hget, hget]
  simp

/-- The rows at the places that a filter selects are those that satisfy it. -/
theorem map_getElem?_matched : (p.matched rows).map (rows[·]?) = (p.chosen rows).map some := by
  rw [matched_eq]
  calc ((List.range rows.size).filter fun place =>
        rows[place]?.any fun r => p.filter.Satisfies r).map (rows[·]?)
    _ = ((List.range rows.size).map (rows[·]?)).filter (·.any fun r => p.filter.Satisfies r) := by
      rw [List.filter_map]
      rfl
    _ = (p.chosen rows).map some := by
      rw [map_getElem?_range, List.filter_map]
      rfl

theorem length_matched : (p.matched rows).length = (p.chosen rows).length := by
  simpa using congrArg List.length (@map_getElem?_matched p rows)

theorem map_tupleAt_matched (g : Grouping) :
    (p.matched rows).map (tupleAt rows g.keys) = (p.chosen rows).map g.tuple := by
  have h := congrArg
    (List.map fun x => g.keys.map fun k => (x.bind fun r => r.get? k.field).map Value.denoted)
    (@map_getElem?_matched p rows)
  rwa [List.map_map, List.map_map] at h

/-- An answer shows as many rows as are to be expected. -/
theorem length_shown [Converter] : (p.shown rows (p.matched rows)).length = p.expected rows := by
  unfold shown expected
  cases p.grouping with
  | none => rw [List.length_map, length_matched]
  | some g =>
    rw [List.length_map, Grouping.summaries, List.length_map,
      (areClasses_partition rows g.keys _).length_eq, map_tupleAt_matched]

theorem sorted_perm [Collator] (shown : List Row) : (p.sorted shown).Perm shown := by
  unfold sorted
  cases p.order with
  | none => exact .refl _
  | some o => exact List.mergeSort_perm _ _

theorem length_sorted_shown [Collator] [Converter] :
    (p.sorted (p.shown rows (p.matched rows))).length = p.expected rows :=
  (sorted_perm _).length_eq.trans length_shown

theorem outcome_of_lt [Collator] [Converter] (h : limit < p.expected rows) :
    (p.outcome rows limit).result = .error (.resultTooLarge (p.expected rows) limit) := by
  rw [outcome, length_shown]
  exact if_pos h

theorem outcome_of_le [Collator] [Converter] (h : p.expected rows ≤ limit) :
    (p.outcome rows limit).result =
      .ok ⟨p.sorted (p.shown rows (p.matched rows)), rows.size, (p.chosen rows).length⟩ := by
  rw [outcome, length_shown, length_matched]
  exact if_neg (Nat.not_lt.mpr h)

end Plan

/-! ## The order left out -/

namespace Json

/-- An object without the entries of a name. -/
def without (name : String) : Json → Json
  | .object entries => .object (entries.filter fun e => e.1 != name)
  | v => v

/-- A clause of a query without the order, which stands among the options. -/
def clauseWithoutOrder (key : String) (v : Json) : Json :=
  if key = "OPTIONS" then v.without "ORDER" else v

/-- A query without its order. -/
def withoutOrder : Json → Json
  | .object clauses => .object (clauses.map fun e => (e.1, clauseWithoutOrder e.1 e.2))
  | v => v

end Json

theorem OptionsMean.without_order {id : String} {kind : Kind} {g : Option Grouping} {v : Json}
    {shown : List Column × Option RowOrder} (h : OptionsMean id kind g v shown) :
    OptionsMean id kind g (v.without "ORDER") (shown.1, none) := by
  obtain ⟨parts, names, rfl, hkeys, hcolumns, hne, hmeans, -⟩ := h
  refine ⟨_, names, rfl, fun e he => hkeys e (List.mem_of_mem_filter he), ?_, hne, hmeans, ?_⟩
  · rw [lookup_filter_ne, if_neg (by decide), hcolumns]
  · rw [lookup_filter_ne, if_pos (by decide)]
    exact .none

/-- A query without its order is read as the same plan without it. -/
theorem ofJson_withoutOrder {known : String → Option Kind} {raw : Json} {p : Plan}
    (h : Plan.ofJson known raw = .ok p) :
    Plan.ofJson known raw.withoutOrder = .ok { p with order := none } := by
  obtain ⟨hadmits, parts, whereClause, optionsClause, rfl, hkeys, hwhere, hoptions, hfilter,
    hgrouping, hshown⟩ := ofJson_eq_ok_iff.mp h
  -- the clauses keep their names, and only what is found under `OPTIONS` is another
  refine ofJson_eq_ok_iff.mpr ⟨hadmits, _, whereClause, optionsClause.without "ORDER", rfl, ?_, ?_,
    ?_, hfilter, ?_, hshown.without_order⟩
  · intro e' he'
    obtain ⟨e, he, rfl⟩ := List.mem_map.mp he'
    exact hkeys e he
  · rw [lookup_map_snd Json.clauseWithoutOrder, hwhere]
    rfl
  · rw [lookup_map_snd Json.clauseWithoutOrder, hoptions]
    rfl
  · rw [lookup_map_snd Json.clauseWithoutOrder]
    have hsame : Json.clauseWithoutOrder "TRANSFORMATIONS" = id := rfl
    rwa [hsame, Option.map_id, id]

/-- Two results that are the same up to the order of the rows. -/
def AlikeUpToOrder : Except QueryError Answer → Except QueryError Answer → Prop
  | .ok a, .ok b => a.rows.Perm b.rows ∧ a.scanned = b.scanned ∧ a.matched = b.matched
  | .error e, .error e' => e = e'
  | _, _ => False

theorem Plan.outcome_alike [Collator] [Converter] {p : Plan} {rows : Array Record} {limit : Nat} :
    AlikeUpToOrder (p.outcome rows limit).result
      ({ p with order := none }.outcome rows limit).result := by
  rcases Nat.lt_or_ge limit (p.expected rows) with h | h
  · rw [outcome_of_lt h, outcome_of_lt (p := { p with order := none }) h]
    exact rfl
  · rw [outcome_of_le h, outcome_of_le (p := { p with order := none }) h]
    exact ⟨sorted_perm _, rfl, rfl⟩

/-! ## Verdicts -/

namespace Registry

variable {r : Registry} {limit : Nat} {raw : Json} {p : Plan}

/-- A dataset is of the kind for which a query of it has just been read. -/
theorem kind_of_ofJson (h : Plan.ofJson r.kindOf raw = .ok p) {d : Dataset}
    (hd : r.get? p.dataset = some d) : d.kind = p.kind := by
  rcases (ofJson_eq_ok_iff.mp h).1.unopposed with hnone | hkind
  · rw [kindOf, hd] at hnone
    cases hnone
  · obtain ⟨d', hd', hkind⟩ := kindOf_eq_some_iff.mp hkind
    exact Option.some.inj (hd.symm.trans hd') ▸ hkind

theorem query_of_absent [Collator] [Converter] (h : Plan.ofJson r.kindOf raw = .ok p)
    (hd : r.get? p.dataset = none) :
    r.query limit raw = ⟨[], .error (.datasetNotFound p.dataset)⟩ := by
  simp [query_of_ok h, execute, find, hd]

theorem query_of_present [Collator] [Converter] (h : Plan.ofJson r.kindOf raw = .ok p) {d : Dataset}
    (hd : r.get? p.dataset = some d) : r.query limit raw = p.outcome d.rows limit := by
  simp [query_of_ok h, execute, find, hd, kind_of_ofJson h hd]

theorem find_ne_malformed (h : Plan.ofJson r.kindOf raw = .ok p) (cause : Malformed) :
    r.find p ≠ .error (.malformed cause) := by
  unfold find
  cases hd : r.get? p.dataset with
  | none => simp
  | some d => simp [kind_of_ofJson h hd]

/-- What can become of a query that is read as a plan. -/
inductive Verdict (r : Registry) (limit : Nat) (p : Plan) : Except QueryError Answer → Prop
  | absent : r.get? p.dataset = none → Verdict r limit p (.error (.datasetNotFound p.dataset))
  | tooLarge {d : Dataset} : r.get? p.dataset = some d → limit < p.expected d.rows →
      Verdict r limit p (.error (.resultTooLarge (p.expected d.rows) limit))
  | answered {d : Dataset} {rows : List Row} : r.get? p.dataset = some d →
      p.expected d.rows ≤ limit → rows.length = p.expected d.rows →
      Verdict r limit p (.ok ⟨rows, d.rows.size, (p.chosen d.rows).length⟩)

theorem verdict_of_ofJson [Collator] [Converter] (h : Plan.ofJson r.kindOf raw = .ok p) :
    Verdict r limit p (r.query limit raw).result := by
  cases hd : r.get? p.dataset with
  | none =>
    rw [query_of_absent h hd]
    exact .absent hd
  | some d =>
    rw [query_of_present h hd]
    rcases Nat.lt_or_ge limit (p.expected d.rows) with hlt | hle
    · rw [Plan.outcome_of_lt hlt]
      exact .tooLarge hd hlt
    · rw [Plan.outcome_of_le hle]
      exact .answered hd hle Plan.length_sorted_shown

namespace Verdict

variable {result : Except QueryError Answer}

theorem ne_malformed (h : Verdict r limit p result) (cause : Malformed) :
    result ≠ .error (.malformed cause) := by
  cases h <;> simp

theorem datasetNotFound_iff (h : Verdict r limit p result) (id : String) :
    result = .error (.datasetNotFound id) ↔ id = p.dataset ∧ r.get? p.dataset = none := by
  cases h with
  | absent hd => simp [hd, eq_comm]
  | tooLarge hd => simp [hd]
  | answered hd => simp [hd]

variable {d : Dataset}

theorem resultTooLarge_iff (h : Verdict r limit p result) (hd : r.get? p.dataset = some d)
    (n m : Nat) :
    result = .error (.resultTooLarge n m) ↔
      n = p.expected d.rows ∧ m = limit ∧ limit < p.expected d.rows := by
  cases h with
  | absent hd' => cases hd.symm.trans hd'
  | tooLarge hd' hlt =>
    cases hd.symm.trans hd'
    simp [hlt, eq_comm]
  | answered hd' hle =>
    cases hd.symm.trans hd'
    simp [hle]

theorem exists_rows (h : Verdict r limit p result) (hd : r.get? p.dataset = some d)
    (hle : p.expected d.rows ≤ limit) :
    ∃ rows, rows.length = p.expected d.rows ∧
      result = .ok ⟨rows, d.rows.size, (p.chosen d.rows).length⟩ := by
  cases h with
  | absent hd' => cases hd.symm.trans hd'
  | tooLarge hd' hlt =>
    cases hd.symm.trans hd'
    exact absurd hle (Nat.not_le.mpr hlt)
  | answered hd' _ hlength =>
    cases hd.symm.trans hd'
    exact ⟨_, hlength, rfl⟩

end Verdict

theorem query_withoutOrder_alike [Collator] [Converter] (h : Plan.ofJson r.kindOf raw = .ok p) :
    AlikeUpToOrder (r.query limit raw).result (r.query limit raw.withoutOrder).result := by
  have h' := ofJson_withoutOrder h
  cases hd : r.get? p.dataset with
  | none =>
    rw [query_of_absent h hd, query_of_absent h' hd]
    exact rfl
  | some d =>
    rw [query_of_present h hd, query_of_present h' hd]
    exact Plan.outcome_alike

/-- A query with a fault is refused for the fault that its reading finds, and for nothing else is a
query called malformed. One without a fault finds no dataset just if its id has none. Else the limit
decides: the rows that satisfy the filter, or the tuples that these have under the keys of a
grouping, are counted, and the query is refused with that count if it is beyond the limit, and has
an answer of as many rows if not. Without its order it has the same error, or the same rows in some
order. -/
theorem query_verdict [Collator] [Converter] (r : Registry) (limit : Nat) (raw : Json) :
    (∀ cause, (r.query limit raw).result = .error (.malformed cause) ↔
      Plan.ofJson r.kindOf raw = .error cause) ∧
    ∀ p, Plan.ofJson r.kindOf raw = .ok p →
      (∀ cause, r.find p ≠ .error (.malformed cause)) ∧
      (∀ id, (r.query limit raw).result = .error (.datasetNotFound id) ↔
        id = p.dataset ∧ r.get? p.dataset = none) ∧
      (∀ d, r.get? p.dataset = some d →
        (∀ n m, (r.query limit raw).result = .error (.resultTooLarge n m) ↔
          n = p.expected d.rows ∧ m = limit ∧ limit < p.expected d.rows) ∧
        (p.expected d.rows ≤ limit → ∃ rows, rows.length = p.expected d.rows ∧
          (r.query limit raw).result = .ok ⟨rows, d.rows.size, (p.chosen d.rows).length⟩)) ∧
      Plan.ofJson r.kindOf raw.withoutOrder = .ok { p with order := none } ∧
      AlikeUpToOrder (r.query limit raw).result (r.query limit raw.withoutOrder).result := by
  cases h : Plan.ofJson r.kindOf raw with
  | error cause =>
    rw [query_of_error h]
    exact ⟨fun _ => by simp, fun p hp => by cases hp⟩
  | ok p =>
    have hverdict : Verdict r limit p (r.query limit raw).result := verdict_of_ofJson h
    refine ⟨fun cause => iff_of_false (hverdict.ne_malformed cause) (by simp), ?_⟩
    rintro _ ⟨⟩
    exact ⟨find_ne_malformed h, hverdict.datasetNotFound_iff,
      fun d hd => ⟨hverdict.resultTooLarge_iff hd, hverdict.exists_rows hd⟩,
      ofJson_withoutOrder h, query_withoutOrder_alike h⟩

/-- A registry with one dataset, of three sections of which two are alike. -/
def likeSections : Registry :=
  ⟨[⟨"a", .courses, #[Filter.blankSection "cs", Filter.blankSection "ee", Filter.blankSection "cs"],
    ⟨0, 0, 0⟩⟩]⟩

/-- A query for the departments of a dataset, in order, with some clauses before its options. -/
def departmentsQuery (clauses : List (String × Json)) : Json :=
  .object (("WHERE", .object []) :: clauses ++
    [("OPTIONS", .object [("COLUMNS", .array [.string "a_dept"]), ("ORDER", .string "a_dept")])])

/-- Of three sections in two departments there are three rows to show, and two groups. -/
theorem query_verdict_likeSections :
    let grouped := departmentsQuery
      [("TRANSFORMATIONS", .object [("GROUP", .array [.string "a_dept"]), ("APPLY", .array [])])]
    let column : Column := .field ⟨"a_dept", .dept⟩
    let p : Plan := ⟨"a", .courses, .all, none, [column], some ⟨.up, [column]⟩⟩
    let g : Grouping := ⟨[⟨"a_dept", .dept⟩], []⟩
    Plan.ofJson likeSections.kindOf (departmentsQuery []) = .ok p ∧
      (∃ rows, rows.length = 3 ∧
        (likeSections.query 3 (departmentsQuery [])).result = .ok ⟨rows, 3, 3⟩) ∧
      Plan.ofJson likeSections.kindOf grouped = .ok { p with grouping := some g } ∧
      (likeSections.query 1 grouped).result = .error (.resultTooLarge 2 1) ∧
      AlikeUpToOrder (likeSections.query 1 grouped).result
        (likeSections.query 1 grouped.withoutOrder).result := by
  intro grouped column p g
  have hread : Plan.ofJson likeSections.kindOf (departmentsQuery []) = .ok p := rfl
  have hgrouped : Plan.ofJson likeSections.kindOf grouped = .ok { p with grouping := some g } := rfl
  obtain ⟨-, -, hpresent, -⟩ := (query_verdict likeSections 3 (departmentsQuery [])).2 p hread
  obtain ⟨-, -, hpresent', -, halike⟩ := (query_verdict likeSections 1 grouped).2 _ hgrouped
  have hrows := (hpresent likeSections.datasets[0] rfl).2 (by decide +kernel)
  have htwo : Plan.expected { p with grouping := some g } likeSections.datasets[0].rows = 2 := by
    decide +kernel
  exact ⟨hread, hrows, hgrouped, ((hpresent' likeSections.datasets[0] rfl).1 2 1).mpr
    ⟨htwo.symm, rfl, by rw [htwo]; decide⟩, halike⟩

end Registry

end CampusQuery
