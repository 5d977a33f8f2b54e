import Mathlib
import CampusQuery.Answer.Answer
import CampusQuery.Proofs.Answer.Verdict
import CampusQuery.Proofs.Query.Plan

/-!
# The columns of an answer

Where a row lacks a field, a group a value or an answer a column, the answer shows `null`, and the
order of rows takes an empty text or no number. On the rows of a dataset of the right kind none of
these ever stands in for a value: the keys of a plan that has been read name fields of that kind,
its columns are found among the values of each row, and each group has a first row.

* `Plan.ShowsRow` — a row has the columns asked for, with values of their types.
* `Plan.NeedsNoStandIn` — every value that an answer takes from a row or a group is there.
* `Registry.query_rows_typed` — the rows of every answer are such, and no value needs a stand-in.
-/

namespace CampusQuery

/-! ## Values -/

theorem Value.type_shown (x : Value) : x.shown.type = x.type.shownAs := by
  cases x <;> rfl

theorem Json.exists_number_of_type {v : Json} (h : v.type = .number) : ∃ n, v = .number n := by
  cases v with
  | number n => exact ⟨n, rfl⟩
  | null | boolean | string | array | object => cases h

theorem Json.exists_string_of_type {v : Json} (h : v.type = .string) : ∃ s, v = .string s := by
  cases v with
  | string s => exact ⟨s, rfl⟩
  | null | boolean | number | array | object => cases h

/-- The row at a place has every field of its kind. -/
theorem exists_valueAt {rows : Array Record} {kind : Kind} (hrows : ∀ r ∈ rows, r.kind = kind)
    {place : Nat} (hplace : place < rows.size) {f : Field} (hf : f.kind = kind) :
    ∃ x, valueAt rows f place = some x ∧ x.type = f.type := by
  have hget := Array.getElem?_eq_getElem hplace
  have hkind : f.kind = rows[place].kind := by rw [hrows _ (Array.getElem_mem hplace), hf]
  obtain ⟨x, hx⟩ := Option.isSome_iff_exists.mp ((Record.isSome_get? _ f).mpr hkind)
  exact ⟨x, (Filter.valueAt_eq hget f).trans hx, Record.type_of_get? hx⟩

namespace Aggregate

theorem isSome_foldl_best (better : Binary64 → Binary64 → Binary64) (xs : List Binary64)
    (y : Binary64) :
    (xs.foldl (fun best x => some (match best with | none => x | some y => better y x))
      (some y)).isSome := by
  induction xs generalizing y with
  | nil => rfl
  | cons x xs ih => exact ih (better y x)

theorem type_best {better : Binary64 → Binary64 → Binary64} {xs : List Binary64} (h : xs ≠ []) :
    (Json.ofNumber? (best better xs)).type = .number := by
  obtain ⟨x, xs, rfl⟩ := List.exists_cons_of_ne_nil h
  obtain ⟨y, hy⟩ := Option.isSome_iff_exists.mp (isSome_foldl_best better xs x)
  have hbest : best better (x :: xs) = some y := hy
  rw [hbest]
  rfl

/-- Of some values of a type there is an aggregate, if it can be taken of the type. -/
theorem type_value [Converter] {aggregate : Aggregate} {type : FieldType}
    {values : List (Option Value)} (haccepts : aggregate.accepts type = true) (hne : values ≠ [])
    (hvalues : ∀ v ∈ values, ∃ x, v = some x ∧ x.type = type) :
    (aggregate.value values).type = .number := by
  have hnumbers (hnumeric : type = .numeric) :
      values.filterMap (fun x => x.bind Value.number?) ≠ [] := by
    obtain ⟨v, vs, rfl⟩ := List.exists_cons_of_ne_nil hne
    obtain ⟨x, rfl, hx⟩ := hvalues v List.mem_cons_self
    subst hnumeric
    cases x with
    | number x => simp [Value.number?]
    | text s => cases hx
  -- sums, means and counts are numbers of whatever values; only the best needs a number to be there
  cases aggregate with
  | max | min => exact type_best (hnumbers (by simpa [accepts] using haccepts))
  | sum | average | count => rfl

end Aggregate

/-! ## Entries -/

/-- What a row of a dataset shows in a column. -/
def Row.entryAt (rows : Array Record) (place : Nat) : Column → String × Json
  | .field k => (k.key, Grouping.shown (valueAt rows k.field place))
  | .rule name => (name, .null)

theorem Row.ofPlace_eq (columns : List Column) (rows : Array Record) (place : Nat) :
    ofPlace columns rows place = Json.insertAll (columns.map (entryAt rows place)) := by
  refine congrArg Json.insertAll (List.map_congr_left fun c _ => ?_)
  cases c <;> rfl

theorem Row.keys_entryAt (columns : List Column) (rows : Array Record) (place : Nat) :
    (columns.map (entryAt rows place)).map Prod.fst = columns.map Column.name := by
  rw [List.map_map]
  refine List.map_congr_left fun c _ => ?_
  cases c <;> rfl

/-- What a group shows under its keys and its rules. -/
def Grouping.entries [Converter] (g : Grouping) (rows : Array Record) (first : Nat)
    (group : List Nat) : List (String × Json) :=
  (g.keys.map fun k => (k.key, shown (valueAt rows k.field first))) ++
    g.rules.map fun r => (r.name, r.aggregate.value (valuesOf rows group r.key))

theorem Grouping.summary_eq [Converter] (g : Grouping) (rows : Array Record) {first : Nat}
    {group : List Nat} (h : group.head? = some first) :
    g.summary rows group = Json.insertAll (g.entries rows first group) := by
  rw [summary, h]
  rfl

theorem Grouping.keys_entries [Converter] (g : Grouping) (rows : Array Record) (first : Nat)
    (group : List Nat) :
    (g.entries rows first group).map Prod.fst =
      g.keys.map FieldKey.key ++ g.rules.map Rule.name := by
  simp [entries, Function.comp_def]

/-! ## Rows and groups -/

namespace Plan

/-- A row has the names given as keys, each once, and under each a value of its type. -/
structure ShowsRow (p : Plan) (names : List String) (row : Row) : Prop where
  keys : row.map Prod.fst = names.eraseDups
  typed : ∀ entry ∈ row, p.Shows entry.1 entry.2.type
  present : ∀ entry ∈ row, entry.2 ≠ .null

/-- Every value that an answer takes from a row, a group or a summary is there and of its type, be
it to show it or to order the rows. -/
structure NeedsNoStandIn [Converter] (p : Plan) (rows : Array Record) : Prop where
  row : p.grouping = none → ∀ place ∈ p.matched rows, ∀ c ∈ p.columns,
    ∃ k x, c = .field k ∧ valueAt rows k.field place = some x
  group : ∀ g ∈ p.grouping, ∀ group ∈ partition rows g.keys (p.matched rows),
    (∃ first, group.head? = some first ∧
      ∀ k ∈ g.keys, ∃ x, valueAt rows k.field first = some x) ∧
    (∀ r ∈ g.rules, ∃ n, r.aggregate.value (Grouping.valuesOf rows group r.key) = .number n) ∧
    (∀ entry ∈ g.summary rows group, entry.2 ≠ .null) ∧
    ∀ c ∈ p.columns, ∃ v, (g.summary rows group).lookup c.name = some v
  order : ∀ o ∈ p.order, ∀ row ∈ p.shown rows (p.matched rows), ∀ c ∈ o.columns,
    if c.isText then ∃ s, row.lookup c.name = some (.string s)
    else ∃ n, row.lookup c.name = some (.number n)

variable {p : Plan} {rows : Array Record}

theorem Shows.ne_null {name : String} {v : Json} (h : p.Shows name v.type) : v ≠ .null := by
  rintro rfl
  rcases h with ⟨f, -, htype⟩ | ⟨-, -, -, htype⟩
  · cases hf : f.type <;> rw [hf] at htype <;> cases htype
  · cases htype

/-- The value of a field, as answers show it, is of the type of the values under its key. -/
theorem shows_shown {k : FieldKey} {place : Nat} {x : Value}
    (hk : Names p.dataset p.kind k.key k.field) (hx : valueAt rows k.field place = some x)
    (htype : x.type = k.type) :
    p.Shows k.key (Grouping.shown (valueAt rows k.field place)).type := by
  refine .inl ⟨k.field, hk, ?_⟩
  rw [hx]
  exact x.type_shown.trans (congrArg FieldType.shownAs htype)

/-- Values of the right types under some names make up a row. -/
theorem showsRow_insertAll {entries : List (String × Json)}
    (h : ∀ entry ∈ entries, p.Shows entry.1 entry.2.type) :
    p.ShowsRow (entries.map Prod.fst) (Json.insertAll entries) where
  keys := Json.keys_insertAll entries
  typed entry hentry := h entry (Json.mem_of_mem_insertAll hentry)
  present entry hentry := (h entry (Json.mem_of_mem_insertAll hentry)).ne_null

theorem ShowsRow.exists_lookup {names : List String} {row : Row} (h : p.ShowsRow names row)
    {name : String} (hname : name ∈ names) :
    ∃ v, row.lookup name = some v ∧ p.Shows name v.type := by
  obtain ⟨v, hv⟩ := exists_lookup_eq_some (h.keys ▸ List.mem_eraseDups.mpr hname)
  exact ⟨v, hv, h.typed _ (mem_of_lookup_eq_some hv)⟩

theorem lt_size_of_mem_matched {place : Nat} (h : place ∈ p.matched rows) : place < rows.size :=
  List.mem_range.mp (Filter.mem_select.mp h).1

/-- A group has a first row, and all its rows are among those of the dataset. -/
theorem exists_head?_of_mem_partition {keys : List FieldKey} {group : List Nat}
    (h : group ∈ partition rows keys (p.matched rows)) :
    ∃ first, group.head? = some first ∧ ∀ place ∈ group, place < rows.size := by
  obtain ⟨first, hfirst, hgroup⟩ := (areClasses_partition rows keys _).exists_head? h
  exact ⟨first, hfirst, fun place hplace => lt_size_of_mem_matched (hgroup place hplace).1⟩

section Rows

variable (hp : p.Resolved) (hrows : ∀ r ∈ rows, r.kind = p.kind)
include hp hrows

/-! ### Without groups -/

/-- Each column is a field that the row at a place has. -/
theorem exists_value_of_mem_columns (hnone : p.grouping = none) {place : Nat}
    (hplace : place < rows.size) {c : Column} (hc : c ∈ p.columns) :
    ∃ k x, c = .field k ∧ Names p.dataset p.kind k.key k.field ∧
      valueAt rows k.field place = some x ∧ x.type = k.type := by
  have hoffers := hp.columns c hc
  cases c with
  | field k =>
    obtain ⟨x, hx, htype⟩ := exists_valueAt hrows hplace hoffers.1.kind_eq
    exact ⟨k, x, rfl, hoffers.1, hx, htype⟩
  | rule name =>
    obtain ⟨g, hg, -⟩ := hoffers
    rw [hnone] at hg
    cases hg

theorem showsRow_ofPlace (hnone : p.grouping = none) {place : Nat} (hplace : place < rows.size) :
    p.ShowsRow (p.columns.map Column.name) (Row.ofPlace p.columns rows place) := by
  have hentries : ∀ e ∈ p.columns.map (Row.entryAt rows place), p.Shows e.1 e.2.type := by
    rw [List.forall_mem_map]
    intro c hc
    obtain ⟨k, x, rfl, hk, hx, htype⟩ := exists_value_of_mem_columns hp hrows hnone hplace hc
    exact shows_shown hk hx htype
  rw [Row.ofPlace_eq, ← Row.keys_entryAt _ rows place]
  exact showsRow_insertAll hentries

/-! ### Groups -/

variable {g : Grouping} (hg : g ∈ p.grouping) {group : List Nat}
  (hgroup : group ∈ partition rows g.keys (p.matched rows))
include hg hgroup

/-- A group has a first row, which has the keys. -/
theorem exists_first : ∃ first, group.head? = some first ∧
    ∀ k ∈ g.keys, ∃ x, valueAt rows k.field first = some x ∧ x.type = k.type := by
  obtain ⟨first, hfirst, hplaces⟩ := exists_head?_of_mem_partition hgroup
  refine ⟨first, hfirst, fun k hk => ?_⟩
  exact exists_valueAt hrows (hplaces first (List.mem_of_head? hfirst)) (hp.keys g hg k hk).kind_eq

theorem type_value_of_rule [Converter] {r : Rule} (hr : r ∈ g.rules) :
    (r.aggregate.value (Grouping.valuesOf rows group r.key)).type = .number := by
  obtain ⟨first, hfirst, hplaces⟩ := exists_head?_of_mem_partition hgroup
  obtain ⟨hkind, haccepts⟩ := hp.targets g hg r hr
  refine Aggregate.type_value haccepts ?_ ?_
  · simpa [Grouping.valuesOf] using List.ne_nil_of_mem (List.mem_of_head? hfirst)
  · unfold Grouping.valuesOf
    rw [List.forall_mem_map]
    exact fun place hplace => exists_valueAt hrows (hplaces place hplace) hkind

theorem showsRow_summary [Converter] :
    p.ShowsRow (g.keys.map FieldKey.key ++ g.rules.map Rule.name) (g.summary rows group) := by
  obtain ⟨first, hfirst, hkeys⟩ := exists_first hp hrows hg hgroup
  have hentries : ∀ e ∈ g.entries rows first group, p.Shows e.1 e.2.type := by
    refine List.forall_mem_append.mpr ⟨List.forall_mem_map.mpr fun k hk => ?_,
      List.forall_mem_map.mpr fun r hr => ?_⟩
    · obtain ⟨x, hx, htype⟩ := hkeys k hk
      exact shows_shown (hp.keys g hg k hk) hx htype
    · exact .inr ⟨g, hg, List.mem_map_of_mem hr, type_value_of_rule hp hrows hg hgroup hr⟩
  rw [g.summary_eq rows hfirst, ← g.keys_entries rows first group]
  exact showsRow_insertAll hentries

/-- Each column is found among what is said of a group. -/
theorem exists_lookup_summary [Converter] {c : Column} (hc : c ∈ p.columns) :
    ∃ v, (g.summary rows group).lookup c.name = some v ∧ p.Shows c.name v.type := by
  refine (showsRow_summary hp hrows hg hgroup).exists_lookup ?_
  have hoffers := hp.columns c hc
  rw [List.mem_append]
  cases c with
  | field k => exact .inl (List.mem_map_of_mem (hoffers.2 g hg))
  | rule name =>
    obtain ⟨g', hg', hname⟩ := hoffers
    obtain rfl := Option.some.inj (hg.symm.trans hg')
    exact .inr hname

theorem showsRow_ofSummary [Converter] :
    p.ShowsRow (p.columns.map Column.name) (Row.ofSummary p.columns (g.summary rows group)) := by
  have hentries : ∀ e ∈ p.columns.map fun c =>
      (c.name, ((g.summary rows group).lookup c.name).getD .null), p.Shows e.1 e.2.type := by
    rw [List.forall_mem_map]
    intro c hc
    obtain ⟨v, hv, hshows⟩ := exists_lookup_summary hp hrows hg hgroup hc
    rw [hv]
    exact hshows
  have h := showsRow_insertAll hentries
  rwa [List.map_map] at h

end Rows

/-! ### Answers -/

theorem showsRow_of_mem_shown [Converter] (hp : p.Resolved) (hrows : ∀ r ∈ rows, r.kind = p.kind)
    {row : Row}
    (hrow : row ∈ p.shown rows (p.matched rows)) : p.ShowsRow (p.columns.map Column.name) row := by
  unfold shown at hrow
  cases hg : p.grouping with
  | none =>
    rw [hg] at hrow
    obtain ⟨place, hplace, rfl⟩ := List.mem_map.mp hrow
    exact showsRow_ofPlace hp hrows hg (lt_size_of_mem_matched hplace)
  | some g =>
    rw [hg] at hrow
    obtain ⟨summary, hsummary, rfl⟩ := List.mem_map.mp hrow
    obtain ⟨group, hgroup, rfl⟩ := List.mem_map.mp hsummary
    exact showsRow_ofSummary hp hrows hg hgroup

/-- A row of an answer has in each of its columns a text or a number, as the order of rows takes it
to have. -/
theorem ShowsRow.lookup_of_mem (hp : p.Resolved) {row : Row}
    (h : p.ShowsRow (p.columns.map Column.name) row) {c : Column} (hc : c ∈ p.columns) :
    if c.isText then ∃ s, row.lookup c.name = some (.string s)
    else ∃ n, row.lookup c.name = some (.number n) := by
  obtain ⟨v, hv, hshows⟩ := h.exists_lookup (List.mem_map_of_mem hc)
  have htype := (hp.eq_shownAs hc hshows).trans c.shownAs_eq
  split_ifs at htype ⊢
  · obtain ⟨s, rfl⟩ := Json.exists_string_of_type htype
    exact ⟨s, hv⟩
  · obtain ⟨n, rfl⟩ := Json.exists_number_of_type htype
    exact ⟨n, hv⟩

theorem Resolved.needsNoStandIn [Converter] (hp : p.Resolved)
    (hrows : ∀ r ∈ rows, r.kind = p.kind) : p.NeedsNoStandIn rows where
  row hnone place hplace c hc := by
    obtain ⟨k, x, rfl, -, hx, -⟩ :=
      exists_value_of_mem_columns hp hrows hnone (lt_size_of_mem_matched hplace) hc
    exact ⟨k, x, rfl, hx⟩
  group g hg group hgroup := by
    refine ⟨?_, fun r hr => ?_, (showsRow_summary hp hrows hg hgroup).present, fun c hc => ?_⟩
    · obtain ⟨first, hfirst, hkeys⟩ := exists_first hp hrows hg hgroup
      exact ⟨first, hfirst, fun k hk => (hkeys k hk).imp fun _ h => h.1⟩
    · exact Json.exists_number_of_type (type_value_of_rule hp hrows hg hgroup hr)
    · exact (exists_lookup_summary hp hrows hg hgroup hc).imp fun _ h => h.1
  order o ho row hrow c hc :=
    (showsRow_of_mem_shown hp hrows hrow).lookup_of_mem hp (hp.order o ho c hc)

theorem rows_perm_of_outcome [Collator] [Converter] {limit : Nat} {a : Answer}
    (h : (p.outcome rows limit).result = .ok a) :
    a.rows.Perm (p.shown rows (p.matched rows)) := by
  unfold outcome at h
  dsimp only at h
  split_ifs at h
  obtain rfl := Except.ok.inj h
  exact sorted_perm _

end Plan

namespace Registry

/-- In a registry whose datasets hold rows of their own kind, the rows of every answer have as keys
the different names that the query asks for as columns, each where it is asked for first, and under
each name a value of its type: a text under the name of a text field, a number under that of a
numeric field or of a rule. No value is ever `null`, and neither the choice of columns, the
summaries of groups nor the order of the rows shown has to do without a value or with one of another
type. -/
theorem query_rows_typed [Collator] [Converter] {r : Registry} {limit : Nat} {raw : Json}
    {a : Answer} (hkinds : ∀ d ∈ r.datasets, ∀ row ∈ d.rows, row.kind = d.kind)
    (h : (r.query limit raw).result = .ok a) :
    ∃ p d, Plan.ofJson r.kindOf raw = .ok p ∧ r.get? p.dataset = some d ∧
      a.rows.Perm (p.shown d.rows (p.matched d.rows)) ∧
      (∀ row ∈ a.rows, p.ShowsRow raw.columnNames row) ∧ p.NeedsNoStandIn d.rows := by
  cases hread : Plan.ofJson r.kindOf raw with
  | error cause => simp [query_of_error hread] at h
  | ok p =>
    cases hd : r.get? p.dataset with
    | none => simp [query_of_absent hread hd] at h
    | some d =>
      rw [query_of_present hread hd] at h
      have hmeans := (ofJson_eq_ok_iff.mp hread).2
      have hrows : ∀ row ∈ d.rows, row.kind = p.kind := fun row hrow =>
        (hkinds d (List.mem_of_find?_eq_some hd) row hrow).trans (kind_of_ofJson hread hd)
      have hperm := Plan.rows_perm_of_outcome h
      refine ⟨p, d, rfl, hd, hperm, fun row hrow => ?_, hmeans.resolved.needsNoStandIn hrows⟩
      rw [← hmeans.map_name_columns]
      exact Plan.showsRow_of_mem_shown hmeans.resolved hrows (hperm.mem_iff.mp hrow)

/-- A column that is asked for twice is shown once, and the best average of a department is a
number. -/
theorem query_rows_typed_likeSections :
    let columns : List String := ["a_dept", "top", "a_dept"]
    let raw : Json := .object [("WHERE", .object []),
      ("OPTIONS", .object [("COLUMNS", .array (columns.map .string)), ("ORDER", .string "top")]),
      ("TRANSFORMATIONS", .object [("GROUP", .array [.string "a_dept"]),
        ("APPLY", .array [.object [("top", .object [("MAX", .string "a_avg")])]])])]
    (∀ d ∈ likeSections.datasets, ∀ row ∈ d.rows, row.kind = d.kind) ∧
      ∃ a p d, (likeSections.query 5 raw).result = .ok a ∧ a.rows.length = 2 ∧
        Plan.ofJson likeSections.kindOf raw = .ok p ∧ likeSections.get? p.dataset = some d ∧
        (∀ row ∈ a.rows, p.ShowsRow columns row) ∧ columns.eraseDups = ["a_dept", "top"] ∧
        p.NeedsNoStandIn d.rows := by
  intro columns raw
  let dept : FieldKey := ⟨"a_dept", .dept⟩
  let d := likeSections.datasets[0]
  let p : Plan := ⟨"a", .courses, .all, some ⟨[dept], [⟨"top", .max, ⟨"a_avg", .avg⟩⟩]⟩,
    [.field dept, .rule "top", .field dept], some ⟨.up, [.rule "top"]⟩⟩
  have hkinds : ∀ d ∈ likeSections.datasets, ∀ row ∈ d.rows, row.kind = d.kind := by
    simp [likeSections, Filter.blankSection]
  have hread : Plan.ofJson likeSections.kindOf raw = .ok p := rfl
  have hpresent : likeSections.query 5 raw = p.outcome d.rows 5 := query_of_present hread rfl
  have htwo : p.expected d.rows = 2 := by decide +kernel
  have hanswer := (congrArg Outcome.result hpresent).trans
    (Plan.outcome_of_le (htwo ▸ by decide : p.expected d.rows ≤ 5))
  obtain ⟨p', d', hread', hd', -, hrows, hneeds⟩ := query_rows_typed hkinds hanswer
  exact ⟨hkinds, _, p', d', hanswer, Plan.length_sorted_shown.trans htwo, hread', hd', hrows,
    by decide +kernel, hneeds⟩

end Registry

end CampusQuery
