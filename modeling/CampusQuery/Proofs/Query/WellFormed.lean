import Mathlib
import CampusQuery.Catalog.Record
import CampusQuery.Proofs.Query.Plan

/-!
# Well-formed plans

What the answering of a query relies on and checks nowhere. It holds of every plan that a query is
read as, whatever the catalog knows, and at every node of its filter.

* `Filter.IsNode` — a filter that restricts rows, with all its parts: no connective is empty,
  comparisons are of numbers, patterns of texts.
* `Plan.keys` — all keys in a plan, in the order in which a query has them.
* `Plan.WellFormed` — what is relied on; `Plan.wellFormed_of_ofJson` is that a plan read has it.
-/

namespace CampusQuery

/-! ## Keys -/

/-- A key written with the id of a dataset, for a field that its kind declares: rows of the kind
have a value of the key's type there. -/
structure FieldKey.IsOf (k : FieldKey) (id : String) (kind : Kind) : Prop where
  written : k.key = id ++ separator.toString ++ k.field.label
  declared : k.field ∈ kind.fields
  held : ∀ r : Record, r.kind = kind → (r.get? k.field).map Value.type = some k.type

theorem KeyMeans.isOf {id key : String} {kind : Kind} {k : FieldKey}
    (h : KeyMeans id kind key k) : k.IsOf id kind where
  written := h.key_eq.trans h.written
  declared := Kind.mem_fields.mpr h.kind_eq
  held r hr := by
    rw [Record.type_get?, if_pos (h.kind_eq.trans hr.symm)]
    rfl

/-! ## Patterns -/

/-- The text that a pattern looks for. -/
def Pattern.text : Pattern → String
  | .any => ""
  | .exact text | .startsWith text | .endsWith text | .contains text => text

/-- No mark is left in the text of a pattern: those at its ends have been taken off. -/
theorem Pattern.wildcard_notMem_text {raw : String} {p : Pattern}
    (h : Pattern.ofText? raw = some p) : wildcard ∉ p.text.toList := by
  unfold Pattern.ofText? at h
  by_cases hmarks : raw = "*" ∨ raw = "**"
  · rw [if_pos hmarks] at h
    obtain rfl := Option.some.inj h
    simp [text]
  · rw [if_neg hmarks] at h
    dsimp only at h
    by_cases hmem : wildcard ∈ between raw.toList
    · rw [if_pos hmem] at h
      exact absurd h (by simp)
    · rw [if_neg hmem] at h
      split at h <;> obtain rfl := Option.some.inj h <;> simpa [text] using hmem

/-! ## Filters -/

namespace Filter

/-- A node of the tree of a filter, with all that is below it. -/
inductive IsNode : Filter → Prop
  | and {fs : List Filter} : fs ≠ [] → (∀ f ∈ fs, IsNode f) → IsNode (.and fs)
  | or {fs : List Filter} : fs ≠ [] → (∀ f ∈ fs, IsNode f) → IsNode (.or fs)
  | not {f : Filter} : IsNode f → IsNode (.not f)
  | compare {c : Comparison} {k : FieldKey} {bound : Binary64} : k.type = .numeric →
      IsNode (.compare c k bound)
  | like {k : FieldKey} {p : Pattern} : k.type = .text → Pattern.wildcard ∉ p.text.toList →
      IsNode (.like k p)

/-- The keys in a filter, from left to right. -/
def keys : Filter → List FieldKey
  | .all => []
  | .and fs | .or fs => fs.attach.flatMap fun ⟨f, _⟩ => f.keys
  | .not f => f.keys
  | .compare _ k _ | .like k _ => [k]

theorem mem_keys_and {fs : List Filter} {k : FieldKey} :
    k ∈ (and fs).keys ↔ ∃ f ∈ fs, k ∈ f.keys := by
  simp [keys]

theorem mem_keys_or {fs : List Filter} {k : FieldKey} :
    k ∈ (or fs).keys ↔ ∃ f ∈ fs, k ∈ f.keys := by
  simp [keys]

/-- A node all of whose keys are of one dataset. -/
structure IsNodeOf (f : Filter) (id : String) (kind : Kind) : Prop where
  isNode : f.IsNode
  keys : ∀ k ∈ f.keys, k.IsOf id kind

end Filter

theorem NodesMean.eq_nil_iff {id : String} {kind : Kind} {vs : List Json} {fs : List Filter}
    (h : NodesMean id kind vs fs) : fs = [] ↔ vs = [] := by
  cases h <;> simp

mutual

theorem NodeMeans.isNodeOf {id : String} {kind : Kind} {v : Json} {f : Filter} :
    NodeMeans id kind v f → f.IsNodeOf id kind
  | .and hne hvs => by
    have hfs := hvs.isNodeOf
    refine ⟨.and (mt hvs.eq_nil_iff.mp hne) fun f hf => (hfs f hf).isNode, fun k hk => ?_⟩
    obtain ⟨f, hf, hk⟩ := Filter.mem_keys_and.mp hk
    exact (hfs f hf).keys k hk
  | .or hne hvs => by
    have hfs := hvs.isNodeOf
    refine ⟨.or (mt hvs.eq_nil_iff.mp hne) fun f hf => (hfs f hf).isNode, fun k hk => ?_⟩
    obtain ⟨f, hf, hk⟩ := Filter.mem_keys_or.mp hk
    exact (hfs f hf).keys k hk
  | .compare hkey htype => by
    refine ⟨.compare htype, fun k hk => ?_⟩
    obtain rfl : k = _ := by simpa [Filter.keys] using hk
    exact hkey.isOf
  | .like hkey htype hp => by
    refine ⟨.like htype (Pattern.wildcard_notMem_text hp), fun k hk => ?_⟩
    obtain rfl : k = _ := by simpa [Filter.keys] using hk
    exact hkey.isOf
  | .not hv => by
    have hf := hv.isNodeOf
    exact ⟨.not hf.isNode, fun k hk => hf.keys k (by simpa [Filter.keys] using hk)⟩

theorem NodesMean.isNodeOf {id : String} {kind : Kind} {vs : List Json} {fs : List Filter} :
    NodesMean id kind vs fs → ∀ f ∈ fs, f.IsNodeOf id kind
  | .nil => fun _ hf => absurd hf (List.not_mem_nil)
  | .cons hv hvs => fun f hf => by
    rcases List.mem_cons.mp hf with rfl | hf
    · exact hv.isNodeOf
    · exact hvs.isNodeOf f hf

end

/-! ## Plans -/

/-- The key of a column that shows a field. -/
def Column.key? : Column → Option FieldKey
  | .field k => some k
  | .rule _ => none

namespace Grouping

/-- The keys in a grouping: those by which rows are grouped and the targets of its rules. -/
def allKeys (g : Grouping) : List FieldKey :=
  g.keys ++ g.rules.map Rule.key

/-- What is relied on of a grouping in a query about a dataset. -/
structure WellFormed (g : Grouping) : Prop where
  nonempty : g.keys ≠ []
  named : ∀ r ∈ g.rules, r.name ≠ ""
  unseparated : ∀ r ∈ g.rules, separator ∉ r.name.toList
  nodup : (g.rules.map Rule.name).Nodup
  apart : ∀ r ∈ g.rules, ∀ k ∈ g.keys, r.name ≠ k.key
  numeric : ∀ r ∈ g.rules, r.aggregate ≠ .count → r.key.type = .numeric

end Grouping

namespace Plan

/-- All keys in a plan. -/
def keys (p : Plan) : List FieldKey :=
  p.filter.keys ++ p.grouping.toList.flatMap Grouping.allKeys ++ p.columns.filterMap Column.key? ++
    p.order.toList.flatMap fun o => o.columns.filterMap Column.key?

/-- What answering relies on. A filter that lets all rows through stands alone; grouped rows show
only keys and rules of the grouping, others only fields. -/
structure WellFormed (p : Plan) : Prop where
  dataset_ne : p.dataset ≠ ""
  dataset_unseparated : separator ∉ p.dataset.toList
  keys : ∀ k ∈ p.keys, k.IsOf p.dataset p.kind
  filter : p.filter = .all ∨ p.filter.IsNode
  grouping : ∀ g ∈ p.grouping, g.WellFormed
  columns_ne : p.columns ≠ []
  grouped : ∀ g ∈ p.grouping, ∀ c ∈ p.columns,
    (∃ k ∈ g.keys, c = .field k) ∨ ∃ r ∈ g.rules, c = .rule r.name
  ungrouped : p.grouping = none → ∀ c ∈ p.columns, ∃ k, c = .field k
  order_ne : ∀ o ∈ p.order, o.columns ≠ []
  order_mem : ∀ o ∈ p.order, ∀ c ∈ o.columns, c ∈ p.columns

end Plan

theorem GroupingMeans.exists_ruleMeans {id : String} {kind : Kind} {v : Json} {g : Grouping}
    (h : GroupingMeans id kind v g) {r : Rule} (hr : r ∈ g.rules) : ∃ w, RuleMeans id kind w r := by
  obtain ⟨vs, hvs, -⟩ := h.written
  obtain ⟨w, -, hw⟩ := exists_of_mem_forall₂ hvs hr
  exact ⟨w, hw⟩

theorem GroupingMeans.wellFormed {id : String} {kind : Kind} {v : Json} {g : Grouping}
    (h : GroupingMeans id kind v g) : g.WellFormed where
  nonempty := h.nonempty
  named r hr := by
    obtain ⟨w, hw⟩ := h.exists_ruleMeans hr
    exact hw.nonempty
  unseparated r hr := by
    obtain ⟨w, hw⟩ := h.exists_ruleMeans hr
    exact hw.unseparated
  nodup := h.nodup
  apart r hr k hk heq := by
    -- A key has an underscore after the id, and the name of a rule has none.
    obtain ⟨w, hw⟩ := h.exists_ruleMeans hr
    apply hw.unseparated
    rw [heq]
    exact (h.keys k hk).names.separator_mem
  numeric r hr hcount := by
    obtain ⟨w, hw⟩ := h.exists_ruleMeans hr
    simpa [Aggregate.accepts, hcount] using hw.accepted

theorem GroupingMeans.isOf_of_mem_allKeys {id : String} {kind : Kind} {v : Json} {g : Grouping}
    (h : GroupingMeans id kind v g) {k : FieldKey} (hk : k ∈ g.allKeys) : k.IsOf id kind := by
  rcases List.mem_append.mp hk with hk | hk
  · exact (h.keys k hk).isOf
  · obtain ⟨r, hr, rfl⟩ := List.mem_map.mp hk
    obtain ⟨w, hw⟩ := h.exists_ruleMeans hr
    exact hw.written.1.isOf

theorem ConditionMeans.isNode {id : String} {kind : Kind} {v : Json} {f : Filter}
    (h : ConditionMeans id kind v f) : f = .all ∨ f.IsNode := by
  rcases h with ⟨-, rfl⟩ | h
  · exact Or.inl rfl
  · exact Or.inr h.isNodeOf.isNode

theorem ConditionMeans.isOf_of_mem_keys {id : String} {kind : Kind} {v : Json} {f : Filter}
    (h : ConditionMeans id kind v f) {k : FieldKey} (hk : k ∈ f.keys) : k.IsOf id kind := by
  rcases h with ⟨-, rfl⟩ | h
  · simp [Filter.keys] at hk
  · exact h.isNodeOf.keys k hk

theorem ColumnMeans.isOf {id : String} {kind : Kind} {g : Option Grouping} {name : String}
    {k : FieldKey} (hg : ∀ g' ∈ g, ∀ k ∈ g'.keys, k.IsOf id kind)
    (h : ColumnMeans id kind g name (.field k)) : k.IsOf id kind := by
  cases g with
  | none =>
    obtain ⟨k', hk', heq⟩ := h
    obtain rfl := Column.field.inj heq
    exact hk'.isOf
  | some g =>
    rcases h with ⟨k', hfind, heq⟩ | ⟨-, -, heq⟩
    · obtain rfl := Column.field.inj heq
      exact hg g rfl _ (List.mem_of_find?_eq_some hfind)
    · exact absurd heq (by simp)

theorem ColumnMeans.grouped {id : String} {kind : Kind} {g : Grouping} {name : String} {c : Column}
    (h : ColumnMeans id kind (some g) name c) :
    (∃ k ∈ g.keys, c = .field k) ∨ ∃ r ∈ g.rules, c = .rule r.name := by
  rcases h with ⟨k, hfind, rfl⟩ | ⟨-, ⟨r, hr, rfl⟩, rfl⟩
  · exact Or.inl ⟨k, List.mem_of_find?_eq_some hfind, rfl⟩
  · exact Or.inr ⟨r, hr, rfl⟩

theorem OrderMeans.columns_ne {columns : List Column} {v : Json} {o : RowOrder}
    (h : OrderMeans columns v o) : o.columns ≠ [] := by
  rcases h with ⟨key, c, -, -, rfl⟩ | ⟨keys, hne, hkeys, -⟩
  · simp
  · intro hnil
    rw [hnil] at hkeys
    exact hne (List.forall₂_nil_right_iff.mp hkeys)

theorem OrderMeans.mem {columns : List Column} {v : Json} {o : RowOrder}
    (h : OrderMeans columns v o) {c : Column} (hc : c ∈ o.columns) : c ∈ columns := by
  rcases h with ⟨key, c', -, hc', rfl⟩ | ⟨keys, -, hkeys, -⟩
  · obtain rfl := List.mem_singleton.mp hc
    exact List.mem_of_find?_eq_some hc'
  · obtain ⟨key, -, hkey⟩ := exists_of_mem_forall₂ hkeys hc
    exact List.mem_of_find?_eq_some hkey

theorem exists_of_rel_some {α β : Type} {R : α → β → Prop} {a : Option α} {b : β}
    (h : Option.Rel R a (some b)) : ∃ x, R x b := by
  cases h with
  | some hR => exact ⟨_, hR⟩

namespace QueryMeans

variable {raw : Json} {p : Plan}

theorem exists_groupingMeans (h : QueryMeans raw p) {g : Grouping} (hg : g ∈ p.grouping) :
    ∃ v, GroupingMeans p.dataset p.kind v g := by
  obtain ⟨_, _, _, -, -, -, -, -, hgrouping, -⟩ := h
  rw [Option.mem_def.mp hg] at hgrouping
  exact exists_of_rel_some hgrouping

theorem exists_columnMeans (h : QueryMeans raw p) {c : Column} (hc : c ∈ p.columns) :
    ∃ name, ColumnMeans p.dataset p.kind p.grouping name c := by
  obtain ⟨_, _, _, -, -, -, -, -, -, _, _, -, -, -, -, hcolumns, -⟩ := h
  obtain ⟨name, -, hname⟩ := exists_of_mem_forall₂ hcolumns hc
  exact ⟨name, hname⟩

theorem exists_orderMeans (h : QueryMeans raw p) {o : RowOrder} (ho : o ∈ p.order) :
    ∃ v, OrderMeans p.columns v o := by
  obtain ⟨_, _, _, -, -, -, -, -, -, _, _, -, -, -, -, -, horder⟩ := h
  dsimp only at horder
  rw [Option.mem_def.mp ho] at horder
  exact exists_of_rel_some horder

theorem columns_ne (h : QueryMeans raw p) : p.columns ≠ [] := by
  obtain ⟨_, _, _, -, -, -, -, -, -, _, _, -, -, -, hne, hcolumns, -⟩ := h
  intro hnil
  dsimp only at hcolumns
  rw [hnil] at hcolumns
  exact hne (List.forall₂_nil_right_iff.mp hcolumns)

theorem isOf_of_field_mem (h : QueryMeans raw p) {k : FieldKey} (hk : .field k ∈ p.columns) :
    k.IsOf p.dataset p.kind := by
  obtain ⟨name, hname⟩ := h.exists_columnMeans hk
  refine hname.isOf fun g hg k hk => ?_
  obtain ⟨v, hv⟩ := h.exists_groupingMeans hg
  exact (hv.keys k hk).isOf

theorem isOf_of_mem_keys (h : QueryMeans raw p) {k : FieldKey} (hk : k ∈ p.keys) :
    k.IsOf p.dataset p.kind := by
  have hshown {cs : List Column} (hcs : ∀ c ∈ cs, c ∈ p.columns)
      (hk : k ∈ cs.filterMap Column.key?) : k.IsOf p.dataset p.kind := by
    obtain ⟨c, hc, hkey⟩ := List.mem_filterMap.mp hk
    cases c with
    | field k' =>
      obtain rfl := Option.some.inj hkey
      exact h.isOf_of_field_mem (hcs _ hc)
    | rule name => exact absurd hkey (by simp [Column.key?])
  simp only [Plan.keys, List.mem_append, List.mem_flatMap, Option.mem_toList] at hk
  rcases hk with ((hk | ⟨g, hg, hk⟩) | hk) | ⟨o, ho, hk⟩
  · obtain ⟨_, _, _, -, -, -, -, hfilter, -⟩ := h
    exact hfilter.isOf_of_mem_keys hk
  · obtain ⟨v, hv⟩ := h.exists_groupingMeans hg
    exact hv.isOf_of_mem_allKeys hk
  · exact hshown (fun _ hc => hc) hk
  · obtain ⟨v, hv⟩ := h.exists_orderMeans ho
    exact hshown (fun _ hc => hv.mem hc) hk

end QueryMeans

/-- Every plan that a query is read as is well formed. -/
theorem Plan.wellFormed_of_ofJson {known : String → Option Kind} {raw : Json} {p : Plan}
    (h : Plan.ofJson known raw = .ok p) : p.WellFormed := by
  obtain ⟨hadmits, hmeans⟩ := ofJson_eq_ok_iff.mp h
  refine
    { dataset_ne := hadmits.nonempty
      dataset_unseparated := hadmits.unseparated
      keys := fun k hk => hmeans.isOf_of_mem_keys hk
      filter := ?filter
      grouping := ?grouping
      columns_ne := hmeans.columns_ne
      grouped := ?grouped
      ungrouped := ?ungrouped
      order_ne := ?order_ne
      order_mem := ?order_mem }
  case filter =>
    obtain ⟨_, _, _, -, -, -, -, hfilter, -⟩ := hmeans
    exact hfilter.isNode
  case grouping =>
    intro g hg
    obtain ⟨v, hv⟩ := hmeans.exists_groupingMeans hg
    exact hv.wellFormed
  case grouped =>
    intro g hg c hc
    obtain ⟨name, hname⟩ := hmeans.exists_columnMeans hc
    rw [Option.mem_def.mp hg] at hname
    exact hname.grouped
  case ungrouped =>
    intro hnone c hc
    obtain ⟨name, hname⟩ := hmeans.exists_columnMeans hc
    rw [hnone] at hname
    obtain ⟨k, -, hk⟩ := hname
    exact ⟨k, hk⟩
  case order_ne =>
    intro o ho
    obtain ⟨v, hv⟩ := hmeans.exists_orderMeans ho
    exact hv.columns_ne
  case order_mem =>
    intro o ho c hc
    obtain ⟨v, hv⟩ := hmeans.exists_orderMeans ho
    exact hv.mem hc

/-- A query with each form of filter, two rules and an order by one of them. -/
def failuresQuery : Json :=
  let passing := .object [("GT", .object [("a_avg", .number (.integer 50))])]
  let computing := .object [("IS", .object [("a_dept", .string "c*")])]
  .object
    [("WHERE", .object [("AND", .array [.object [("NOT", passing)],
        .object [("OR", .array [computing, .object [("EQ", .object [("a_year",
          .number (.integer 1900))])]])]])]),
      ("TRANSFORMATIONS", .object
        [("GROUP", .array [.string "a_dept"]),
          ("APPLY", .array
            [.object [("worst", .object [("MIN", .string "a_avg")])],
              .object [("teachers", .object [("COUNT", .string "a_instructor")])]])]),
      ("OPTIONS", .object
        [("COLUMNS", .array [.string "a_dept", .string "worst"]),
          ("ORDER", .object [("dir", .string "DOWN"), ("keys", .array [.string "worst"])])])]

/-- The keys are those of the filter, the grouping, the targets and the columns. -/
theorem Plan.wellFormed_of_ofJson_failuresQuery :
    ∃ p, Plan.ofJson (fun _ => none) failuresQuery = .ok p ∧ p.WellFormed ∧ p.kind = .courses ∧
      p.keys.map FieldKey.key = ["a_avg", "a_dept", "a_year", "a_dept", "a_avg", "a_instructor",
        "a_dept"] := by
  let avg : FieldKey := ⟨"a_avg", .avg⟩
  let dept : FieldKey := ⟨"a_dept", .dept⟩
  let p : Plan :=
    ⟨"a", .courses,
      .and [.not (.compare .greater avg (JsonNumber.integer 50).toBinary64),
        .or [.like dept (.startsWith "c"),
          .compare .equal ⟨"a_year", .year⟩ (JsonNumber.integer 1900).toBinary64]],
      some ⟨[dept], [⟨"worst", .min, avg⟩, ⟨"teachers", .count, ⟨"a_instructor", .instructor⟩⟩]⟩,
      [.field dept, .rule "worst"], some ⟨.down, [.rule "worst"]⟩⟩
  have hread : Plan.ofJson (fun _ => none) failuresQuery = .ok p := rfl
  refine ⟨p, hread, Plan.wellFormed_of_ofJson hread, rfl, ?_⟩
  simp [p, Plan.keys, Filter.keys, Grouping.allKeys, Column.key?, avg, dept]

end CampusQuery
