import Mathlib
import CampusQuery.Proofs.Entries
import CampusQuery.Proofs.Query.Language

/-!
# Plans that have been read

What the reading of a query ensures of its plan, whatever the query: the keys name fields of the
dataset, rules have names that no key has, and the columns and the order are made of them.

* `Plan.Resolved` — what is ensured, by `QueryMeans.resolved`.
* `Json.columnNames` — the columns are named as the query asks, by `QueryMeans.map_name_columns`.
* `Plan.Shows` — the type of the values under a name, of which there is one for each column:
  `Plan.Resolved.eq_shownAs`.
-/

namespace CampusQuery

/-! ## What is asked for -/

namespace Json

/-- The value under a key, in an object that has it. -/
def under? (key : String) : Json → Option Json
  | .object entries => entries.lookup key
  | _ => none

/-- The names that a query asks for as columns. -/
def columnNames (raw : Json) : List String :=
  match (raw.under? "OPTIONS").bind (under? "COLUMNS") with
  | some (.array items) => items.filterMap string?
  | _ => []

end Json

/-- The type of value by which answers show the values of a field. -/
def FieldType.shownAs : FieldType → JsonType
  | .numeric => .number
  | .text => .string

/-- The type of the values of a column. -/
def Column.shownAs : Column → JsonType
  | .field k => k.type.shownAs
  | .rule _ => .number

theorem Column.shownAs_eq (c : Column) : c.shownAs = if c.isText then .string else .number := by
  cases c with
  | field k => cases h : k.type <;> simp [shownAs, isText, FieldType.shownAs, h]
  | rule name => rfl

namespace Plan

/-- The type of the values under a name: that of the field which the name stands for, and under the
name of a rule they are numbers. -/
def Shows (p : Plan) (name : String) (type : JsonType) : Prop :=
  (∃ f, Names p.dataset p.kind name f ∧ type = f.type.shownAs) ∨
    ∃ g ∈ p.grouping, name ∈ g.rules.map Rule.name ∧ type = .number

/-- Where a column has its values from: from a field of the dataset, which is one of the keys if
rows are grouped, or from a rule. -/
def Offers (p : Plan) : Column → Prop
  | .field k => Names p.dataset p.kind k.key k.field ∧ ∀ g ∈ p.grouping, k ∈ g.keys
  | .rule name => ∃ g ∈ p.grouping, name ∈ g.rules.map Rule.name

/-- What the reading of a query ensures of its plan. -/
structure Resolved (p : Plan) : Prop where
  keys : ∀ g ∈ p.grouping, ∀ k ∈ g.keys, Names p.dataset p.kind k.key k.field
  unseparated : ∀ g ∈ p.grouping, ∀ r ∈ g.rules, separator ∉ r.name.toList
  targets : ∀ g ∈ p.grouping, ∀ r ∈ g.rules,
    r.key.field.kind = p.kind ∧ r.aggregate.accepts r.key.type = true
  columns : ∀ c ∈ p.columns, p.Offers c
  order : ∀ o ∈ p.order, ∀ c ∈ o.columns, c ∈ p.columns

end Plan

theorem ColumnMeans.offers {p : Plan} {name : String} {c : Column}
    (hkeys : ∀ g ∈ p.grouping, ∀ k ∈ g.keys, Names p.dataset p.kind k.key k.field)
    (h : ColumnMeans p.dataset p.kind p.grouping name c) : p.Offers c := by
  cases hg : p.grouping with
  | none =>
    rw [hg] at h
    obtain ⟨k, hk, rfl⟩ := h
    exact ⟨hk.key_eq ▸ hk.names, by simp [hg]⟩
  | some g =>
    rw [hg] at h
    rcases h with ⟨k, hk, rfl⟩ | ⟨-, hrule, rfl⟩
    · have hmem := List.mem_of_find?_eq_some hk
      refine ⟨hkeys g hg k hmem, fun g' hg' => ?_⟩
      obtain rfl := Option.some.inj (hg.symm.trans hg')
      exact hmem
    · exact ⟨g, hg, List.mem_map.mpr hrule⟩

theorem QueryMeans.resolved {raw : Json} {p : Plan} (h : QueryMeans raw p) : p.Resolved := by
  obtain ⟨parts, -, -, -, -, -, -, -, hgrouping, oparts, names, -, -, -, -, hcolumns, horder⟩ := h
  dsimp only at hgrouping hcolumns horder
  have hmeans : ∀ g ∈ p.grouping, ∃ v, GroupingMeans p.dataset p.kind v g := by
    rintro g hg
    rw [hg] at hgrouping
    generalize parts.lookup "TRANSFORMATIONS" = w at hgrouping
    cases hgrouping with
    | some hv => exact ⟨_, hv⟩
  have hrules : ∀ g ∈ p.grouping, ∀ r ∈ g.rules, ∃ v, RuleMeans p.dataset p.kind v r := by
    intro g hg r hr
    obtain ⟨v, hv⟩ := hmeans g hg
    obtain ⟨vs, hvs, -⟩ := hv.written
    exact (exists_of_mem_forall₂ hvs hr).imp fun _ h => h.2
  have hkeys : ∀ g ∈ p.grouping, ∀ k ∈ g.keys, Names p.dataset p.kind k.key k.field := by
    intro g hg k hk
    obtain ⟨v, hv⟩ := hmeans g hg
    exact (hv.keys k hk).names
  refine ⟨hkeys, fun g hg r hr => ?_, fun g hg r hr => ?_, fun c hc => ?_, fun o ho c hc => ?_⟩
  · obtain ⟨v, hv⟩ := hrules g hg r hr
    exact hv.unseparated
  · obtain ⟨v, hv⟩ := hrules g hg r hr
    exact ⟨hv.written.1.kind_eq, hv.accepted⟩
  · obtain ⟨name, -, hname⟩ := exists_of_mem_forall₂ hcolumns hc
    exact hname.offers hkeys
  · rw [ho] at horder
    generalize oparts.lookup "ORDER" = w at horder
    cases horder with
    | some hv =>
      rcases hv with ⟨key, c', -, hc', rfl⟩ | ⟨keys, -, hkeys, -⟩
      · obtain rfl := List.mem_singleton.mp hc
        exact List.mem_of_find?_eq_some hc'
      · obtain ⟨key, -, hkey⟩ := exists_of_mem_forall₂ hkeys hc
        exact List.mem_of_find?_eq_some hkey

theorem QueryMeans.map_name_columns {raw : Json} {p : Plan} (h : QueryMeans raw p) :
    p.columns.map Column.name = raw.columnNames := by
  obtain ⟨parts, -, optionsClause, rfl, -, -, hoptions, -, -, hshown⟩ := h
  obtain ⟨oparts, names, rfl, -, hnames, -, hcolumns, -⟩ := hshown
  rw [(map_name_of_columnMeans hcolumns).1, Json.columnNames]
  simp only [Json.under?, hoptions, Option.bind_some, hnames, List.filterMap_map]
  exact (List.filterMap_some).symm

/-! ## Types of columns -/

theorem Names.separator_mem {id name : String} {kind : Kind} {f : Field}
    (h : Names id kind name f) : separator ∈ name.toList := by
  rw [h.written]
  simp [Char.toString]

theorem Names.unique {id name : String} {kind : Kind} {f g : Field} (hf : Names id kind name f)
    (hg : Names id kind name g) : f = g := by
  have h := hf.written.symm.trans hg.written
  rw [String.append_right_inj] at h
  exact Field.label_inj h

namespace Plan.Resolved

variable {p : Plan}

theorem shows_of_mem (h : p.Resolved) {c : Column} (hc : c ∈ p.columns) :
    p.Shows c.name c.shownAs := by
  have hoffers := h.columns c hc
  cases c with
  | field k => exact .inl ⟨k.field, hoffers.1, rfl⟩
  | rule name =>
    obtain ⟨g, hg, hname⟩ := hoffers
    exact .inr ⟨g, hg, hname, rfl⟩

theorem separator_notMem (h : p.Resolved) {g : Grouping} (hg : g ∈ p.grouping) {name : String}
    (hname : name ∈ g.rules.map Rule.name) : separator ∉ name.toList := by
  obtain ⟨r, hr, rfl⟩ := List.mem_map.mp hname
  exact h.unseparated g hg r hr

/-- Values under one name are of one type, since no rule has the name of a key. -/
theorem shows_unique (h : p.Resolved) {name : String} {type type' : JsonType}
    (hshows : p.Shows name type) (hshows' : p.Shows name type') : type = type' := by
  rcases hshows with ⟨f, hf, rfl⟩ | ⟨g, hg, hname, rfl⟩
  · rcases hshows' with ⟨f', hf', rfl⟩ | ⟨g', hg', hname', rfl⟩
    · rw [hf.unique hf']
    · exact absurd hf.separator_mem (h.separator_notMem hg' hname')
  · rcases hshows' with ⟨f', hf', rfl⟩ | ⟨g', hg', hname', rfl⟩
    · exact absurd hf'.separator_mem (h.separator_notMem hg hname)
    · rfl

theorem eq_shownAs (h : p.Resolved) {c : Column} (hc : c ∈ p.columns) {type : JsonType}
    (hshows : p.Shows c.name type) : type = c.shownAs :=
  h.shows_unique hshows (h.shows_of_mem hc)

end Plan.Resolved

end CampusQuery
