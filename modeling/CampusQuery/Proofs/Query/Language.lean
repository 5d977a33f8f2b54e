import Mathlib
import CampusQuery.Proofs.Query.Meaning

/-!
# The language of queries

The grammar of queries as a property of their text alone: it speaks of the id and the kind of a
dataset, of names and of shapes, and of nothing that reading a query finds or keeps.

* `IsQuery` — the queries about a dataset of a given id and kind.
* `accepts_iff_isQuery` — the queries that are read without a fault are those of the grammar, for
  some id and kind that the catalog does not speak against.
-/

namespace CampusQuery

/-! ## The grammar -/

/-- A key names a field: the id of the dataset, an underscore and the label of a field of its
kind. -/
structure Names (id : String) (kind : Kind) (key : String) (f : Field) : Prop where
  kind_eq : f.kind = kind
  written : key = id ++ separator.toString ++ f.label

/-- Asterisks stand at the ends of a text only. -/
def StarsAtEnds (raw : String) : Prop :=
  ∀ i, raw.toList[i]? = some '*' → i = 0 ∨ i + 1 = raw.toList.length

/-- The nodes of a filter. -/
inductive IsNode (id : String) (kind : Kind) : Json → Prop
  | connective {name : String} {vs : List Json} : name = "AND" ∨ name = "OR" → vs ≠ [] →
      (∀ v ∈ vs, IsNode id kind v) → IsNode id kind (.object [(name, .array vs)])
  | comparison {name key : String} {f : Field} {n : JsonNumber} :
      name = "LT" ∨ name = "GT" ∨ name = "EQ" → Names id kind key f → f.type = .numeric →
      IsNode id kind (.object [(name, .object [(key, .number n)])])
  | pattern {key raw : String} {f : Field} : Names id kind key f → f.type = .text →
      StarsAtEnds raw → IsNode id kind (.object [("IS", .object [(key, .string raw)])])
  | negation {v : Json} : IsNode id kind v → IsNode id kind (.object [("NOT", v)])

/-- What can stand under `WHERE`. -/
def IsCondition (id : String) (kind : Kind) (v : Json) : Prop :=
  v = .object [] ∨ IsNode id kind v

/-- A rule of a given name: all aggregates but `COUNT` want a number. -/
structure IsRule (id : String) (kind : Kind) (name : String) (v : Json) : Prop where
  nonempty : name ≠ ""
  unseparated : '_' ∉ name.toList
  written : ∃ label key f, v = .object [(name, .object [(label, .string key)])] ∧
    Names id kind key f ∧
    (label = "COUNT" ∨ label ∈ ["MAX", "MIN", "AVG", "SUM"] ∧ f.type = .numeric)

/-- What can stand under `TRANSFORMATIONS`, with its keys and the names of its rules. -/
structure IsTransformations (id : String) (kind : Kind) (keys names : List String) (v : Json) :
    Prop where
  nonempty : keys ≠ []
  fields : ∀ key ∈ keys, ∃ f, Names id kind key f
  nodup : names.Nodup
  written : ∃ vs, List.Forall₂ (IsRule id kind) names vs ∧
    (v = .object [("GROUP", .array (keys.map .string)), ("APPLY", .array vs)] ∨
      v = .object [("APPLY", .array vs), ("GROUP", .array (keys.map .string))])

/-- What can stand under `ORDER`. -/
def IsOrder (columns : List String) (v : Json) : Prop :=
  (∃ key ∈ columns, v = .string key) ∨
    ∃ d keys, (d = "UP" ∨ d = "DOWN") ∧ keys ≠ [] ∧ (∀ key ∈ keys, key ∈ columns) ∧
      (v = .object [("dir", .string d), ("keys", .array (keys.map .string))] ∨
        v = .object [("keys", .array (keys.map .string)), ("dir", .string d)])

/-- What can stand under `OPTIONS`, when only some names can be shown. -/
def IsOptions (shown : String → Prop) (v : Json) : Prop :=
  ∃ parts columns, v = .object parts ∧ (∀ e ∈ parts, e.1 = "COLUMNS" ∨ e.1 = "ORDER") ∧
    parts.lookup "COLUMNS" = some (.array (columns.map .string)) ∧ columns ≠ [] ∧
    (∀ column ∈ columns, shown column) ∧
    ∀ w, parts.lookup "ORDER" = some w → IsOrder columns w

/-- The queries about a dataset of a given id and kind. Without a grouping its fields can be shown,
with one only the keys and the rules of the grouping. -/
def IsQuery (id : String) (kind : Kind) (v : Json) : Prop :=
  ∃ parts whereClause optionsClause, v = .object parts ∧
    (∀ e ∈ parts, e.1 = "WHERE" ∨ e.1 = "OPTIONS" ∨ e.1 = "TRANSFORMATIONS") ∧
    parts.lookup "WHERE" = some whereClause ∧ parts.lookup "OPTIONS" = some optionsClause ∧
    IsCondition id kind whereClause ∧
    match parts.lookup "TRANSFORMATIONS" with
    | none => IsOptions (fun key => ∃ f, Names id kind key f) optionsClause
    | some w => ∃ keys names, IsTransformations id kind keys names w ∧
        IsOptions (fun key => key ∈ keys ∨ key ∈ names) optionsClause

/-! ## What has a meaning is in the grammar, and the other way round -/

variable {id : String} {kind : Kind}

theorem KeyMeans.names {key : String} {k : FieldKey} (h : KeyMeans id kind key k) :
    Names id kind key k.field :=
  ⟨h.kind_eq, h.written⟩

theorem Names.means {key : String} {f : Field} (h : Names id kind key f) :
    KeyMeans id kind key ⟨key, f⟩ :=
  ⟨rfl, h.kind_eq, h.written⟩

theorem starsAtEnds_iff {raw : String} {c d : Char} {cs : List Char}
    (h : raw.toList = c :: (cs ++ [d])) : StarsAtEnds raw ↔ '*' ∉ cs := by
  unfold StarsAtEnds
  rw [h, List.mem_iff_getElem?]
  constructor
  · rintro hends ⟨i, hi⟩
    have hlt := (List.getElem?_eq_some_iff.mp hi).1
    have := hends (i + 1) (by rw [List.getElem?_cons_succ, List.getElem?_append_left hlt, hi])
    simp at this
    omega
  · intro hno i hi
    rcases i with _ | i
    · exact Or.inl rfl
    · rw [List.getElem?_cons_succ] at hi
      by_cases hlt : i < cs.length
      · rw [List.getElem?_append_left hlt] at hi
        exact absurd ⟨i, hi⟩ hno
      · have := (List.getElem?_eq_some_iff.mp hi).1
        simp at this ⊢
        omega

theorem Pattern.isSome_ofText?_iff {raw : String} :
    (ofText? raw).isSome ↔ raw = "*" ∨ raw = "**" ∨ wildcard ∉ between raw.toList := by
  unfold ofText?
  dsimp only
  rw [← or_assoc]
  split_ifs with hany hmem
  · simp [hany]
  · simpa [hany] using hmem
  · simp only [hany, false_or]
    exact ⟨fun _ => hmem, fun _ => by split <;> rfl⟩

/-- A text is read as a pattern just when its asterisks stand at the ends. -/
theorem isSome_ofText?_iff_starsAtEnds {raw : String} :
    (Pattern.ofText? raw).isSome ↔ StarsAtEnds raw := by
  rw [Pattern.isSome_ofText?_iff]
  rcases hraw : raw.toList with _ | ⟨c, rest⟩
  · simp [StarsAtEnds, hraw, Pattern.between]
  rcases List.eq_nil_or_concat rest with rfl | ⟨cs, d, rfl⟩
  · have hends : StarsAtEnds raw := by
      intro i hi
      rw [hraw, List.getElem?_eq_some_iff] at hi
      exact Or.inl (by simpa using hi.1)
    by_cases hc : c = Pattern.wildcard
    · subst hc
      exact iff_of_true (Or.inl (String.toList_inj.mp hraw)) hends
    · simp [hends, Pattern.between, hc, Ne.symm hc]
  · rw [List.concat_eq_append] at hraw ⊢
    rw [starsAtEnds_iff hraw]
    have hone : raw ≠ "*" := by rintro rfl; simp at hraw
    have hbetween : Pattern.wildcard ∉ Pattern.between (c :: (cs ++ [d])) ↔ '*' ∉ cs := by
      have hlast : (c :: (cs ++ [d])).getLast? = some d := by simp [List.getLast?_cons]
      have hmem {x : Char} (hx : x ≠ Pattern.wildcard) : '*' ≠ x := hx.symm
      simp only [Pattern.between, hlast, List.head?_cons, List.tail_cons, beq_iff_eq,
        Option.some.injEq]
      show '*' ∉ _ ↔ _
      split_ifs with hd hc hc
      · simp
      · simp [List.dropLast_cons_of_ne_nil, hmem hc]
      · simp [hmem hd]
      · simp [hmem hc, hmem hd]
    rw [hbetween]
    constructor
    · rintro (h | rfl | h)
      · exact absurd h hone
      · obtain ⟨rfl, hcs⟩ : '*' = c ∧ ['*'] = cs ++ [d] := by simpa using hraw
        obtain rfl : cs = [] := by simpa using congrArg List.length hcs
        simp
      · exact h
    · exact fun h => Or.inr (Or.inr h)

/-! ## Filters -/

mutual

theorem NodeMeans.isNode {v : Json} {f : Filter} (h : NodeMeans id kind v f) :
    IsNode id kind v := by
  cases h with
  | and hne hvs => exact .connective (Or.inl rfl) hne hvs.isNode
  | or hne hvs => exact .connective (Or.inr rfl) hne hvs.isNode
  | @compare c _ _ _ hkey htype =>
    refine .comparison ?_ hkey.names htype
    cases c <;> simp [Comparison.label]
  | like hkey htype hp =>
    exact .pattern hkey.names htype (isSome_ofText?_iff_starsAtEnds.mp (Option.isSome_of_eq_some hp))
  | not hv => exact .negation hv.isNode

theorem NodesMean.isNode {vs : List Json} {fs : List Filter} (h : NodesMean id kind vs fs) :
    ∀ v ∈ vs, IsNode id kind v := by
  cases h with
  | nil => simp
  | cons hv hvs => exact List.forall_mem_cons.mpr ⟨hv.isNode, hvs.isNode⟩

end

theorem exists_nodesMean {vs : List Json} (h : ∀ v ∈ vs, ∃ f, NodeMeans id kind v f) :
    ∃ fs, NodesMean id kind vs fs := by
  induction vs with
  | nil => exact ⟨[], .nil⟩
  | cons v vs ih =>
    obtain ⟨⟨f, hf⟩, hvs⟩ := List.forall_mem_cons.mp h
    obtain ⟨fs, hfs⟩ := ih hvs
    exact ⟨f :: fs, .cons hf hfs⟩

theorem IsNode.exists_means {v : Json} (h : IsNode id kind v) : ∃ f, NodeMeans id kind v f := by
  induction h with
  | connective hname hne _ ih =>
    obtain ⟨fs, hfs⟩ := exists_nodesMean ih
    rcases hname with rfl | rfl
    · exact ⟨.and fs, .and hne hfs⟩
    · exact ⟨.or fs, .or hne hfs⟩
  | comparison hname hkey htype =>
    rcases hname with rfl | rfl | rfl
    · exact ⟨_, .compare (c := .less) hkey.means htype⟩
    · exact ⟨_, .compare (c := .greater) hkey.means htype⟩
    · exact ⟨_, .compare (c := .equal) hkey.means htype⟩
  | pattern hkey htype hraw =>
    obtain ⟨p, hp⟩ := Option.isSome_iff_exists.mp (isSome_ofText?_iff_starsAtEnds.mpr hraw)
    exact ⟨.like _ p, .like hkey.means htype hp⟩
  | negation _ ih =>
    obtain ⟨f, hf⟩ := ih
    exact ⟨.not f, .not hf⟩

theorem exists_conditionMeans_iff {v : Json} :
    (∃ f, ConditionMeans id kind v f) ↔ IsCondition id kind v := by
  constructor
  · rintro ⟨f, ⟨rfl, -⟩ | hf⟩
    · exact Or.inl rfl
    · exact Or.inr hf.isNode
  · rintro (rfl | hv)
    · exact ⟨.all, Or.inl ⟨rfl, rfl⟩⟩
    · obtain ⟨f, hf⟩ := hv.exists_means
      exact ⟨f, Or.inr hf⟩

/-! ## Groupings -/

theorem accepts_iff_label {a : Aggregate} {type : FieldType} :
    a.accepts type = true ↔
      a.label = "COUNT" ∨ a.label ∈ ["MAX", "MIN", "AVG", "SUM"] ∧ type = .numeric := by
  cases a <;> cases type <;> decide

theorem RuleMeans.isRule {v : Json} {r : Rule} (h : RuleMeans id kind v r) :
    IsRule id kind r.name v :=
  ⟨h.nonempty, h.unseparated, _, _, _, h.written.2, h.written.1.names,
    accepts_iff_label.mp h.accepted⟩

theorem IsRule.exists_means {name : String} {v : Json} (h : IsRule id kind name v) :
    ∃ r, RuleMeans id kind v r ∧ r.name = name := by
  obtain ⟨label, key, f, rfl, hkey, hlabel⟩ := h.written
  have ha : ∃ a : Aggregate, a.label = label := by
    simp only [List.mem_cons, List.not_mem_nil, or_false] at hlabel
    rcases hlabel with rfl | ⟨rfl | rfl | rfl | rfl, -⟩
    exacts [⟨.count, rfl⟩, ⟨.max, rfl⟩, ⟨.min, rfl⟩, ⟨.average, rfl⟩, ⟨.sum, rfl⟩]
  obtain ⟨a, rfl⟩ := ha
  exact ⟨⟨name, a, ⟨key, f⟩⟩, ⟨h.nonempty, h.unseparated, accepts_iff_label.mpr hlabel,
    hkey.means, rfl⟩, rfl⟩

theorem GroupingMeans.isTransformations {v : Json} {g : Grouping} (h : GroupingMeans id kind v g) :
    IsTransformations id kind (g.keys.map FieldKey.key) (g.rules.map Rule.name) v := by
  obtain ⟨vs, hrules, hv⟩ := h.written
  refine ⟨by simpa using h.nonempty, ?_, h.nodup, vs, ?_, by simpa [Function.comp_def] using hv⟩
  · intro key hkey
    obtain ⟨k, hk, rfl⟩ := List.mem_map.mp hkey
    exact ⟨k.field, (h.keys k hk).names⟩
  · rw [List.forall₂_map_left_iff]
    exact hrules.flip.imp fun _ _ hr => hr.isRule

theorem exists_forall₂ {α β : Type} {R : α → β → Prop} {as : List α} (h : ∀ a ∈ as, ∃ b, R a b) :
    ∃ bs, List.Forall₂ R as bs := by
  induction as with
  | nil => exact ⟨[], .nil⟩
  | cons a as ih =>
    obtain ⟨⟨b, hb⟩, has⟩ := List.forall_mem_cons.mp h
    obtain ⟨bs, hbs⟩ := ih has
    exact ⟨b :: bs, .cons hb hbs⟩

theorem exists_rulesMean {names : List String} {vs : List Json}
    (h : List.Forall₂ (IsRule id kind) names vs) :
    ∃ rs, List.Forall₂ (RuleMeans id kind) vs rs ∧ rs.map Rule.name = names := by
  induction h with
  | nil => exact ⟨[], .nil, rfl⟩
  | cons hv _ ih =>
    obtain ⟨r, hr, rfl⟩ := hv.exists_means
    obtain ⟨rs, hrs, rfl⟩ := ih
    exact ⟨r :: rs, .cons hr hrs, rfl⟩

theorem IsTransformations.exists_means {keys names : List String} {v : Json}
    (h : IsTransformations id kind keys names v) :
    ∃ g, GroupingMeans id kind v g ∧ g.keys.map FieldKey.key = keys ∧
      g.rules.map Rule.name = names := by
  obtain ⟨vs, hrules, hv⟩ := h.written
  obtain ⟨ks, hks⟩ : ∃ ks, List.Forall₂ (fun key k => KeyMeans id kind key k) keys ks :=
    exists_forall₂ fun key hkey => (h.fields key hkey).imp' _ fun _ hf => hf.means
  obtain ⟨rfl, hkeys⟩ := forall₂_keyMeans_iff.mp hks
  obtain ⟨rs, hrs, rfl⟩ := exists_rulesMean hrules
  refine ⟨⟨ks, rs⟩, ⟨?_, hkeys, h.nodup, vs, hrs, ?_⟩, rfl, rfl⟩
  · simpa using h.nonempty
  · simpa [Function.comp_def] using hv

/-! ## Columns and order -/

/-- The names that can be shown with a grouping or without one. -/
def Shown (id : String) (kind : Kind) : Option Grouping → String → Prop
  | none, key => ∃ f, Names id kind key f
  | some g, key => key ∈ g.keys.map FieldKey.key ∨ key ∈ g.rules.map Rule.name

theorem ColumnMeans.shown {g : Option Grouping} {key : String} {c : Column}
    (h : ColumnMeans id kind g key c) : Shown id kind g key ∧ c.name = key := by
  cases g with
  | none =>
    obtain ⟨k, hk, rfl⟩ := h
    exact ⟨⟨k.field, hk.names⟩, hk.key_eq⟩
  | some g =>
    rcases h with ⟨k, hk, rfl⟩ | ⟨-, ⟨r, hr, rfl⟩, rfl⟩
    · have hkey : k.key = key := by simpa using List.find?_some hk
      exact ⟨Or.inl (List.mem_map.mpr ⟨k, List.mem_of_find?_eq_some hk, hkey⟩), hkey⟩
    · exact ⟨Or.inr (List.mem_map.mpr ⟨r, hr, rfl⟩), rfl⟩

theorem Shown.exists_means {g : Option Grouping} {key : String} (h : Shown id kind g key) :
    ∃ c, ColumnMeans id kind g key c := by
  cases g with
  | none =>
    obtain ⟨f, hf⟩ := h
    exact ⟨_, _, hf.means, rfl⟩
  | some g =>
    cases hfind : g.keys.find? fun k => k.key == key with
    | some k => exact ⟨_, Or.inl ⟨k, hfind, rfl⟩⟩
    | none =>
      have hno : ∀ k ∈ g.keys, k.key ≠ key := by simpa using hfind
      rcases h with h | h
      · obtain ⟨k, hk, hkey⟩ := List.mem_map.mp h
        exact absurd hkey (hno k hk)
      · exact ⟨_, Or.inr ⟨hno, List.mem_map.mp h, rfl⟩⟩

theorem map_name_of_columnMeans {g : Option Grouping} {names : List String} {cs : List Column}
    (h : List.Forall₂ (ColumnMeans id kind g) names cs) :
    cs.map Column.name = names ∧ ∀ name ∈ names, Shown id kind g name := by
  induction h with
  | nil => simp
  | cons hc _ ih =>
    obtain ⟨hshown, hname⟩ := hc.shown
    exact ⟨by rw [List.map_cons, hname, ih.1], List.forall_mem_cons.mpr ⟨hshown, ih.2⟩⟩

theorem exists_isColumnNamed_iff {columns : List Column} {key : String} :
    (∃ c, IsColumnNamed columns key c) ↔ key ∈ columns.map Column.name := by
  unfold IsColumnNamed
  rw [← Option.isSome_iff_exists, List.find?_isSome]
  simp

theorem exists_orderMeans_iff {columns : List Column} {v : Json} :
    (∃ o, OrderMeans columns v o) ↔ IsOrder (columns.map Column.name) v := by
  constructor
  · rintro ⟨o, ⟨key, c, rfl, hc, -⟩ | ⟨keys, hne, hkeys, hv⟩⟩
    · exact Or.inl ⟨key, exists_isColumnNamed_iff.mp ⟨c, hc⟩, rfl⟩
    · refine Or.inr ⟨o.direction.label, keys, ?_, hne, fun key hkey => ?_, hv⟩
      · cases o.direction <;> simp [Direction.label]
      · obtain ⟨i, hi, rfl⟩ := List.getElem_of_mem hkey
        exact exists_isColumnNamed_iff.mp ⟨_, hkeys.get hi (hkeys.length_eq ▸ hi)⟩
  · rintro (⟨key, hkey, rfl⟩ | ⟨d, keys, hd, hne, hkeys, hv⟩)
    · obtain ⟨c, hc⟩ := exists_isColumnNamed_iff.mpr hkey
      exact ⟨_, Or.inl ⟨key, c, rfl, hc, rfl⟩⟩
    · obtain ⟨cs, hcs⟩ :=
        exists_forall₂ fun key hkey => exists_isColumnNamed_iff.mpr (hkeys key hkey)
      rcases hd with rfl | rfl
      · exact ⟨⟨.up, cs⟩, Or.inr ⟨keys, hne, hcs, hv⟩⟩
      · exact ⟨⟨.down, cs⟩, Or.inr ⟨keys, hne, hcs, hv⟩⟩

theorem exists_optionsMean_iff {g : Option Grouping} {v : Json} :
    (∃ shown, OptionsMean id kind g v shown) ↔ IsOptions (Shown id kind g) v := by
  constructor
  · rintro ⟨⟨cs, o⟩, parts, names, rfl, hkeys, hcolumns, hne, hcs, ho⟩
    obtain ⟨rfl, hshown⟩ := map_name_of_columnMeans hcs
    refine ⟨parts, _, rfl, hkeys, hcolumns, hne, hshown, fun w hw => ?_⟩
    rw [hw] at ho
    cases ho with
    | some ho => exact exists_orderMeans_iff.mp ⟨_, ho⟩
  · rintro ⟨parts, columns, rfl, hkeys, hcolumns, hne, hshown, ho⟩
    obtain ⟨cs, hcs⟩ := exists_forall₂ fun c hc => (hshown c hc).exists_means
    obtain ⟨rfl, -⟩ := map_name_of_columnMeans hcs
    have horder : ∃ o, Option.Rel (OrderMeans cs) (parts.lookup "ORDER") o := by
      cases hw : parts.lookup "ORDER" with
      | none => exact ⟨none, .none⟩
      | some w =>
        obtain ⟨o, hmeans⟩ := exists_orderMeans_iff.mpr (ho w hw)
        exact ⟨some o, .some hmeans⟩
    obtain ⟨o, hmeans⟩ := horder
    exact ⟨(cs, o), parts, _, rfl, hkeys, hcolumns, hne, hcs, hmeans⟩

/-! ## Queries -/

theorem exists_clausesMean_iff {v : Json} :
    (∃ c, ClausesMean id kind v c) ↔ IsQuery id kind v := by
  constructor
  · rintro ⟨⟨f, g, shown⟩, parts, w, o, rfl, hkeys, hw, ho, hf, hg, hshown⟩
    refine ⟨parts, w, o, rfl, hkeys, hw, ho, exists_conditionMeans_iff.mp ⟨f, hf⟩, ?_⟩
    have hoptions := exists_optionsMean_iff.mp ⟨shown, hshown⟩
    cases ht : parts.lookup "TRANSFORMATIONS" with
    | none =>
      rw [ht] at hg
      cases hg
      exact hoptions
    | some t =>
      rw [ht] at hg
      cases hg with
      | some hg => exact ⟨_, _, hg.isTransformations, hoptions⟩
  · rintro ⟨parts, w, o, rfl, hkeys, hw, ho, hcondition, hrest⟩
    obtain ⟨f, hf⟩ := exists_conditionMeans_iff.mpr hcondition
    have hgrouping : ∃ g, Option.Rel (GroupingMeans id kind) (parts.lookup "TRANSFORMATIONS") g ∧
        IsOptions (Shown id kind g) o := by
      cases ht : parts.lookup "TRANSFORMATIONS" with
      | none =>
        rw [ht] at hrest
        exact ⟨none, .none, hrest⟩
      | some t =>
        rw [ht] at hrest
        obtain ⟨keys, names, htrans, hoptions⟩ := hrest
        obtain ⟨g, hg, rfl, rfl⟩ := htrans.exists_means
        exact ⟨some g, .some hg, hoptions⟩
    obtain ⟨g, hg, hoptions⟩ := hgrouping
    obtain ⟨shown, hshown⟩ := exists_optionsMean_iff.mpr hoptions
    exact ⟨(f, g, shown), parts, w, o, rfl, hkeys, hw, ho, hf, hg, hshown⟩

/-- A query is read without a fault just when it is in the grammar, for an id and a kind that the
catalog does not speak against. -/
theorem accepts_iff_isQuery (known : String → Option Kind) (v : Json) :
    (∃ p, Plan.ofJson known v = .ok p) ↔ ∃ id kind, Admits known id kind ∧ IsQuery id kind v := by
  constructor
  · rintro ⟨p, hp⟩
    obtain ⟨hadmits, hmeans⟩ := ofJson_eq_ok_iff.mp hp
    exact ⟨p.dataset, p.kind, hadmits, exists_clausesMean_iff.mp ⟨_, hmeans⟩⟩
  · rintro ⟨id, kind, hadmits, hv⟩
    obtain ⟨⟨f, g, cs, o⟩, hmeans⟩ := exists_clausesMean_iff.mpr hv
    exact ⟨⟨id, kind, f, g, cs, o⟩, ofJson_eq_ok_iff.mpr ⟨hadmits, hmeans⟩⟩

end CampusQuery
