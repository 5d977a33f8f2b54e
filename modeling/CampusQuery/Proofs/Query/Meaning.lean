import Mathlib
import CampusQuery.Proofs.Query.Reading

/-!
# What a query means

Every part of the language is given a meaning that knows the dataset, its id and kind, from the
start and looks at one part alone.

* `reads_filter`, `reads_grouping`, `reads_options` — the readings of the clauses have their
  meaning.
* `ofJson_eq_ok_iff` — a query is read as a plan just where the plan is its meaning and the catalog
  does not give the dataset another kind.
-/

namespace CampusQuery

/-! ## Filters -/

theorem Comparison.eq_label_iff {c : Comparison} {key : String} :
    key = c.label ↔
      (key = "LT" ∧ c = .less) ∨ (key = "GT" ∧ c = .greater) ∨ (key = "EQ" ∧ c = .equal) := by
  cases c <;> simp [label]

mutual

/-- What a filter node means under an id and a kind. -/
inductive NodeMeans (id : String) (kind : Kind) : Json → Filter → Prop
  | and {vs : List Json} {fs : List Filter} : vs ≠ [] → NodesMean id kind vs fs →
      NodeMeans id kind (.object [("AND", .array vs)]) (.and fs)
  | or {vs : List Json} {fs : List Filter} : vs ≠ [] → NodesMean id kind vs fs →
      NodeMeans id kind (.object [("OR", .array vs)]) (.or fs)
  | compare {c : Comparison} {key : String} {k : FieldKey} {n : JsonNumber} :
      KeyMeans id kind key k → k.type = .numeric →
      NodeMeans id kind (.object [(c.label, .object [(key, .number n)])])
        (.compare c k n.toBinary64)
  | like {key raw : String} {k : FieldKey} {p : Pattern} :
      KeyMeans id kind key k → k.type = .text → Pattern.ofText? raw = some p →
      NodeMeans id kind (.object [("IS", .object [(key, .string raw)])]) (.like k p)
  | not {v : Json} {f : Filter} : NodeMeans id kind v f →
      NodeMeans id kind (.object [("NOT", v)]) (.not f)

/-- What filter nodes mean one by one. -/
inductive NodesMean (id : String) (kind : Kind) : List Json → List Filter → Prop
  | nil : NodesMean id kind [] []
  | cons {v : Json} {vs : List Json} {f : Filter} {fs : List Filter} : NodeMeans id kind v f →
      NodesMean id kind vs fs → NodesMean id kind (v :: vs) (f :: fs)

end

namespace Check

variable {known : String → Option Kind}

theorem reads_bound (c : Comparison) (v : Json) :
    Reads known (bound c v) fun _ _ x => ∃ n, v = .number n ∧ x = n.toBinary64 := by
  cases v with
  | number n =>
    refine (Reads.pure n.toBinary64).congr fun _ _ x => ?_
    simp [eq_comm]
  | null | boolean | string | array | object =>
    exact (Reads.throw _).congr fun _ _ x => by simp

theorem reads_comparison (c : Comparison) (body : Json) :
    Reads known (comparison known c body) fun id kind f =>
      ∃ key n k, body = .object [(key, .number n)] ∧ KeyMeans id kind key k ∧
        k.type = .numeric ∧ f = .compare c k n.toBinary64 := by
  refine ((reads_singleEntry _ body).bind fun e => (reads_typedKey _ .numeric e.1).bind fun k =>
    (reads_bound c e.2).bind fun x => Reads.pure (Filter.compare c k x)).congr fun id kind f => ?_
  constructor
  · rintro ⟨⟨key, _⟩, rfl, k, ⟨hkey, htype⟩, _, ⟨n, rfl, rfl⟩, rfl⟩
    exact ⟨key, n, k, rfl, hkey, htype, rfl⟩
  · rintro ⟨key, n, k, rfl, hkey, htype, rfl⟩
    exact ⟨(key, .number n), rfl, k, ⟨hkey, htype⟩, _, ⟨n, rfl, rfl⟩, rfl⟩

theorem reads_pattern (v : Json) :
    Reads known (pattern v) fun _ _ p => ∃ raw, v = .string raw ∧ Pattern.ofText? raw = some p := by
  cases v with
  | string raw =>
    rw [pattern]
    cases hraw : Pattern.ofText? raw with
    | none => exact (Reads.throw _).congr fun _ _ p => by simp [hraw]
    | some p => exact (Reads.pure p).congr fun _ _ q => by simp [hraw]
  | null | boolean | number | array | object =>
    exact (Reads.throw _).congr fun _ _ p => by simp

theorem reads_like (body : Json) :
    Reads known (like known body) fun id kind f =>
      ∃ key raw k p, body = .object [(key, .string raw)] ∧ KeyMeans id kind key k ∧
        k.type = .text ∧ Pattern.ofText? raw = some p ∧ f = .like k p := by
  refine ((reads_singleEntry _ body).bind fun e => (reads_typedKey _ .text e.1).bind fun k =>
    (reads_pattern e.2).bind fun p => Reads.pure (Filter.like k p)).congr fun id kind f => ?_
  constructor
  · rintro ⟨⟨key, _⟩, rfl, k, ⟨hkey, htype⟩, p, ⟨raw, rfl, hraw⟩, rfl⟩
    exact ⟨key, raw, k, p, rfl, hkey, htype, hraw, rfl⟩
  · rintro ⟨key, raw, k, p, rfl, hkey, htype, hraw, rfl⟩
    exact ⟨(key, .string raw), rfl, k, ⟨hkey, htype⟩, p, ⟨raw, rfl, hraw⟩, rfl⟩

theorem nodeMeans_object_iff {id : String} {kind : Kind} {key : String} {body : Json} {f : Filter} :
    NodeMeans id kind (.object [(key, body)]) f ↔
      (key = "AND" ∧ ∃ vs fs, body = .array vs ∧ vs ≠ [] ∧ NodesMean id kind vs fs ∧ .and fs = f) ∨
      (key = "OR" ∧ ∃ vs fs, body = .array vs ∧ vs ≠ [] ∧ NodesMean id kind vs fs ∧ .or fs = f) ∨
      (∃ c : Comparison, key = c.label ∧ ∃ key n k, body = .object [(key, .number n)] ∧
        KeyMeans id kind key k ∧ k.type = .numeric ∧ f = .compare c k n.toBinary64) ∨
      (key = "IS" ∧ ∃ key raw k p, body = .object [(key, .string raw)] ∧
        KeyMeans id kind key k ∧ k.type = .text ∧ Pattern.ofText? raw = some p ∧ f = .like k p) ∨
      (key = "NOT" ∧ ∃ g, NodeMeans id kind body g ∧ .not g = f) := by
  constructor
  · generalize hv : Json.object [(key, body)] = v
    intro h
    cases h <;> simp only [Json.object.injEq, List.cons.injEq, Prod.mk.injEq, and_true] at hv <;>
      obtain ⟨rfl, rfl⟩ := hv
    case and vs fs hne hvs => exact Or.inl ⟨rfl, vs, fs, rfl, hne, hvs, rfl⟩
    case or vs fs hne hvs => exact Or.inr (Or.inl ⟨rfl, vs, fs, rfl, hne, hvs, rfl⟩)
    case compare c key k n hkey htype =>
      exact Or.inr (Or.inr (Or.inl ⟨c, rfl, key, n, k, rfl, hkey, htype, rfl⟩))
    case like key raw k p hkey htype hp =>
      exact Or.inr (Or.inr (Or.inr (Or.inl ⟨rfl, key, raw, k, p, rfl, hkey, htype, hp, rfl⟩)))
    case not g hg => exact Or.inr (Or.inr (Or.inr (Or.inr ⟨rfl, g, hg, rfl⟩)))
  · rintro (⟨rfl, vs, fs, rfl, hne, hvs, rfl⟩ | ⟨rfl, vs, fs, rfl, hne, hvs, rfl⟩ |
      ⟨c, rfl, key, n, k, rfl, hkey, htype, rfl⟩ | ⟨rfl, key, raw, k, p, rfl, hkey, htype, hp, rfl⟩ |
      ⟨rfl, g, hg, rfl⟩)
    · exact .and hne hvs
    · exact .or hne hvs
    · exact .compare hkey htype
    · exact .like hkey htype hp
    · exact .not hg

mutual

theorem reads_filter (v : Json) :
    Reads known (filter known v) fun id kind f => NodeMeans id kind v f := by
  match v with
  | .null | .boolean _ | .number _ | .string _ | .array _ =>
    exact (Reads.throw _).congr fun _ _ f => ⟨False.elim, nofun⟩
  | .object [] | .object (_ :: _ :: _) =>
    exact (Reads.throw _).congr fun _ _ f => ⟨False.elim, nofun⟩
  | .object [(key, body)] =>
    rw [filter]
    simp only [nodeMeans_object_iff, Comparison.eq_label_iff]
    split_ifs with hand hor hlt hgt heq his hnot
    · refine ((reads_branches .and body).map Filter.and).congr fun id kind f => ?_
      simp only [hand, true_and, String.reduceEq, false_and, or_false, exists_false]
      constructor
      · rintro ⟨fs, ⟨vs, hbody, hne, hvs⟩, rfl⟩; exact ⟨vs, fs, hbody, hne, hvs, rfl⟩
      · rintro ⟨vs, fs, hbody, hne, hvs, rfl⟩; exact ⟨fs, ⟨vs, hbody, hne, hvs⟩, rfl⟩
    · refine ((reads_branches .or body).map Filter.or).congr fun id kind f => ?_
      simp only [hor, true_and, String.reduceEq, false_and, false_or, or_false, exists_false]
      constructor
      · rintro ⟨fs, ⟨vs, hbody, hne, hvs⟩, rfl⟩; exact ⟨vs, fs, hbody, hne, hvs, rfl⟩
      · rintro ⟨vs, fs, hbody, hne, hvs, rfl⟩; exact ⟨fs, ⟨vs, hbody, hne, hvs⟩, rfl⟩
    · refine (reads_comparison .less body).congr fun id kind f => ?_
      simp [hlt]
    · refine (reads_comparison .greater body).congr fun id kind f => ?_
      simp [hgt]
    · refine (reads_comparison .equal body).congr fun id kind f => ?_
      simp [heq]
    · refine (reads_like body).congr fun id kind f => ?_
      simp [his]
    · refine ((reads_filter body).map Filter.not).congr fun id kind f => ?_
      simp [hnot]
    · refine (Reads.throw _).congr fun id kind f => ?_
      simp [hand, hor, hlt, hgt, heq, his, hnot]

theorem reads_branches (part : Part) (v : Json) :
    Reads known (branches known part v) fun id kind fs =>
      ∃ vs, v = .array vs ∧ vs ≠ [] ∧ NodesMean id kind vs fs := by
  match v with
  | .null | .boolean _ | .number _ | .string _ | .object _ =>
    exact (Reads.throw _).congr fun _ _ f => ⟨False.elim, nofun⟩
  | .array [] => exact (Reads.throw _).congr fun _ _ f => by simp
  | .array (item :: items) =>
    rw [branches]
    refine ((reads_filter item).bind fun f => (reads_filters items).bind fun fs =>
      Reads.pure (f :: fs)).congr fun id kind fs => ?_
    constructor
    · rintro ⟨f, hf, fs, hfs, rfl⟩; exact ⟨_, rfl, by simp, .cons hf hfs⟩
    · rintro ⟨_, ⟨⟩, -, _ | ⟨hf, hfs⟩⟩; exact ⟨_, hf, _, hfs, rfl⟩

theorem reads_filters (vs : List Json) :
    Reads known (filters known vs) fun id kind fs => NodesMean id kind vs fs := by
  match vs with
  | [] =>
    exact (Reads.pure []).congr fun id kind fs =>
      ⟨by rintro rfl; exact .nil, by rintro ⟨⟩; rfl⟩
  | item :: items =>
    rw [filters]
    refine ((reads_filter item).bind fun f => (reads_filters items).bind fun fs =>
      Reads.pure (f :: fs)).congr fun id kind fs => ?_
    constructor
    · rintro ⟨f, hf, fs, hfs, rfl⟩; exact .cons hf hfs
    · rintro (_ | ⟨hf, hfs⟩); exact ⟨_, hf, _, hfs, rfl⟩

end

end Check

/-- What the filter of a query means. -/
def ConditionMeans (id : String) (kind : Kind) (v : Json) (f : Filter) : Prop :=
  (v = .object [] ∧ f = .all) ∨ NodeMeans id kind v f

theorem Check.reads_condition {known : String → Option Kind} (v : Json) :
    Reads known (condition known v) fun id kind f => ConditionMeans id kind v f := by
  have hbody (es : List (String × Json)) :
      Reads known (if es.isEmpty then return .all else filter known v) fun id kind f =>
        if es = [] then f = .all else NodeMeans id kind v f := by
    cases es with
    | nil => exact (Reads.pure _).congr fun _ _ f => by simp [eq_comm]
    | cons e es => exact (reads_filter v).congr fun _ _ f => by simp
  refine ((reads_entries _ v).bind hbody).congr fun id kind f => ?_
  unfold ConditionMeans
  constructor
  · rintro ⟨es, rfl, h⟩
    split_ifs at h with hes
    · exact Or.inl ⟨by rw [hes], h⟩
    · exact Or.inr h
  · rintro (⟨rfl, rfl⟩ | h)
    · exact ⟨[], rfl, by simp⟩
    · obtain ⟨e, rfl⟩ : ∃ e, v = .object [e] := by cases h <;> exact ⟨_, rfl⟩
      exact ⟨_, rfl, by simpa using h⟩

/-! ## Groupings -/

theorem Aggregate.ofLabel?_eq_some_iff {name : String} {a : Aggregate} :
    Aggregate.ofLabel? name = some a ↔ a.label = name := by
  constructor
  · intro h
    simpa using List.find?_some h
  · rintro rfl
    cases a <;> decide

/-- What a rule means. -/
structure RuleMeans (id : String) (kind : Kind) (v : Json) (r : Rule) : Prop where
  nonempty : r.name ≠ ""
  unseparated : separator ∉ r.name.toList
  accepted : r.aggregate.accepts r.key.type = true
  written : KeyMeans id kind r.key.key r.key ∧
    v = .object [(r.name, .object [(r.aggregate.label, .string r.key.key)])]

/-- What a grouping means: its object has just the two entries, in either order. -/
structure GroupingMeans (id : String) (kind : Kind) (v : Json) (g : Grouping) : Prop where
  nonempty : g.keys ≠ []
  keys : ∀ k ∈ g.keys, KeyMeans id kind k.key k
  nodup : (g.rules.map Rule.name).Nodup
  written : ∃ vs, List.Forall₂ (RuleMeans id kind) vs g.rules ∧
    (v = .object [("GROUP", .array (g.keys.map fun k => .string k.key)), ("APPLY", .array vs)] ∨
      v = .object [("APPLY", .array vs), ("GROUP", .array (g.keys.map fun k => .string k.key))])

/-- An object has two given keys and no other just when it has their entries in either order. -/
theorem lookup_two_iff {α : Type} {a b : String} (hab : a ≠ b) {es : List (String × α)} {x y : α} :
    es.lookup a = some x ∧ es.lookup b = some y ∧ es.length = 2 ↔
      es = [(a, x), (b, y)] ∨ es = [(b, y), (a, x)] := by
  have hab' : (a == b) = false := by simpa using hab
  have hba' : (b == a) = false := by simpa using hab.symm
  constructor
  · rintro ⟨ha, hb, hlength⟩
    obtain ⟨⟨c, z⟩, ⟨d, w⟩, rfl⟩ := List.length_eq_two.mp hlength
    simp only [List.lookup_cons, List.lookup_nil] at ha hb
    by_cases hac : a = c
    · subst hac
      by_cases hbd : b = d
      · subst hbd
        simp only [beq_self_eq_true, hba', Option.some.injEq] at ha hb
        exact Or.inl (by rw [ha, hb])
      · have hbd' : (b == d) = false := by simpa using hbd
        simp [hba', hbd'] at hb
    · have hac' : (a == c) = false := by simpa using hac
      by_cases had : a = d
      · subst had
        by_cases hbc : b = c
        · subst hbc
          simp only [beq_self_eq_true, hab', Option.some.injEq] at ha hb
          exact Or.inr (by rw [ha, hb])
        · have hbc' : (b == c) = false := by simpa using hbc
          simp [hba', hbc'] at hb
      · have had' : (a == d) = false := by simpa using had
        simp [hac', had'] at ha
  · rintro (rfl | rfl) <;> simp [List.lookup_cons, hab', hba']

namespace Check

variable {known : String → Option Kind}

theorem reads_aggregate (label : String) :
    Reads known (aggregate label) fun _ _ a => a.label = label := by
  unfold aggregate
  cases hlabel : Aggregate.ofLabel? label with
  | none =>
    refine (Reads.throw _).congr fun _ _ a => ⟨False.elim, fun h => ?_⟩
    rw [Aggregate.ofLabel?_eq_some_iff.mpr h] at hlabel
    cases hlabel
  | some a =>
    refine (Reads.pure a).congr fun _ _ b => ?_
    rw [← Aggregate.ofLabel?_eq_some_iff, hlabel, Option.some.injEq]

theorem reads_aggregated (a : Aggregate) (v : Json) :
    Reads known (aggregated known a v) fun id kind k =>
      ∃ key, v = .string key ∧ KeyMeans id kind key k ∧ a.accepts k.type = true := by
  cases v with
  | string key =>
    refine ((reads_resolve key).bind fun k => (reads_require (a.accepts k.type) _).bind fun _ =>
      Reads.pure k).congr fun id kind k => ?_
    constructor
    · rintro ⟨k, hkey, -, hacc, rfl⟩; exact ⟨key, rfl, hkey, hacc⟩
    · rintro ⟨_, ⟨⟩, hkey, hacc⟩; exact ⟨k, hkey, (), hacc, rfl⟩
  | null | boolean | number | array | object =>
    exact (Reads.throw _).congr fun _ _ k => by simp

theorem reads_rule (v : Json) :
    Reads known (rule known v) fun id kind r => RuleMeans id kind v r := by
  refine ((reads_singleEntry _ v).bind fun e => (reads_require _ _).bind fun _ =>
    (reads_require _ _).bind fun _ => (reads_singleEntry _ e.2).bind fun e' =>
    (reads_aggregate e'.1).bind fun a => (reads_aggregated a e'.2).bind fun k =>
    Reads.pure (⟨e.1, a, k⟩ : Rule)).congr fun id kind r => ?_
  simp only [bne_iff_ne, Bool.not_eq_true', List.contains_eq_mem, decide_eq_false_iff_not]
  constructor
  · rintro ⟨⟨name, _⟩, rfl, -, hne, -, hsep, ⟨label, _⟩, rfl, a, rfl, k, ⟨key, rfl, hkey, hacc⟩,
      rfl⟩
    obtain rfl := hkey.key_eq
    exact ⟨hne, hsep, hacc, hkey, rfl⟩
  · rintro ⟨hne, hsep, hacc, hkey, rfl⟩
    exact ⟨_, rfl, (), hne, (), hsep, _, rfl, _, rfl, _, ⟨_, rfl, hkey, hacc⟩, rfl⟩

theorem reads_rules (names : List String) (vs : List Json) :
    Reads known (rules known names vs) fun id kind rs =>
      List.Forall₂ (RuleMeans id kind) vs rs ∧ (rs.map Rule.name).Nodup ∧
        ∀ r ∈ rs, r.name ∉ names := by
  induction vs generalizing names with
  | nil =>
    refine (Reads.pure []).congr fun id kind rs => ?_
    constructor
    · rintro rfl; simp
    · rintro ⟨⟨⟩, -⟩; rfl
  | cons v vs ih =>
    rw [rules]
    refine ((reads_rule v).bind fun r => (reads_require _ _).bind fun _ =>
      (ih (r.name :: names)).bind fun rs => Reads.pure (r :: rs)).congr fun id kind rs => ?_
    simp only [exists_and_left, exists_const, Bool.not_eq_true', List.contains_eq_mem,
      decide_eq_false_iff_not]
    constructor
    · rintro ⟨r, hr, hnew, rs, ⟨hrs, hnodup, hnot⟩, rfl⟩
      refine ⟨.cons hr hrs, ?_, ?_⟩
      · rw [List.map_cons, List.nodup_cons]
        refine ⟨fun hmem => ?_, hnodup⟩
        obtain ⟨r', hr', heq⟩ := List.mem_map.mp hmem
        exact hnot r' hr' (by rw [heq]; exact List.mem_cons_self)
      · intro r' hr'
        rcases List.mem_cons.mp hr' with rfl | hr'
        · exact hnew
        · exact fun hmem => hnot r' hr' (List.mem_cons_of_mem _ hmem)
    · rintro ⟨hrs, hnodup, hnot⟩
      obtain ⟨r, rs, hr, hrs', rfl⟩ := List.forall₂_cons_left_iff.mp hrs
      rw [List.map_cons, List.nodup_cons] at hnodup
      refine ⟨r, hr, hnot r List.mem_cons_self, rs, ⟨hrs', hnodup.2, fun r' hr' hmem => ?_⟩, rfl⟩
      rcases List.mem_cons.mp hmem with heq | hmem
      · exact hnodup.1 (List.mem_map.mpr ⟨r', hr', heq⟩)
      · exact hnot r' (List.mem_cons_of_mem _ hr') hmem

theorem reads_ruleList (v : Json) :
    Reads known (ruleList known v) fun id kind rs => ∃ vs, v = .array vs ∧
      List.Forall₂ (RuleMeans id kind) vs rs ∧ (rs.map Rule.name).Nodup := by
  cases v with
  | array vs => exact (reads_rules [] vs).congr fun id kind rs => by simp
  | null | boolean | number | string | object =>
    exact (Reads.throw _).congr fun _ _ rs => by simp

theorem reads_grouping (v : Json) :
    Reads known (grouping known v) fun id kind g => GroupingMeans id kind v g := by
  refine ((reads_entries _ v).bind fun parts => (reads_found _ _).bind fun group =>
    (reads_found _ _).bind fun apply => (reads_require _ _).bind fun _ =>
    (reads_texts _ group).bind fun names => (Reads.mapM reads_resolve names).bind fun keys =>
    (reads_ruleList apply).bind fun rs => Reads.pure (⟨keys, rs⟩ : Grouping)).congr
    fun id kind g => ?_
  have hshape := fun es x y => @lookup_two_iff Json "GROUP" "APPLY" (by decide) es x y
  simp only [forall₂_keyMeans_iff, beq_iff_eq]
  constructor
  · rintro ⟨parts, rfl, _, hgroup, _, happly, -, hlength, _, ⟨rfl, hne⟩, keys, ⟨rfl, hkeys⟩, rs,
      ⟨vs, rfl, hrules, hnodup⟩, rfl⟩
    refine ⟨by simpa using hne, hkeys, hnodup, vs, hrules, ?_⟩
    simpa [Function.comp_def] using (hshape _ _ _).mp ⟨hgroup, happly, hlength⟩
  · rintro ⟨hne, hkeys, hnodup, vs, hrules, hv⟩
    have hparts : ∃ parts, v = .object parts ∧
        (parts = [("GROUP", .array ((g.keys.map FieldKey.key).map Json.string)),
            ("APPLY", .array vs)] ∨
          parts = [("APPLY", .array vs),
            ("GROUP", .array ((g.keys.map FieldKey.key).map Json.string))]) := by
      simpa [Function.comp_def, or_and_right, exists_or, and_or_left] using hv
    obtain ⟨parts, rfl, hparts⟩ := hparts
    obtain ⟨hgroup, happly, hlength⟩ := (hshape _ _ _).mpr hparts
    exact ⟨parts, rfl, _, hgroup, _, happly, (), hlength, _, ⟨rfl, by simpa using hne⟩, _,
      ⟨rfl, hkeys⟩, _, ⟨vs, rfl, hrules, hnodup⟩, rfl⟩

end Check

/-! ## Columns and order -/

/-- What a column means: a field of the dataset, or of grouped rows a key or a rule of the
grouping. -/
def ColumnMeans (id : String) (kind : Kind) : Option Grouping → String → Column → Prop
  | none, key, c => ∃ k, KeyMeans id kind key k ∧ c = .field k
  | some g, key, c =>
    (∃ k, g.keys.find? (fun k => k.key == key) = some k ∧ c = .field k) ∨
      ((∀ k ∈ g.keys, k.key ≠ key) ∧ (∃ r ∈ g.rules, r.name = key) ∧ c = .rule key)

/-- The first column of a name. -/
def IsColumnNamed (columns : List Column) (key : String) (c : Column) : Prop :=
  columns.find? (fun column => column.name == key) = some c

/-- What an order means: a key, or just the two entries of a direction and keys, in either order. -/
def OrderMeans (columns : List Column) (v : Json) (o : RowOrder) : Prop :=
  (∃ key c, v = .string key ∧ IsColumnNamed columns key c ∧ o = ⟨.up, [c]⟩) ∨
    ∃ keys, keys ≠ [] ∧ List.Forall₂ (IsColumnNamed columns) keys o.columns ∧
      (v = .object [("dir", .string o.direction.label), ("keys", .array (keys.map .string))] ∨
        v = .object [("keys", .array (keys.map .string)), ("dir", .string o.direction.label)])

/-- What the columns and the order of a query mean. -/
def OptionsMean (id : String) (kind : Kind) (g : Option Grouping) (v : Json)
    (shown : List Column × Option RowOrder) : Prop :=
  ∃ parts names, v = .object parts ∧ (∀ e ∈ parts, e.1 = "COLUMNS" ∨ e.1 = "ORDER") ∧
    parts.lookup "COLUMNS" = some (.array (names.map .string)) ∧ names ≠ [] ∧
    List.Forall₂ (ColumnMeans id kind g) names shown.1 ∧
    Option.Rel (OrderMeans shown.1) (parts.lookup "ORDER") shown.2

theorem Direction.ofLabel?_eq_some_iff {name : String} {d : Direction} :
    Direction.ofLabel? name = some d ↔ name = d.label := by
  unfold Direction.ofLabel?
  split_ifs with hup hdown <;> cases d <;> simp_all [Direction.label]

namespace Check

variable {known : String → Option Kind}

theorem reads_column (g : Option Grouping) (key : String) :
    Reads known (column known g key) fun id kind c => ColumnMeans id kind g key c := by
  cases g with
  | none =>
    refine ((reads_resolve key).bind fun k => Reads.pure (Column.field k)).congr fun id kind c => ?_
    simp only [ColumnMeans, eq_comm]
  | some g =>
    rw [column]
    cases hfind : g.keys.find? fun k => k.key == key with
    | some k =>
      have hmem : k ∈ g.keys ∧ k.key = key :=
        ⟨List.mem_of_find?_eq_some hfind, by simpa using List.find?_some hfind⟩
      refine (Reads.pure (Column.field k)).congr fun id kind c => ?_
      simp only [ColumnMeans, hfind, Option.some.injEq, exists_eq_left']
      constructor
      · rintro rfl; exact Or.inl rfl
      · rintro (h | ⟨h, -⟩)
        · exact h.symm
        · exact absurd hmem.2 (h k hmem.1)
    | none =>
      refine ((reads_require _ _).bind fun _ => Reads.pure (Column.rule key)).congr
        fun id kind c => ?_
      have hnone : ∀ k ∈ g.keys, k.key ≠ key := by simpa using hfind
      simp only [ColumnMeans, hfind, reduceCtorEq, false_and, exists_false, false_or,
        List.any_eq_true, beq_iff_eq, eq_comm (a := c)]
      constructor
      · rintro ⟨-, hrule, hc⟩; exact ⟨hnone, hrule, hc⟩
      · rintro ⟨-, hrule, hc⟩; exact ⟨(), hrule, hc⟩

theorem reads_shownColumn (columns : List Column) (key : String) :
    Reads known (shownColumn columns key) fun _ _ c => IsColumnNamed columns key c := by
  unfold shownColumn IsColumnNamed
  cases columns.find? fun column => column.name == key with
  | none => exact (Reads.throw _).congr fun _ _ c => by simp
  | some c => exact (Reads.pure c).congr fun _ _ c => by simp

theorem reads_direction (v : Json) :
    Reads known (direction v) fun _ _ d => v = .string d.label := by
  unfold direction
  cases hd : v.string?.bind Direction.ofLabel? with
  | none =>
    refine (Reads.throw _).congr fun _ _ d => ⟨False.elim, ?_⟩
    rintro rfl
    simp [Json.string?, Direction.ofLabel?_eq_some_iff.mpr rfl] at hd
  | some d =>
    obtain ⟨name, hname, hlabel⟩ := Option.bind_eq_some_iff.mp hd
    obtain rfl : v = .string name := by cases v <;> simp_all [Json.string?]
    refine (Reads.pure d).congr fun _ _ d' => ?_
    rw [Json.string.injEq, ← Direction.ofLabel?_eq_some_iff, hlabel, Option.some.injEq]

theorem reads_order (columns : List Column) (v : Json) :
    Reads known (order columns v) fun _ _ o => OrderMeans columns v o := by
  cases v with
  | string key =>
    refine ((reads_shownColumn columns key).bind fun c =>
      Reads.pure (⟨.up, [c]⟩ : RowOrder)).congr fun _ _ o => ?_
    simp [OrderMeans, eq_comm]
  | object parts =>
    refine ((reads_found _ _).bind fun dir => (reads_found _ _).bind fun keys =>
      (reads_require _ _).bind fun _ => (reads_direction dir).bind fun d =>
      (reads_texts _ keys).bind fun names =>
      (Reads.mapM (reads_shownColumn columns) names).bind fun cs =>
      Reads.pure (⟨d, cs⟩ : RowOrder)).congr fun _ _ o => ?_
    have hshape := fun x y => @lookup_two_iff Json "dir" "keys" (by decide) parts x y
    simp only [beq_iff_eq, OrderMeans, reduceCtorEq, false_and, exists_false, false_or,
      Json.object.injEq]
    constructor
    · rintro ⟨_, hdir, _, hkeys, -, hlength, d, rfl, names, ⟨rfl, hne⟩, cs, hcs, rfl⟩
      exact ⟨names, hne, hcs, (hshape _ _).mp ⟨hdir, hkeys, hlength⟩⟩
    · rintro ⟨names, hne, hcs, hparts⟩
      obtain ⟨hdir, hkeys, hlength⟩ := (hshape _ _).mpr hparts
      exact ⟨_, hdir, _, hkeys, (), hlength, _, rfl, names, ⟨rfl, hne⟩, _, hcs, rfl⟩
  | null | boolean | number | array =>
    exact (Reads.throw _).congr fun _ _ a => by simp [OrderMeans]

theorem reads_options (g : Option Grouping) (v : Json) :
    Reads known (options known g v) fun id kind shown => OptionsMean id kind g v shown := by
  refine ((reads_entries _ v).bind fun parts => (reads_noOthers _ _ parts).bind fun _ =>
    (reads_found _ _).bind fun w => (reads_texts _ w).bind fun names =>
    (Reads.mapM (reads_column g) names).bind fun columns =>
    (reads_optional (reads_order columns) _).bind fun o => Reads.pure (columns, o)).congr
    fun id kind shown => ?_
  simp only [List.mem_cons, List.not_mem_nil, or_false]
  constructor
  · rintro ⟨parts, rfl, -, hkeys, _, hcolumns, names, ⟨rfl, hne⟩, columns, hmeans, o, ho, rfl⟩
    exact ⟨parts, names, rfl, hkeys, hcolumns, hne, hmeans, ho⟩
  · rintro ⟨parts, names, rfl, hkeys, hcolumns, hne, hmeans, ho⟩
    exact ⟨parts, rfl, (), hkeys, _, hcolumns, names, ⟨rfl, hne⟩, _, hmeans, _, ho, rfl⟩

end Check

/-! ## Queries -/

/-- What the clauses of a query mean. -/
def ClausesMean (id : String) (kind : Kind) (v : Json)
    (c : Filter × Option Grouping × List Column × Option RowOrder) : Prop :=
  ∃ parts whereClause optionsClause, v = .object parts ∧
    (∀ e ∈ parts, e.1 = "WHERE" ∨ e.1 = "OPTIONS" ∨ e.1 = "TRANSFORMATIONS") ∧
    parts.lookup "WHERE" = some whereClause ∧ parts.lookup "OPTIONS" = some optionsClause ∧
    ConditionMeans id kind whereClause c.1 ∧
    Option.Rel (GroupingMeans id kind) (parts.lookup "TRANSFORMATIONS") c.2.1 ∧
    OptionsMean id kind c.2.1 optionsClause c.2.2

/-- What a query means. -/
def QueryMeans (v : Json) (p : Plan) : Prop :=
  ClausesMean p.dataset p.kind v (p.filter, p.grouping, p.columns, p.order)

theorem Check.reads_clauses (known : String → Option Kind) (v : Json) :
    Reads known (clauses known v) fun id kind c => ClausesMean id kind v c := by
  refine ((reads_entries _ v).bind fun parts => (reads_noOthers _ _ parts).bind fun _ =>
    (reads_found _ _).bind fun w => (reads_found _ _).bind fun o => (reads_condition w).bind fun f =>
    (reads_optional reads_grouping _).bind fun g => (reads_options g o).bind fun shown =>
    Reads.pure (f, g, shown)).congr fun id kind c => ?_
  simp only [List.mem_cons, List.not_mem_nil, or_false]
  constructor
  · rintro ⟨parts, rfl, -, hkeys, w, hw, o, ho, f, hf, g, hg, shown, hshown, rfl⟩
    exact ⟨parts, w, o, rfl, hkeys, hw, ho, hf, hg, hshown⟩
  · rintro ⟨parts, w, o, rfl, hkeys, hw, ho, hf, hg, hshown⟩
    exact ⟨parts, rfl, (), hkeys, w, hw, o, ho, _, hf, _, hg, _, hshown, rfl⟩

/-- The clauses of a query always name a field, so they have their meaning for one dataset only. -/
theorem ClausesMean.dataset_unique {id id' : String} {kind kind' : Kind} {v : Json}
    {c : Filter × Option Grouping × List Column × Option RowOrder}
    (h : ClausesMean id kind v c) (h' : ClausesMean id' kind' v c) : id = id' := by
  have hkey {k : FieldKey} {key key' : String} (hk : KeyMeans id kind key k)
      (hk' : KeyMeans id' kind' key' k) : id = id' := by
    have := hk.written.symm.trans (hk.key_eq.symm.trans (hk'.key_eq.trans hk'.written))
    rw [String.append_left_inj, String.append_left_inj] at this
    exact this
  obtain ⟨f, g, cs, o⟩ := c
  obtain ⟨_, _, _, -, -, -, -, -, hg, _, _, -, -, -, hne, hcs, -⟩ := h
  obtain ⟨_, _, _, -, -, -, -, -, hg', _, _, -, -, -, hne', hcs', -⟩ := h'
  dsimp only at hg hg' hcs hcs'
  cases g with
  | some g =>
    obtain ⟨_, hg⟩ : ∃ v, GroupingMeans id kind v g := by
      generalize List.lookup "TRANSFORMATIONS" _ = w at hg
      cases hg; exact ⟨_, ‹_›⟩
    obtain ⟨_, hg'⟩ : ∃ v, GroupingMeans id' kind' v g := by
      generalize List.lookup "TRANSFORMATIONS" _ = w at hg'
      cases hg'; exact ⟨_, ‹_›⟩
    obtain ⟨k, hk⟩ := List.exists_mem_of_ne_nil _ hg.nonempty
    exact hkey (hg.keys k hk) (hg'.keys k hk)
  | none =>
    obtain ⟨name, names, rfl⟩ := List.exists_cons_of_ne_nil hne
    obtain ⟨c, cs, ⟨k, hk, rfl⟩, -, rfl⟩ := List.forall₂_cons_left_iff.mp hcs
    obtain ⟨name', names', ⟨k', hk', hfield⟩, -, rfl⟩ := List.forall₂_cons_right_iff.mp hcs'
    obtain rfl := Column.field.inj hfield
    exact hkey hk hk'

/-- A query is read as a plan just where the plan is what it means and the catalog does not give its
dataset another kind. -/
theorem ofJson_eq_ok_iff {known : String → Option Kind} {v : Json} {p : Plan} :
    Plan.ofJson known v = .ok p ↔ Admits known p.dataset p.kind ∧ QueryMeans v p := by
  have hreads := Check.reads_clauses known v
  have hstart : Target.Settled known {} := Or.inl rfl
  have hrun : Plan.ofJson known v = .ok p ↔
      ∃ t, (Check.clauses known v).runAt {} = (.ok (p.filter, p.grouping, p.columns, p.order), t) ∧
        t = Target.bound p.dataset p.kind := by
    show ((Check.query known v).runAt {}).1 = .ok p ↔ _
    rw [Check.query, Check.runAt_bind]
    rcases (Check.clauses known v).runAt {} with ⟨_ | ⟨f, g, cs, o⟩, _ | dataset, _ | kind⟩
    all_goals simp [Check.runAt_bind, Target.bound]
    constructor
    · rintro rfl; simp
    · rintro ⟨⟨rfl, rfl, rfl, rfl⟩, rfl, rfl⟩; rfl
  rw [hrun]
  constructor
  · rintro ⟨t, hc, rfl⟩
    have hsettled := hreads.settled hstart hc
    obtain ⟨id, kind, hadmits, hbound⟩ := hsettled.resolve_left (by simp [Target.bound])
    obtain ⟨rfl, rfl⟩ : p.dataset = id ∧ p.kind = kind := by simpa [Target.bound] using hbound
    exact ⟨hadmits, ((hreads.ok_iff hstart hadmits).mp ⟨_, hc, Or.inr rfl⟩).2⟩
  · rintro ⟨hadmits, hmeans⟩
    obtain ⟨t, hc, hfits⟩ := (hreads.ok_iff hstart hadmits).mpr ⟨Or.inl rfl, hmeans⟩
    refine ⟨t, hc, hfits.resolve_left ?_⟩
    -- If nothing were known after the clauses, they would mean the same for any other dataset.
    rintro rfl
    have hother : Admits known (p.dataset ++ "x") ((known (p.dataset ++ "x")).getD .courses) := by
      refine ⟨by simp, ?_, ?_⟩
      · simpa [separator] using hadmits.unseparated
      · cases known (p.dataset ++ "x") <;> simp
    have := hmeans.dataset_unique ((hreads.ok_iff hstart hother).mp ⟨_, hc, Or.inl rfl⟩).2
    simpa using congrArg String.length this

end CampusQuery
