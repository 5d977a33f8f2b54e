import Mathlib
import CampusQuery.Proofs.Query.Meaning

/-!
# What a query asks of the catalog

While a query is read the catalog is asked at most once, of the id in the first key that has one. So
the reading is the same with any two catalogs that agree on this id, whether it succeeds or stops at
a fault, and what the query means does not depend on the catalog at all.

* `Check.Asks` — a reading asks of the dataset that it leaves bound and of no other; this passes
  through `>>=` and `mapM`.
* `Check.asks_query` — the reading of a query does.
* `Target.ofQuery`, `ofJson_congr` — what the reading of a query leaves bound decides what it gives.
* `QueryMeans.unique` — a query has one meaning.
-/

namespace CampusQuery

namespace Check

variable {α β : Type}

/-! ## Readings that ask of one dataset -/

/-- A reading never gives up the dataset that is bound, and asks the catalog of no dataset but the
one that it leaves bound. -/
structure Asks (c : (String → Option Kind) → Check α) : Prop where
  keeps : ∀ {known t id}, t.dataset = some id → ((c known).runAt t).2.dataset = some id
  agree : ∀ {known known' t},
    (∀ id, ((c known).runAt t).2.dataset = some id → known id = known' id) →
      (c known').runAt t = (c known).runAt t

namespace Asks

protected theorem pure (a : α) : Asks fun _ => pure a where
  keeps h := h
  agree _ := rfl

protected theorem throw (e : Malformed) : Asks fun _ => (throw e : Check α) where
  keeps h := h
  agree _ := rfl

protected theorem bind {c : (String → Option Kind) → Check α}
    {f : (String → Option Kind) → α → Check β} (hc : Asks c)
    (hf : ∀ a, Asks fun known => f known a) : Asks fun known => c known >>= f known := by
  have hkeeps {known : String → Option Kind} {t : Target} {id : String}
      (h : ((c known).runAt t).2.dataset = some id) :
      ((c known >>= f known).runAt t).2.dataset = some id := by
    rw [runAt_bind]
    generalize (c known).runAt t = step at h
    rcases step with ⟨_ | a, t'⟩
    · exact h
    · exact (hf a).keeps h
  refine ⟨fun h => hkeeps (hc.keeps h), fun {known known' t} hagree => ?_⟩
  have hfirst := hc.agree fun id hid => hagree id (hkeeps hid)
  rw [runAt_bind] at hagree
  rw [runAt_bind, runAt_bind, hfirst]
  generalize (c known).runAt t = step at hagree
  rcases step with ⟨_ | a, t'⟩
  · rfl
  · exact (hf a).agree hagree

protected theorem map {c : (String → Option Kind) → Check α} (f : α → β) (hc : Asks c) :
    Asks fun known => f <$> c known := by
  simp only [← bind_pure_comp]
  exact hc.bind fun a => Asks.pure (f a)

protected theorem mapM {f : (String → Option Kind) → α → Check β}
    (hf : ∀ a, Asks fun known => f known a) (as : List α) :
    Asks fun known => as.mapM (f known) := by
  induction as with
  | nil =>
    simp only [List.mapM_nil]
    exact Asks.pure []
  | cons a as ih =>
    simp only [List.mapM_cons]
    exact (hf a).bind fun b => ih.bind fun bs => Asks.pure (b :: bs)

end Asks

/-! ## Keys -/

theorem asks_bindId (id : String) : Asks fun known => Target.bind known id where
  keeps {known t b} h := by
    simp only [runAt_bindId, h]
    split <;> exact h
  agree {known known' t} h := by
    simp only [runAt_bindId] at h ⊢
    rcases t with ⟨_ | b, kind⟩
    · rw [h id rfl]
    · rfl

theorem asks_field (key name : String) : Asks fun _ => Target.field key name where
  keeps {known t id} h := by
    rw [Target.field, runAt_bind, runAt_get]
    rcases t with ⟨dataset, _ | kind⟩ <;> dsimp only <;> split <;> exact h
  agree _ := rfl

theorem asks_resolve (key : String) : Asks fun known => Target.resolve known key := by
  unfold Target.resolve
  split
  · exact .throw _
  · next id name _ =>
    exact (asks_bindId id).bind fun _ => (asks_field key name).bind fun f => .pure _

/-! ## Shapes -/

theorem asks_entries (part : Part) (v : Json) : Asks fun _ => entries part v := by
  unfold entries
  split
  · exact .pure _
  · exact .throw _

theorem asks_single (part : Part) (es : List (String × Json)) : Asks fun _ => single part es := by
  unfold single
  split
  · exact .pure _
  · exact .throw _

theorem asks_singleEntry (part : Part) (v : Json) : Asks fun _ => singleEntry part v :=
  (asks_entries part v).bind fun es => asks_single part es

theorem asks_items (part : Part) (v : Json) : Asks fun _ => items part v := by
  unfold items
  split
  · exact .throw _
  · exact .pure _
  · exact .throw _

theorem asks_text (part : Part) (v : Json) : Asks fun _ => text part v := by
  unfold text
  split
  · exact .pure _
  · exact .throw _

theorem asks_texts (part : Part) (v : Json) : Asks fun _ => texts part v :=
  (asks_items part v).bind fun vs => Asks.mapM (fun v => asks_text part v) vs

theorem asks_found (value : Option Json) (missing : Malformed) :
    Asks fun _ => found value missing := by
  unfold found
  split
  · exact .pure _
  · exact .throw _

theorem asks_optional {read : (String → Option Kind) → Json → Check α}
    (h : ∀ v, Asks fun known => read known v) (w : Option Json) :
    Asks fun known => optional (read known) w := by
  cases w with
  | none => exact .pure none
  | some v => exact (h v).map some

theorem asks_require (condition : Bool) (fault : Malformed) :
    Asks fun _ => require condition fault := by
  unfold require
  split
  · exact .pure _
  · exact .throw _

theorem asks_noOthers (names : List String) (fault : String → Malformed)
    (es : List (String × Json)) : Asks fun _ => noOthers names fault es := by
  unfold noOthers
  split
  · exact .throw _
  · exact .pure _

/-! ## Filters -/

theorem asks_typedKey (part : Part) (type : FieldType) (key : String) :
    Asks fun known => typedKey known part type key :=
  (asks_resolve key).bind fun k => (asks_require _ _).bind fun _ => .pure k

theorem asks_bound (c : Comparison) (v : Json) : Asks fun _ => bound c v := by
  unfold bound
  split
  · exact .pure _
  · exact .throw _

theorem asks_comparison (c : Comparison) (body : Json) :
    Asks fun known => comparison known c body :=
  (asks_singleEntry _ body).bind fun e => (asks_typedKey _ _ e.1).bind fun k =>
    (asks_bound c e.2).bind fun x => .pure (Filter.compare c k x)

theorem asks_pattern (v : Json) : Asks fun _ => pattern v := by
  unfold pattern
  split
  · split
    · exact .pure _
    · exact .throw _
  · exact .throw _

theorem asks_like (body : Json) : Asks fun known => like known body :=
  (asks_singleEntry _ body).bind fun e => (asks_typedKey _ _ e.1).bind fun k =>
    (asks_pattern e.2).bind fun p => .pure (Filter.like k p)

mutual

theorem asks_filter (v : Json) : Asks fun known => filter known v := by
  match v with
  | .null | .boolean _ | .number _ | .string _ | .array _ => exact .throw _
  | .object [] | .object (_ :: _ :: _) => exact .throw _
  | .object [(key, body)] =>
    simp only [filter]
    split_ifs
    · exact (asks_branches .and body).map Filter.and
    · exact (asks_branches .or body).map Filter.or
    · exact asks_comparison .less body
    · exact asks_comparison .greater body
    · exact asks_comparison .equal body
    · exact asks_like body
    · exact (asks_filter body).map Filter.not
    · exact .throw _

theorem asks_branches (part : Part) (v : Json) : Asks fun known => branches known part v := by
  match v with
  | .null | .boolean _ | .number _ | .string _ | .object _ => exact .throw _
  | .array [] => exact .throw _
  | .array (item :: items) =>
    simp only [branches]
    exact (asks_filter item).bind fun f => (asks_filters items).bind fun fs => .pure (f :: fs)

theorem asks_filters (vs : List Json) : Asks fun known => filters known vs := by
  match vs with
  | [] => exact .pure []
  | item :: items =>
    simp only [filters]
    exact (asks_filter item).bind fun f => (asks_filters items).bind fun fs => .pure (f :: fs)

end

theorem asks_condition (v : Json) : Asks fun known => condition known v := by
  refine (asks_entries _ v).bind fun es => ?_
  split
  · exact .pure _
  · exact asks_filter v

/-! ## Groupings -/

theorem asks_aggregate (label : String) : Asks fun _ => aggregate label := by
  unfold aggregate
  split
  · exact .pure _
  · exact .throw _

theorem asks_aggregated (a : Aggregate) (v : Json) : Asks fun known => aggregated known a v := by
  unfold aggregated
  split
  · exact (asks_resolve _).bind fun k => (asks_require _ _).bind fun _ => .pure k
  · exact .throw _

theorem asks_rule (v : Json) : Asks fun known => rule known v :=
  (asks_singleEntry _ v).bind fun e => (asks_require _ _).bind fun _ =>
    (asks_require _ _).bind fun _ => (asks_singleEntry _ e.2).bind fun e' =>
    (asks_aggregate e'.1).bind fun a => (asks_aggregated a e'.2).bind fun k =>
    .pure (⟨e.1, a, k⟩ : Rule)

theorem asks_rules (names : List String) (vs : List Json) :
    Asks fun known => rules known names vs := by
  induction vs generalizing names with
  | nil => exact .pure []
  | cons v vs ih =>
    simp only [rules]
    exact (asks_rule v).bind fun r => (asks_require _ _).bind fun _ =>
      (ih (r.name :: names)).bind fun rs => .pure (r :: rs)

theorem asks_ruleList (v : Json) : Asks fun known => ruleList known v := by
  unfold ruleList
  split
  · exact asks_rules [] _
  · exact .throw _

theorem asks_grouping (v : Json) : Asks fun known => grouping known v :=
  (asks_entries _ v).bind fun _ => (asks_found _ _).bind fun group =>
    (asks_found _ _).bind fun apply =>
    (asks_require _ _).bind fun _ => (asks_texts _ group).bind fun names =>
    (Asks.mapM asks_resolve names).bind fun keys => (asks_ruleList apply).bind fun rs =>
    .pure (⟨keys, rs⟩ : Grouping)

/-! ## Columns and order -/

theorem asks_column (g : Option Grouping) (key : String) :
    Asks fun known => column known g key := by
  unfold column
  cases g with
  | none => exact (asks_resolve key).bind fun k => .pure (Column.field k)
  | some g =>
    dsimp only
    split
    · exact .pure _
    · exact (asks_require _ _).bind fun _ => .pure _

theorem asks_shownColumn (columns : List Column) (key : String) :
    Asks fun _ => shownColumn columns key := by
  unfold shownColumn
  split
  · exact .pure _
  · exact .throw _

theorem asks_direction (v : Json) : Asks fun _ => direction v := by
  unfold direction
  split
  · exact .pure _
  · exact .throw _

theorem asks_order (columns : List Column) (v : Json) : Asks fun _ => order columns v := by
  unfold order
  split
  · exact (asks_shownColumn columns _).bind fun c => .pure _
  · exact (asks_found _ _).bind fun dir => (asks_found _ _).bind fun keys =>
      (asks_require _ _).bind fun _ => (asks_direction dir).bind fun d =>
      (asks_texts _ keys).bind fun names =>
      (Asks.mapM (fun key => asks_shownColumn columns key) names).bind fun cs =>
      .pure (⟨d, cs⟩ : RowOrder)
  · exact .throw _

theorem asks_options (g : Option Grouping) (v : Json) : Asks fun known => options known g v :=
  (asks_entries _ v).bind fun _ => (asks_noOthers _ _ _).bind fun _ =>
    (asks_found _ _).bind fun w => (asks_texts _ w).bind fun names =>
    (Asks.mapM (fun key => asks_column g key) names).bind fun columns =>
    (asks_optional (fun v => asks_order columns v) _).bind fun o => .pure (columns, o)

/-! ## Queries -/

theorem asks_clauses (v : Json) : Asks fun known => clauses known v :=
  (asks_entries _ v).bind fun _ => (asks_noOthers _ _ _).bind fun _ =>
    (asks_found _ _).bind fun w => (asks_found _ _).bind fun o => (asks_condition w).bind fun f =>
    (asks_optional asks_grouping _).bind fun g => (asks_options g o).bind fun shown =>
    .pure (f, g, shown)

theorem asks_get : Asks fun _ => (get : Check Target) where
  keeps h := h
  agree _ := rfl

theorem asks_query (v : Json) : Asks fun known => query known v := by
  refine (asks_clauses v).bind fun c => asks_get.bind fun t => ?_
  split
  · exact .throw _
  · exact .throw _
  · exact .pure _

end Check

/-- What is known of the dataset of a query once it has been read, or at the fault at which its
reading stops. -/
def Target.ofQuery (known : String → Option Kind) (v : Json) : Target :=
  ((Check.query known v).runAt {}).2

/-- With catalogs that agree on the dataset that is bound in the end a query is read alike. -/
theorem ofJson_congr {known known' : String → Option Kind} {v : Json}
    (h : ∀ id, (Target.ofQuery known v).dataset = some id → known id = known' id) :
    Plan.ofJson known' v = Plan.ofJson known v :=
  congrArg Prod.fst ((Check.asks_query v).agree h)

/-- The plan of a query is about the dataset that its reading leaves bound. -/
theorem ofQuery_of_ofJson {known : String → Option Kind} {v : Json} {p : Plan}
    (h : Plan.ofJson known v = .ok p) : Target.ofQuery known v = .bound p.dataset p.kind := by
  have hrun : ((Check.query known v).runAt {}).1 = .ok p := h
  unfold Target.ofQuery
  rw [Check.query, Check.runAt_bind] at hrun ⊢
  generalize (Check.clauses known v).runAt {} = step at hrun
  rcases step with ⟨_ | ⟨f, g, cs, o⟩, _ | dataset, _ | kind⟩ <;> cases hrun
  rfl

/-! ## One meaning -/

theorem Admits.of_unopposed {known known' : String → Option Kind} {id : String} {kind : Kind}
    (h : Admits known id kind) (hknown : known' id = none ∨ known' id = some kind) :
    Admits known' id kind :=
  ⟨h.nonempty, h.unseparated, hknown⟩

/-- A query has one meaning, whatever catalogs admit the datasets. -/
theorem QueryMeans.unique {known known' : String → Option Kind} {v : Json} {p p' : Plan}
    (hadmits : Admits known p.dataset p.kind) (hmeans : QueryMeans v p)
    (hadmits' : Admits known' p'.dataset p'.kind) (hmeans' : QueryMeans v p') : p = p' := by
  -- The catalog that knows nothing speaks against neither, and reads the query as one plan.
  have h : Plan.ofJson (fun _ => none) v = .ok p :=
    ofJson_eq_ok_iff.mpr ⟨hadmits.of_unopposed (.inl rfl), hmeans⟩
  have h' : Plan.ofJson (fun _ => none) v = .ok p' :=
    ofJson_eq_ok_iff.mpr ⟨hadmits'.of_unopposed (.inl rfl), hmeans'⟩
  exact Except.ok.inj (h.symm.trans h')

/-- What becomes of a query that one catalog accepts with another: it is read as the same plan, or
the other gives its dataset another kind and it is malformed. -/
theorem ofJson_of_ofJson {known : String → Option Kind} {v : Json} {p : Plan}
    (h : Plan.ofJson known v = .ok p) (known' : String → Option Kind) :
    (Plan.ofJson known' v = .ok p ∧ (known' p.dataset = none ∨ known' p.dataset = some p.kind)) ∨
      ∃ cause kind, Plan.ofJson known' v = .error cause ∧ known' p.dataset = some kind ∧
        kind ≠ p.kind := by
  obtain ⟨hadmits, hmeans⟩ := ofJson_eq_ok_iff.mp h
  by_cases hunopposed : known' p.dataset = none ∨ known' p.dataset = some p.kind
  · exact .inl ⟨ofJson_eq_ok_iff.mpr ⟨hadmits.of_unopposed hunopposed, hmeans⟩, hunopposed⟩
  · right
    obtain ⟨kind, hkind⟩ : ∃ kind, known' p.dataset = some kind := by
      cases hknown : known' p.dataset with
      | none => exact absurd (.inl hknown) hunopposed
      | some kind => exact ⟨kind, rfl⟩
    have hne : kind ≠ p.kind := fun heq => hunopposed (.inr (heq ▸ hkind))
    cases hread : Plan.ofJson known' v with
    | error cause => exact ⟨cause, kind, rfl, hkind, hne⟩
    | ok p' =>
      obtain ⟨hadmits', hmeans'⟩ := ofJson_eq_ok_iff.mp hread
      obtain rfl := hmeans.unique hadmits hadmits' hmeans'
      exact absurd hadmits'.unopposed hunopposed

end CampusQuery
