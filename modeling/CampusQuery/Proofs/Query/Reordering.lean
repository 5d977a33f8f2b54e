import Mathlib
import CampusQuery.Proofs.Entries
import CampusQuery.Proofs.Query.Language

/-!
# Queries in another order

A query is read from left to right and its first key decides which dataset it is about, but whether
it is read does not depend on the order in which it is written. With the entries of its objects in
another order it is read as the same plan; with the items of its arrays in another order it is read
or not as before, for the same dataset and kind.

* `Json.Reordered` — one object or one array in a value is written in another order.
* `Json.IsFixed` — a value that has nothing to reorder, such as a comparison or a rule.
* `Json.exists_lookup_of_reordered` — what is found in an object that has been reordered.
* `QueryMeans.reordered`, `IsQuery.reordered` — one step keeps the meaning, or the grammar.
* `ofJson_reordered` — any number of steps.
-/

namespace CampusQuery

open Relation

/-- What is written in another order: the entries of an object or the items of an array. -/
inductive Shuffle where
  | entries
  | items

namespace Json

/-- A value with the entries of one object in it, or the items of one array, in another order. -/
inductive Reordered : Shuffle → Json → Json → Prop
  | entries {es es' : List (String × Json)} : es.Perm es' →
      Reordered .entries (.object es) (.object es')
  | items {vs vs' : List Json} : vs.Perm vs' → Reordered .items (.array vs) (.array vs')
  | item {s : Shuffle} {before after : List Json} {v w : Json} : Reordered s v w →
      Reordered s (.array (before ++ v :: after)) (.array (before ++ w :: after))
  | entry {s : Shuffle} {before after : List (String × Json)} {key : String} {v w : Json} :
      Reordered s v w →
      Reordered s (.object (before ++ (key, v) :: after)) (.object (before ++ (key, w) :: after))

/-- No object in a value has a key twice. -/
inductive HasDistinctKeys : Json → Prop
  | null : HasDistinctKeys .null
  | boolean (b : Bool) : HasDistinctKeys (.boolean b)
  | number (n : JsonNumber) : HasDistinctKeys (.number n)
  | string (s : String) : HasDistinctKeys (.string s)
  | array {vs : List Json} : (∀ v ∈ vs, HasDistinctKeys v) → HasDistinctKeys (.array vs)
  | object {es : List (String × Json)} : (es.map Prod.fst).Nodup →
      (∀ e ∈ es, HasDistinctKeys e.2) → HasDistinctKeys (.object es)

variable {s : Shuffle} {v w : Json}

theorem HasDistinctKeys.single {key : String} (h : v.HasDistinctKeys) :
    HasDistinctKeys (.object [(key, v)]) :=
  .object (List.nodup_singleton _) (by simpa using h)

theorem Reordered.symm (h : Reordered s v w) : Reordered s w v := by
  induction h with
  | entries h => exact .entries h.symm
  | items h => exact .items h.symm
  | item _ ih => exact .item ih
  | entry _ ih => exact .entry ih

theorem Reordered.hasDistinctKeys (h : Reordered s v w) (hv : v.HasDistinctKeys) :
    w.HasDistinctKeys := by
  induction h with
  | entries hperm =>
    cases hv with
    | object hkeys hes =>
      exact .object ((hperm.map Prod.fst).nodup_iff.mp hkeys)
        fun e he => hes e (hperm.mem_iff.mpr he)
  | items hperm =>
    cases hv with
    | array hvs => exact .array fun v hv => hvs v (hperm.mem_iff.mpr hv)
  | item _ ih =>
    cases hv with
    | array hvs =>
      simp only [List.forall_mem_append, List.forall_mem_cons] at hvs
      refine .array ?_
      simp only [List.forall_mem_append, List.forall_mem_cons]
      exact ⟨hvs.1, ih hvs.2.1, hvs.2.2⟩
  | entry _ ih =>
    cases hv with
    | object hkeys hes =>
      simp only [List.forall_mem_append, List.forall_mem_cons] at hes
      refine .object (by simpa using hkeys) ?_
      simp only [List.forall_mem_append, List.forall_mem_cons]
      exact ⟨hes.1, ih hes.2.1, hes.2.2⟩

/-! ## Nothing to reorder -/

/-- A value in which nothing can be written in another order. -/
def IsFixed (s : Shuffle) (v : Json) : Prop :=
  ∀ w, Reordered s v w → w = v

theorem isFixed_number (n : JsonNumber) : IsFixed s (.number n) :=
  nofun

theorem isFixed_string (x : String) : IsFixed s (.string x) :=
  nofun

theorem isFixed_empty : IsFixed s (.object []) := by
  intro w h
  generalize hv : Json.object [] = v at h
  cases h with
  | entries hperm =>
    obtain rfl := Json.object.inj hv
    rw [List.nil_perm.mp hperm]
  | entry => simp at hv
  | items | item => cases hv

/-- An object with one entry is fixed if the value of this is. -/
theorem isFixed_single {key : String} (hv : IsFixed s v) : IsFixed s (.object [(key, v)]) := by
  intro w h
  generalize hu : Json.object [(key, v)] = u at h
  cases h with
  | entries hperm =>
    obtain rfl := Json.object.inj hu
    rw [List.perm_singleton.mp hperm.symm]
  | @entry _ before after key' v' w' h =>
    rcases List.append_eq_singleton_iff.mp (Json.object.inj hu).symm with ⟨rfl, heq⟩ | ⟨-, hnil⟩
    · obtain ⟨hentry, rfl⟩ := List.cons.inj heq
      obtain ⟨rfl, rfl⟩ := Prod.mk.inj hentry
      rw [hv w' h]
    · cases hnil
  | items | item => cases hu

theorem isFixed_array {vs : List Json} (hvs : ∀ v ∈ vs, IsFixed .entries v) :
    IsFixed .entries (.array vs) := by
  intro w h
  generalize hu : Json.array vs = u at h
  cases h with
  | item h =>
    obtain rfl := Json.array.inj hu
    rw [hvs _ (by simp) _ h]
  | entries | entry => cases hu

theorem isFixed_texts (names : List String) : IsFixed .entries (.array (names.map .string)) :=
  isFixed_array fun v hv => by
    obtain ⟨x, -, rfl⟩ := List.mem_map.mp hv
    exact isFixed_string x

/-! ## What is found -/

/-- An object that has been reordered has the same keys, and under each of them the same value or
one that has been reordered. -/
theorem exists_lookup_of_reordered {es : List (String × Json)} (hkeys : (es.map Prod.fst).Nodup)
    (h : Reordered s (.object es) w) :
    ∃ es', w = .object es' ∧ (es'.map Prod.fst).Perm (es.map Prod.fst) ∧
      ∀ key, Option.Rel (ReflGen (Reordered s)) (es.lookup key) (es'.lookup key) := by
  have hrefl (found : Option Json) : Option.Rel (ReflGen (Reordered s)) found found := by
    cases found with
    | none => exact .none
    | some v => exact .some .refl
  generalize hu : Json.object es = u at h
  cases h with
  | @entries es₁ es' hperm =>
    obtain rfl := Json.object.inj hu
    refine ⟨es', rfl, (hperm.map Prod.fst).symm, fun key => ?_⟩
    rw [lookup_eq_of_perm hkeys hperm]
    exact hrefl _
  | @entry _ before after key' v' w' h =>
    obtain rfl := Json.object.inj hu
    refine ⟨_, rfl, by simp, fun key => ?_⟩
    rw [List.lookup_append, List.lookup_append, List.lookup_cons, List.lookup_cons]
    cases before.lookup key with
    | some x => exact hrefl _
    | none =>
      cases key == key' with
      | true => exact .some (.single h)
      | false => exact hrefl _
  | items | item => cases hu

theorem IsFixed.eq_of_reflGen (hv : IsFixed s v) (h : ReflGen (Reordered s) v w) : w = v := by
  cases h with
  | refl => rfl
  | single h => exact hv w h

/-- An object with just two entries still has just these, in either order. -/
theorem exists_two_of_reordered {a b : String} (hab : a ≠ b) {x y : Json}
    (hv : v = .object [(a, x), (b, y)] ∨ v = .object [(b, y), (a, x)]) (h : Reordered s v w) :
    ∃ x' y', ReflGen (Reordered s) x x' ∧ ReflGen (Reordered s) y y' ∧
      (w = .object [(a, x'), (b, y')] ∨ w = .object [(b, y'), (a, x')]) := by
  obtain ⟨es, rfl, hes⟩ : ∃ es, v = .object es ∧ (es = [(a, x), (b, y)] ∨ es = [(b, y), (a, x)]) := by
    rcases hv with rfl | rfl
    · exact ⟨_, rfl, .inl rfl⟩
    · exact ⟨_, rfl, .inr rfl⟩
  have hkeys : (es.map Prod.fst).Nodup := by
    rcases hes with rfl | rfl
    · simpa using hab
    · simpa using hab.symm
  obtain ⟨ha, hb, hlength⟩ := (lookup_two_iff hab).mpr hes
  obtain ⟨es', rfl, hperm, hfound⟩ := exists_lookup_of_reordered hkeys h
  have hlength' : es'.length = 2 := by simpa [hlength] using hperm.length_eq
  have hfoundA := hfound a
  have hfoundB := hfound b
  rw [ha] at hfoundA
  rw [hb] at hfoundB
  generalize ha' : es'.lookup a = foundA at hfoundA
  generalize hb' : es'.lookup b = foundB at hfoundB
  cases hfoundA with
  | @some _ x' hx =>
    cases hfoundB with
    | @some _ y' hy =>
      refine ⟨x', y', hx, hy, ?_⟩
      rcases (lookup_two_iff hab).mp ⟨ha', hb', hlength'⟩ with rfl | rfl
      · exact .inl rfl
      · exact .inr rfl

end Json

open Json

variable {id : String} {kind : Kind} {v w : Json}

/-! ## The meaning, with entries in another order -/

mutual

theorem NodeMeans.isFixed {v : Json} {f : Filter} (h : NodeMeans id kind v f) :
    v.IsFixed .entries := by
  cases h with
  | and _ hvs => exact isFixed_single (isFixed_array hvs.isFixed)
  | or _ hvs => exact isFixed_single (isFixed_array hvs.isFixed)
  | compare => exact isFixed_single (isFixed_single (isFixed_number _))
  | like => exact isFixed_single (isFixed_single (isFixed_string _))
  | not hv => exact isFixed_single hv.isFixed

theorem NodesMean.isFixed {vs : List Json} {fs : List Filter} (h : NodesMean id kind vs fs) :
    ∀ v ∈ vs, v.IsFixed .entries := by
  cases h with
  | nil => exact nofun
  | cons hv hvs => exact List.forall_mem_cons.mpr ⟨hv.isFixed, hvs.isFixed⟩

end

theorem ConditionMeans.isFixed {f : Filter} (h : ConditionMeans id kind v f) :
    v.IsFixed .entries := by
  rcases h with ⟨rfl, -⟩ | h
  · exact isFixed_empty
  · exact h.isFixed

theorem RuleMeans.isFixed {r : Rule} {s : Shuffle} (h : RuleMeans id kind v r) : v.IsFixed s := by
  rw [h.written.2]
  exact isFixed_single (isFixed_single (isFixed_string _))

theorem GroupingMeans.reordered {g : Grouping} (h : GroupingMeans id kind v g)
    (hw : Reordered .entries v w) : GroupingMeans id kind w g := by
  obtain ⟨vs, hrules, hv⟩ := h.written
  have hfixed : ∀ v ∈ vs, v.IsFixed .entries := fun v hv => by
    obtain ⟨r, -, hr⟩ := exists_of_mem_forall₂ hrules.flip hv
    exact RuleMeans.isFixed hr
  obtain ⟨group, apply, hgroup, happly, hw⟩ := exists_two_of_reordered (by decide) hv hw
  have hkeys : Json.array (g.keys.map fun k => .string k.key) =
      .array ((g.keys.map FieldKey.key).map .string) := by simp [Function.comp_def]
  rw [hkeys] at hgroup
  obtain rfl := (isFixed_texts _).eq_of_reflGen hgroup
  obtain rfl := (isFixed_array hfixed).eq_of_reflGen happly
  exact ⟨h.nonempty, h.keys, h.nodup, vs, hrules, by simpa [Function.comp_def] using hw⟩

theorem OrderMeans.reordered {columns : List Column} {o : RowOrder} (h : OrderMeans columns v o)
    (hw : Reordered .entries v w) : OrderMeans columns w o := by
  rcases h with ⟨key, c, rfl, -, -⟩ | ⟨keys, hne, hkeys, hv⟩
  · cases hw
  · obtain ⟨dir, keys', hdir, hkeys', hw⟩ := exists_two_of_reordered (by decide) hv hw
    obtain rfl := (isFixed_string _).eq_of_reflGen hdir
    obtain rfl := (isFixed_texts _).eq_of_reflGen hkeys'
    exact .inr ⟨keys, hne, hkeys, hw⟩

/-- What is found, if anything is, still means the same if it does so when it is reordered. -/
theorem rel_of_reordered {α : Type} {s : Shuffle} {P : Json → α → Prop} {found found' : Option Json}
    {a? : Option α} (h : Option.Rel P found a?)
    (hfound : Option.Rel (ReflGen (Reordered s)) found found')
    (hstep : ∀ {v w a}, P v a → Reordered s v w → P w a) : Option.Rel P found' a? := by
  cases hfound with
  | none => exact h
  | some hx =>
    cases h with
    | some h =>
      cases hx with
      | refl => exact .some h
      | single hx => exact .some (hstep h hx)

/-- The keys of an object that has been reordered are among those that it may have. -/
theorem keys_of_reordered {es es' : List (String × Json)} {P : String → Prop}
    (hperm : (es'.map Prod.fst).Perm (es.map Prod.fst)) (h : ∀ e ∈ es, P e.1) :
    ∀ e ∈ es', P e.1 := by
  intro e he
  obtain ⟨e', he', heq⟩ := List.mem_map.mp (hperm.mem_iff.mp (List.mem_map_of_mem he))
  exact heq ▸ h e' he'

theorem OptionsMean.reordered {g : Option Grouping} {shown : List Column × Option RowOrder}
    (h : OptionsMean id kind g v shown) (hv : v.HasDistinctKeys) (hw : Reordered .entries v w) :
    OptionsMean id kind g w shown := by
  obtain ⟨parts, names, rfl, hparts, hcolumns, hne, hmeans, horder⟩ := h
  cases hv with
  | object hkeys _ =>
    obtain ⟨parts', rfl, hperm, hfound⟩ := exists_lookup_of_reordered hkeys hw
    refine ⟨parts', names, rfl, keys_of_reordered (P := fun key => key = "COLUMNS" ∨ key = "ORDER")
      hperm hparts, ?_, hne, hmeans,
      rel_of_reordered horder (hfound "ORDER") OrderMeans.reordered⟩
    have hcolumnsFound := hfound "COLUMNS"
    rw [hcolumns] at hcolumnsFound
    generalize parts'.lookup "COLUMNS" = columns at hcolumnsFound ⊢
    cases hcolumnsFound with
    | some hx => rw [(isFixed_texts _).eq_of_reflGen hx]

theorem ClausesMean.reordered {c : Filter × Option Grouping × List Column × Option RowOrder}
    (h : ClausesMean id kind v c) (hv : v.HasDistinctKeys) (hw : Reordered .entries v w) :
    ClausesMean id kind w c := by
  obtain ⟨parts, whereClause, optionsClause, rfl, hparts, hwhere, hoptions, hcondition, hgrouping,
    hmeans⟩ := h
  cases hv with
  | object hkeys hes =>
    obtain ⟨parts', rfl, hperm, hfound⟩ := exists_lookup_of_reordered hkeys hw
    have hwhereFound := hfound "WHERE"
    have hoptionsFound := hfound "OPTIONS"
    rw [hwhere] at hwhereFound
    rw [hoptions] at hoptionsFound
    generalize hwhere' : parts'.lookup "WHERE" = where' at hwhereFound
    generalize hoptions' : parts'.lookup "OPTIONS" = options' at hoptionsFound
    cases hwhereFound with
    | some hx =>
      cases hoptionsFound with
      | @some _ options' hy =>
        refine ⟨parts', whereClause, options', rfl, keys_of_reordered
          (P := fun key => key = "WHERE" ∨ key = "OPTIONS" ∨ key = "TRANSFORMATIONS") hperm hparts,
          by rw [hwhere', hcondition.isFixed.eq_of_reflGen hx], hoptions', hcondition,
          rel_of_reordered hgrouping (hfound "TRANSFORMATIONS") GroupingMeans.reordered, ?_⟩
        cases hy with
        | refl => exact hmeans
        | single hy => exact hmeans.reordered (hes _ (mem_of_lookup_eq_some hoptions)) hy

/-! ## The grammar, with items in another order -/

namespace Json

theorem exists_single_of_reordered {key : String}
    (h : Reordered .items (.object [(key, v)]) w) :
    ∃ v', w = .object [(key, v')] ∧ Reordered .items v v' := by
  generalize hu : Json.object [(key, v)] = u at h
  cases h with
  | @entry _ before after key' v' w' h =>
    rcases List.append_eq_singleton_iff.mp (Json.object.inj hu).symm with ⟨rfl, heq⟩ | ⟨-, hnil⟩
    · obtain ⟨hentry, rfl⟩ := List.cons.inj heq
      obtain ⟨rfl, rfl⟩ := Prod.mk.inj hentry
      exact ⟨w', rfl, h⟩
    · cases hnil
  | items | item => cases hu

/-- The items of an array that has been reordered are those of the array, or have been reordered. -/
theorem exists_array_of_reordered {vs : List Json} (h : Reordered .items (.array vs) w) :
    ∃ us, w = .array us ∧ us.length = vs.length ∧
      (∀ u ∈ us, ∃ v ∈ vs, ReflGen (Reordered .items) v u) ∧
      ((∀ v ∈ vs, v.IsFixed .items) → us.Perm vs) := by
  generalize hu : Json.array vs = u at h
  cases h with
  | @items vs₁ us hperm =>
    obtain rfl := Json.array.inj hu
    exact ⟨us, rfl, hperm.length_eq.symm, fun u hu => ⟨u, hperm.mem_iff.mpr hu, .refl⟩,
      fun _ => hperm.symm⟩
  | @item _ before after v' w' h =>
    obtain rfl := Json.array.inj hu
    refine ⟨_, rfl, by simp, fun u hu => ?_, fun hfixed => ?_⟩
    · rcases List.mem_append.mp hu with hu | hu
      · exact ⟨u, List.mem_append_left _ hu, .refl⟩
      · rcases List.mem_cons.mp hu with rfl | hu
        · exact ⟨v', by simp, .single h⟩
        · exact ⟨u, by simp [hu], .refl⟩
    · rw [hfixed v' (by simp) w' h]
  | entry => cases hu

/-- An array of texts in another order. -/
theorem exists_texts_of_reordered {names : List String}
    (h : ReflGen (Reordered .items) (.array (names.map .string)) w) :
    ∃ names' : List String, w = .array (names'.map .string) ∧ names'.Perm names := by
  cases h with
  | refl => exact ⟨names, rfl, .refl _⟩
  | single h =>
    obtain ⟨us, rfl, -, -, hperm⟩ := exists_array_of_reordered h
    have hperm := hperm fun v hv => by
      obtain ⟨x, -, rfl⟩ := List.mem_map.mp hv
      exact isFixed_string x
    have hcomp := congrFun (congrFun (List.eq_map_comp_perm Json.string) us) names
    obtain ⟨names', rfl, hnames⟩ := hcomp.mpr hperm
    exact ⟨names', rfl, hnames⟩

end Json

theorem IsNode.reordered (h : IsNode id kind v) (hw : Reordered .items v w) :
    IsNode id kind w := by
  induction h generalizing w with
  | @connective name vs hname hne hvs ih =>
    obtain ⟨body, rfl, hbody⟩ := exists_single_of_reordered hw
    obtain ⟨us, rfl, hlength, hitems, -⟩ := exists_array_of_reordered hbody
    refine .connective hname ?_ fun u hu => ?_
    · rintro rfl
      exact hne (List.length_eq_zero_iff.mp hlength.symm)
    · obtain ⟨v, hv, hstep⟩ := hitems u hu
      cases hstep with
      | refl => exact hvs u hv
      | single hstep => exact ih v hv hstep
  | comparison hname hkey htype =>
    rw [isFixed_single (isFixed_single (isFixed_number _)) w hw]
    exact .comparison hname hkey htype
  | pattern hkey htype hraw =>
    rw [isFixed_single (isFixed_single (isFixed_string _)) w hw]
    exact .pattern hkey htype hraw
  | negation _ ih =>
    obtain ⟨body, rfl, hbody⟩ := exists_single_of_reordered hw
    exact .negation (ih hbody)

theorem IsCondition.reordered (h : IsCondition id kind v) (hw : Reordered .items v w) :
    IsCondition id kind w := by
  rcases h with rfl | h
  · exact .inl (isFixed_empty w hw)
  · exact .inr (h.reordered hw)

theorem IsRule.isFixed {name : String} {s : Shuffle} (h : IsRule id kind name v) : v.IsFixed s := by
  obtain ⟨label, key, f, rfl, -, -⟩ := h.written
  exact isFixed_single (isFixed_single (isFixed_string _))

/-- The rules of an array in another order, with their names. -/
theorem exists_rules_of_reordered {names : List String} {vs : List Json}
    (h : List.Forall₂ (IsRule id kind) names vs)
    (hw : ReflGen (Reordered .items) (.array vs) w) :
    ∃ names' vs', w = .array vs' ∧ List.Forall₂ (IsRule id kind) names' vs' ∧
      names'.Perm names := by
  cases hw with
  | refl => exact ⟨names, vs, rfl, h, .refl _⟩
  | single hw =>
    obtain ⟨us, rfl, -, -, hperm⟩ := exists_array_of_reordered hw
    have hperm := hperm fun v hv => by
      obtain ⟨name, -, hname⟩ := exists_of_mem_forall₂ h hv
      exact hname.isFixed
    obtain ⟨names', hforall, hnames⟩ := List.perm_comp_forall₂ hperm h.flip
    exact ⟨names', us, rfl, hforall.flip, hnames⟩

theorem IsTransformations.reordered {keys names : List String}
    (h : IsTransformations id kind keys names v) (hw : Reordered .items v w) :
    ∃ keys' names', keys'.Perm keys ∧ names'.Perm names ∧
      IsTransformations id kind keys' names' w := by
  obtain ⟨vs, hrules, hv⟩ := h.written
  obtain ⟨group, apply, hgroup, happly, hw⟩ := exists_two_of_reordered (by decide) hv hw
  obtain ⟨keys', rfl, hkeys⟩ := exists_texts_of_reordered hgroup
  obtain ⟨names', vs', rfl, hrules', hnames⟩ := exists_rules_of_reordered hrules happly
  refine ⟨keys', names', hkeys, hnames, ?_, fun key hkey => h.fields key (hkeys.mem_iff.mp hkey),
    hnames.nodup_iff.mpr h.nodup, vs', hrules', hw⟩
  rintro rfl
  exact h.nonempty (List.nil_perm.mp hkeys)

theorem IsOrder.reordered {columns columns' : List String} (h : IsOrder columns v)
    (hcolumns : columns'.Perm columns) (hw : ReflGen (Reordered .items) v w) :
    IsOrder columns' w := by
  rcases h with ⟨key, hkey, rfl⟩ | ⟨d, keys, hd, hne, hkeys, hv⟩
  · rw [(isFixed_string _).eq_of_reflGen hw]
    exact .inl ⟨key, hcolumns.mem_iff.mpr hkey, rfl⟩
  · have hkeys (keys' : List String) (hperm : keys'.Perm keys) : ∀ key ∈ keys', key ∈ columns' :=
      fun key hkey => hcolumns.mem_iff.mpr (hkeys key (hperm.mem_iff.mp hkey))
    cases hw with
    | refl => exact .inr ⟨d, keys, hd, hne, hkeys keys (.refl _), hv⟩
    | single hw =>
      obtain ⟨dir, order, hdir, horder, hw⟩ := exists_two_of_reordered (by decide) hv hw
      obtain rfl := (isFixed_string _).eq_of_reflGen hdir
      obtain ⟨keys', rfl, hperm⟩ := exists_texts_of_reordered horder
      refine .inr ⟨d, keys', hd, ?_, hkeys keys' hperm, hw⟩
      rintro rfl
      exact hne (List.nil_perm.mp hperm)

theorem IsOptions.reordered {shown shown' : String → Prop} (h : IsOptions shown v)
    (hv : v.HasDistinctKeys) (hshown : ∀ name, shown name → shown' name)
    (hw : ReflGen (Reordered .items) v w) : IsOptions shown' w := by
  obtain ⟨parts, columns, rfl, hparts, hcolumns, hne, hall, horder⟩ := h
  cases hw with
  | refl => exact ⟨parts, columns, rfl, hparts, hcolumns, hne, fun c hc => hshown c (hall c hc),
      horder⟩
  | single hw =>
    cases hv with
    | object hkeys _ =>
      obtain ⟨parts', rfl, hperm, hfound⟩ := exists_lookup_of_reordered hkeys hw
      have hcolumnsFound := hfound "COLUMNS"
      have horderFound := hfound "ORDER"
      rw [hcolumns] at hcolumnsFound
      generalize hcolumns' : parts'.lookup "COLUMNS" = found at hcolumnsFound
      cases hcolumnsFound with
      | some hx =>
        obtain ⟨columns', rfl, hsame⟩ := exists_texts_of_reordered hx
        refine ⟨parts', columns', rfl, keys_of_reordered
          (P := fun key => key = "COLUMNS" ∨ key = "ORDER") hperm hparts, hcolumns', ?_,
          fun c hc => hshown c (hall c (hsame.mem_iff.mp hc)), fun x hx => ?_⟩
        · rintro rfl
          exact hne (List.nil_perm.mp hsame)
        · rw [hx] at horderFound
          generalize hfirst : parts.lookup "ORDER" = found at horderFound
          cases horderFound with
          | some hy => exact (horder _ hfirst).reordered hsame hy

theorem IsQuery.reordered (h : IsQuery id kind v) (hv : v.HasDistinctKeys)
    (hw : Reordered .items v w) : IsQuery id kind w := by
  obtain ⟨parts, whereClause, optionsClause, rfl, hparts, hwhere, hoptions, hcondition, hrest⟩ := h
  cases hv with
  | object hkeys hes =>
    have hclause := hes _ (mem_of_lookup_eq_some hoptions)
    obtain ⟨parts', rfl, hperm, hfound⟩ := exists_lookup_of_reordered hkeys hw
    have hwhereFound := hfound "WHERE"
    have hoptionsFound := hfound "OPTIONS"
    have hgroupingFound := hfound "TRANSFORMATIONS"
    rw [hwhere] at hwhereFound
    rw [hoptions] at hoptionsFound
    generalize hwhere' : parts'.lookup "WHERE" = where' at hwhereFound
    generalize hoptions' : parts'.lookup "OPTIONS" = options' at hoptionsFound
    cases hwhereFound with
    | @some _ where' hx =>
      cases hoptionsFound with
      | @some _ options' hy =>
        have hcondition' : IsCondition id kind where' := by
          cases hx with
          | refl => exact hcondition
          | single hx => exact hcondition.reordered hx
        refine ⟨parts', where', options', rfl, keys_of_reordered
          (P := fun key => key = "WHERE" ∨ key = "OPTIONS" ∨ key = "TRANSFORMATIONS") hperm hparts,
          hwhere', hoptions', hcondition', ?_⟩
        generalize parts.lookup "TRANSFORMATIONS" = grouping at hrest hgroupingFound
        generalize parts'.lookup "TRANSFORMATIONS" = grouping' at hgroupingFound ⊢
        cases hgroupingFound with
        | none => exact hrest.reordered hclause (fun _ h => h) hy
        | @some _ grouping' hz =>
          obtain ⟨keys, names, htransformations, hshown⟩ := hrest
          obtain ⟨keys', names', hkeys', hnames', htransformations'⟩ :
              ∃ keys' names', keys'.Perm keys ∧ names'.Perm names ∧
                IsTransformations id kind keys' names' grouping' := by
            cases hz with
            | refl => exact ⟨keys, names, .refl _, .refl _, htransformations⟩
            | single hz => exact htransformations.reordered hz
          refine ⟨keys', names', htransformations', hshown.reordered hclause (fun name h => ?_) hy⟩
          exact h.imp hkeys'.mem_iff.mpr hnames'.mem_iff.mpr

/-! ## Reading -/

variable {known : String → Option Kind}

/-- With the entries of one object in another order a query is read as the same plan. -/
theorem ofJson_of_entries (hv : v.HasDistinctKeys) (hw : Reordered .entries v w) :
    (Plan.ofJson known w).toOption = (Plan.ofJson known v).toOption := by
  have hstep {v w : Json} {p : Plan} (hv : v.HasDistinctKeys) (hw : Reordered .entries v w)
      (h : Plan.ofJson known v = .ok p) : Plan.ofJson known w = .ok p := by
    obtain ⟨hadmits, hmeans⟩ := ofJson_eq_ok_iff.mp h
    exact ofJson_eq_ok_iff.mpr ⟨hadmits, ClausesMean.reordered hmeans hv hw⟩
  cases hread : Plan.ofJson known v with
  | ok p => rw [hstep hv hw hread]
  | error fault =>
    cases hread' : Plan.ofJson known w with
    | error => rfl
    | ok p =>
      have := hstep (hw.hasDistinctKeys hv) hw.symm hread'
      rw [hread] at this
      cases this

/-- The dataset and the kind of a query that is read. -/
theorem map_ofJson_eq_some_iff {id : String} {kind : Kind} :
    (Plan.ofJson known v).toOption.map (fun p => (p.dataset, p.kind)) = some (id, kind) ↔
      Admits known id kind ∧ IsQuery id kind v := by
  rw [← exists_clausesMean_iff]
  constructor
  · intro h
    cases hread : Plan.ofJson known v with
    | error => simp [hread, Except.toOption] at h
    | ok p =>
      rw [hread] at h
      obtain ⟨rfl, rfl⟩ := Prod.mk.inj (Option.some.inj h)
      obtain ⟨hadmits, hmeans⟩ := ofJson_eq_ok_iff.mp hread
      exact ⟨hadmits, _, hmeans⟩
  · rintro ⟨hadmits, ⟨f, g, cs, o⟩, hmeans⟩
    have hread := (ofJson_eq_ok_iff (p := ⟨id, kind, f, g, cs, o⟩)).mpr ⟨hadmits, hmeans⟩
    rw [hread]
    rfl

/-- With the items of one array in another order a query is read or not as before, for the same
dataset and kind. -/
theorem map_ofJson_of_items (hv : v.HasDistinctKeys) (hw : Reordered .items v w) :
    (Plan.ofJson known w).toOption.map (fun p => (p.dataset, p.kind)) =
      (Plan.ofJson known v).toOption.map fun p => (p.dataset, p.kind) := by
  refine Option.ext fun pair => ?_
  rw [map_ofJson_eq_some_iff, map_ofJson_eq_some_iff]
  constructor
  · rintro ⟨hadmits, h⟩
    exact ⟨hadmits, h.reordered (hw.hasDistinctKeys hv) hw.symm⟩
  · rintro ⟨hadmits, h⟩
    exact ⟨hadmits, h.reordered hv hw⟩

/-- However the entries of its objects are reordered, a query is read as the same plan or not at
all, as before. However the items of its arrays are reordered as well, it is read for the same
dataset and kind or not at all, as before. -/
theorem ofJson_reordered (known : String → Option Kind) {v w : Json} (hv : v.HasDistinctKeys) :
    (ReflTransGen (Reordered .entries) v w →
      (Plan.ofJson known w).toOption = (Plan.ofJson known v).toOption) ∧
    (ReflTransGen (fun v w => ∃ s, Reordered s v w) v w →
      (Plan.ofJson known w).toOption.map (fun p => (p.dataset, p.kind)) =
        (Plan.ofJson known v).toOption.map fun p => (p.dataset, p.kind)) := by
  constructor
  · intro h
    have hboth : w.HasDistinctKeys ∧
        (Plan.ofJson known w).toOption = (Plan.ofJson known v).toOption := by
      induction h with
      | refl => exact ⟨hv, rfl⟩
      | tail _ hstep ih =>
        exact ⟨hstep.hasDistinctKeys ih.1, (ofJson_of_entries ih.1 hstep).trans ih.2⟩
    exact hboth.2
  · intro h
    have hboth : w.HasDistinctKeys ∧
        (Plan.ofJson known w).toOption.map (fun p => (p.dataset, p.kind)) =
          (Plan.ofJson known v).toOption.map fun p => (p.dataset, p.kind) := by
      induction h with
      | refl => exact ⟨hv, rfl⟩
      | tail _ hstep ih =>
        obtain ⟨s, hstep⟩ := hstep
        refine ⟨hstep.hasDistinctKeys ih.1, Eq.trans ?_ ih.2⟩
        cases s with
        | entries => rw [ofJson_of_entries ih.1 hstep]
        | items => exact map_ofJson_of_items ih.1 hstep
    exact hboth.2

/-- The branches of a filter change places, and so do the clauses of the query. -/
theorem ofJson_reordered_branches :
    let more : Json := .object [("GT", .object [("a_avg", .number (.integer 90))])]
    let named : Json := .object [("IS", .object [("a_dept", .string "c*")])]
    let options : Json := .object [("COLUMNS", .array [.string "a_dept"])]
    let v : Json := .object [("WHERE", .object [("OR", .array [more, named])]), ("OPTIONS", options)]
    let w : Json := .object [("OPTIONS", options), ("WHERE", .object [("OR", .array [named, more])])]
    v.HasDistinctKeys ∧ ReflTransGen (fun v w => ∃ s, Reordered s v w) v w ∧
      (Plan.ofJson (fun _ => none) w).toOption.map (fun p => (p.dataset, p.kind)) =
        some ("a", .courses) := by
  intro more named options v w
  have hv : v.HasDistinctKeys := by
    have hfilters : ∀ filter ∈ [more, named], filter.HasDistinctKeys := by
      simp only [List.forall_mem_cons, List.not_mem_nil, false_imp_iff, implies_true, and_true]
      exact ⟨.single (.single (.number _)), .single (.single (.string _))⟩
    have hcolumns : ∀ column ∈ [Json.string "a_dept"], column.HasDistinctKeys := by
      simpa using HasDistinctKeys.string "a_dept"
    refine .object (by decide) ?_
    simp only [List.forall_mem_cons, List.not_mem_nil, false_imp_iff, implies_true, and_true]
    exact ⟨.single (.array hfilters), .single (.array hcolumns)⟩
  have hsteps : ReflTransGen (fun v w => ∃ s, Reordered s v w) v w := by
    have hbranches : Reordered .items v (.object [("WHERE", .object [("OR",
        .array [named, more])]), ("OPTIONS", options)]) :=
      @Reordered.entry _ [] _ _ _ _ (@Reordered.entry _ [] _ _ _ _ (.items (.swap _ _ _)))
    exact .tail (.single ⟨_, hbranches⟩) ⟨_, .entries (.swap _ _ _)⟩
  refine ⟨hv, hsteps, ?_⟩
  rw [(ofJson_reordered (fun _ => none) hv).2 hsteps]
  decide +kernel

end CampusQuery
