import Mathlib
import CampusQuery.Answer.Selection

/-!
# What a filter selects

`Filter.select` narrows a list of places from filter to filter and goes through sets of places.
`Filter.Satisfies` is what a filter means for one row on its own, and the two agree. Its comparisons
are those of the integers that `Binary64.value` gives and its patterns are parts of a text, neither
by way of the tests that the program runs.

* `Comparison.holds_iff_relates`, `Pattern.accepts_iff_matches` — the tests of a single value.
* `holds_iff_satisfies` — `Filter.holds` decides `Filter.Satisfies`.
* `select_eq_filter_holds` — a selection is a `List.filter` of the places given, so their order and
  their repetitions are kept.
* `select_pointwise` — the places selected are those of the rows that satisfy the filter; of a
  conjunction the places that every part selects, of a disjunction those that some part selects, of
  a negation those that its part leaves.
-/

namespace CampusQuery

/-! ## Values -/

/-- What a comparison means for two numbers: they stand in that relation by value, and strictly so
where it is an order. -/
def Comparison.Relates : Comparison → Binary64 → Binary64 → Prop
  | .less, x, bound => x.value < bound.value
  | .greater, x, bound => x.value > bound.value
  | .equal, x, bound => x.value = bound.value

theorem Comparison.holds_iff_relates (c : Comparison) (x bound : Binary64) :
    c.holds x bound = true ↔ c.Relates x bound := by
  cases c <;> simp [holds, Relates]

/-- What a pattern means for a text: its own text is the whole of it, or where it begins, or where
it ends, or anywhere in it. -/
def Pattern.Matches : Pattern → String → Prop
  | .any, _ => True
  | .exact text, s => s = text
  | .startsWith text, s => text.toList <+: s.toList
  | .endsWith text, s => text.toList <:+ s.toList
  | .contains text, s => text.toList <:+: s.toList

theorem Pattern.accepts_iff_matches (p : Pattern) (s : String) :
    p.accepts s = true ↔ p.Matches s := by
  cases p <;> simp [accepts, Matches, isWithin_iff]

namespace Value

theorem bind_number?_eq_some_iff {v : Option Value} {x : Binary64} :
    v.bind number? = some x ↔ v = some (.number x) := by
  rcases v with - | y | s <;> simp [number?]

theorem bind_text?_eq_some_iff {v : Option Value} {s : String} :
    v.bind text? = some s ↔ v = some (.text s) := by
  rcases v with - | x | t <;> simp [text?]

end Value

namespace Filter

/-- What a filter means for a row. -/
def Satisfies (r : Record) : Filter → Prop
  | .all => True
  | .and filters => ∀ f ∈ filters, Satisfies r f
  | .or filters => ∃ f, ∃ _ : f ∈ filters, Satisfies r f
  | .not filter => ¬ Satisfies r filter
  | .compare c key bound => ∃ x, r.get? key.field = some (.number x) ∧ c.Relates x bound
  | .like key pattern => ∃ s, r.get? key.field = some (.text s) ∧ pattern.Matches s

/-! ## Rows -/

section Rows

variable {rows : Array Record} {place : Nat}

theorem allHold_iff {filters : List Filter} :
    allHold rows place filters = true ↔ ∀ f ∈ filters, holds rows place f = true := by
  induction filters with
  | nil => simp [allHold]
  | cons f fs ih => simp [allHold, ih]

theorem anyHolds_iff {filters : List Filter} :
    anyHolds rows place filters = true ↔ ∃ f ∈ filters, holds rows place f = true := by
  induction filters with
  | nil => simp [anyHolds]
  | cons f fs ih => simp [anyHolds, ih]

theorem valueAt_eq {r : Record} (h : rows[place]? = some r) (f : Field) :
    valueAt rows f place = r.get? f := by
  simp [valueAt, h]

theorem holds_iff_satisfies {r : Record} (h : rows[place]? = some r) (f : Filter) :
    f.holds rows place = true ↔ f.Satisfies r := by
  fun_induction Satisfies r f with
  | case1 => simp [holds]
  | case2 filters ih =>
    rw [holds, allHold_iff]
    exact forall₂_congr fun f hf => ih f hf
  | case3 filters ih =>
    rw [holds, anyHolds_iff]
    simp only [exists_prop]
    exact exists_congr fun f => and_congr_right fun hf => ih f hf
  | case4 filter ih => rw [holds, Bool.not_eq_true', ← ih, Bool.not_eq_true]
  | case5 c key bound =>
    rw [holds, comparesAt, valueAt_eq h, Option.any_eq_true]
    exact exists_congr fun x =>
      and_congr Value.bind_number?_eq_some_iff (c.holds_iff_relates x bound)
  | case6 key pattern =>
    rw [holds, accepts, valueAt_eq h, Option.any_eq_true]
    exact exists_congr fun s =>
      and_congr Value.bind_text?_eq_some_iff (pattern.accepts_iff_matches s)

instance (r : Record) (f : Filter) : Decidable (f.Satisfies r) :=
  decidable_of_iff (f.holds #[r] 0 = true) (holds_iff_satisfies rfl f)

end Rows

/-! ## Selections -/

section Selections

variable (rows : Array Record)

mutual

theorem select_eq_filter_holds (f : Filter) (places : List Nat) :
    f.select rows places = places.filter fun place => f.holds rows place := by
  cases f with
  | all => simp [select, holds]
  | and filters => simpa only [select, holds] using narrow_eq_filter_allHold filters places
  | or filters =>
    rw [select]
    refine List.filter_congr fun place hplace => ?_
    rw [Bool.eq_iff_iff, Std.HashSet.contains_iff_mem, mem_join filters places hplace, holds]
    simp
  | not filter =>
    rw [select]
    refine List.filter_congr fun place hplace => ?_
    rw [Std.HashSet.contains_ofList, select_eq_filter_holds filter places, holds]
    simp [hplace]
  | compare c key bound => simp [select, holds]
  | like key pattern => simp [select, holds]

theorem narrow_eq_filter_allHold (filters : List Filter) (places : List Nat) :
    narrow rows filters places = places.filter fun place => allHold rows place filters := by
  cases filters with
  | nil => simp [narrow, allHold]
  | cons f fs =>
    rw [narrow]
    split
    · next hempty => simp [List.isEmpty_iff.mp hempty]
    · rw [narrow_eq_filter_allHold fs, select_eq_filter_holds f, List.filter_filter]
      refine List.filter_congr fun place _ => ?_
      rw [allHold, Bool.and_comm]

/-- What `join` adds to the set is what some filter lets through of the places. -/
theorem mem_join (filters : List Filter) (places : List Nat) {place : Nat}
    (hplace : place ∈ places) (found : Std.HashSet Nat) :
    place ∈ join rows filters places found ↔
      place ∈ found ∨ anyHolds rows place filters = true := by
  cases filters with
  | nil => simp [join, anyHolds]
  | cons f fs =>
    rw [join, mem_join fs places hplace, Std.HashSet.mem_insertMany_list,
      select_eq_filter_holds f places, anyHolds]
    simp [hplace, or_assoc]

end

end Selections

theorem mem_select {rows : Array Record} {f : Filter} {places : List Nat} {place : Nat} :
    place ∈ f.select rows places ↔ place ∈ places ∧ f.holds rows place = true := by
  rw [select_eq_filter_holds, List.mem_filter]

/-- The places selected are, in their order and as often as they are given, those of the rows that
satisfy the filter. A conjunction selects what each of its parts selects of all the places, a
disjunction what one of its parts selects, and a negation what its part does not. -/
theorem select_pointwise {rows : Array Record} {places : List Nat}
    (hplaces : ∀ place ∈ places, place < rows.size) :
    (∀ f : Filter, f.select rows places =
      places.filter fun place => ∃ h : place < rows.size, f.Satisfies rows[place]) ∧
    (∀ filters : List Filter, (Filter.and filters).select rows places =
      places.filter fun place => ∀ f ∈ filters, place ∈ f.select rows places) ∧
    (∀ filters : List Filter, (Filter.or filters).select rows places =
      places.filter fun place => ∃ f ∈ filters, place ∈ f.select rows places) ∧
    (∀ f : Filter, (Filter.not f).select rows places =
      places.filter fun place => place ∉ f.select rows places) := by
  refine ⟨fun f => ?_, fun filters => ?_, fun filters => ?_, fun f => ?_⟩
  · rw [select_eq_filter_holds]
    refine List.filter_congr fun place hplace => ?_
    have hlt := hplaces place hplace
    rw [Bool.eq_iff_iff, holds_iff_satisfies (Array.getElem?_eq_getElem hlt)]
    simp [hlt]
  · rw [select_eq_filter_holds]
    refine List.filter_congr fun place hplace => ?_
    rw [Bool.eq_iff_iff, holds, allHold_iff]
    simp [mem_select, hplace]
  · rw [select_eq_filter_holds]
    refine List.filter_congr fun place hplace => ?_
    rw [Bool.eq_iff_iff, holds, anyHolds_iff]
    simp [mem_select, hplace]
  · rw [select_eq_filter_holds]
    refine List.filter_congr fun place hplace => ?_
    rw [holds]
    simp [mem_select, hplace]

/-- A section of a department, everything else about it blank. -/
def blankSection (department : String) : Record :=
  ⟨.courses, [.text department, .text "", .text "", .text "", .text "", .number .zero,
    .number .zero, .number .zero, .number .zero, .number .zero], rfl⟩

/-- Equal rows stay two, a place given twice is found twice, and a row without the field of a
comparison passes its negation. -/
theorem select_pointwise_equal_rows :
    (∀ place ∈ [2, 1, 0, 2],
      place < #[blankSection "cs", blankSection "ee", blankSection "cs"].size) ∧
    (Filter.and [.or [.like ⟨"a_dept", .dept⟩ (.exact "cs"), .not .all],
      .not (.compare .equal ⟨"a_seats", .seats⟩ .zero)]).select
        #[blankSection "cs", blankSection "ee", blankSection "cs"] [2, 1, 0, 2] = [2, 0, 2] := by
  refine ⟨by decide, ?_⟩
  rw [(select_pointwise (by decide)).1]
  decide

end Filter

end CampusQuery
