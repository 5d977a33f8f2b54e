import Mathlib
import CampusQuery.Answer.Summary
import CampusQuery.Proofs.Answer.Group
import CampusQuery.Proofs.Number.Conversion

/-!
# Aggregates and the order of values

What an aggregate says of some values does not depend on their order. For the greatest and least
number and for the number of different values nothing more is to be said. Sums and means are taken in
decimals, one number after the other: they are exact in every order where the numbers add up within
a decimal, and are shown alike where the result is not beyond `2 ^ 45`.

* `Json.ofNumber?_congr` — numbers that are equal in value are shown alike.
* `Aggregate.best_spec`, `Aggregate.size_ofList` — the best of some numbers, and how many are
  different.
* `Aggregate.AddUp` — numbers that decimals add up exactly; `Aggregate.value_total` — their sum.
* `Aggregate.value_eq_of_perm` — the same values in another order have the same aggregate.
-/

namespace CampusQuery

/-! ## Values as answers show them -/

theorem Binary64.integer?_of_zero {x : Binary64} (h : x.significand = 0) : x.integer? = some 0 := by
  have hzero : x.magnitude = 0 := magnitude_eq_zero_iff.mpr h
  rw [integer?, hzero, Nat.zero_mod, if_pos rfl, Nat.zero_div]
  cases x.negative <;> rfl

/-- Numbers that are equal in value are shown alike, zeros of either sign as zero. -/
theorem Json.ofNumber?_congr {x y : Binary64} (h : x.value = y.value) :
    ofNumber? (some x) = ofNumber? (some y) := by
  have hshown (z : Binary64) : ofNumber? (some z) = ofNumber? (some z.unsignedZero) := by
    unfold Binary64.unsignedZero
    split_ifs with hz
    · have hsmall : Int.natAbs 0 < Nat.pow 2 63 := by decide
      simp only [ofNumber?, JsonNumber.ofBinary64, Binary64.integer?_of_zero hz,
        Binary64.integer?_of_zero (rfl : Binary64.zero.significand = 0), if_pos hsmall]
    · rfl
  rw [hshown x, hshown y, Binary64.unsignedZero_eq_iff.mpr h]

/-- Values that say the same are shown alike. -/
theorem Value.shown_congr {x y : Value} (h : x.denoted = y.denoted) : x.shown = y.shown := by
  cases x with
  | number x =>
    cases y with
    | number y => exact Json.ofNumber?_congr (Sum.inl.inj h)
    | text => cases h
  | text s =>
    cases y with
    | number => cases h
    | text t => exact congrArg Json.string (Sum.inr.inj h)

theorem Grouping.shown_congr {x y : Option Value}
    (h : x.map Value.denoted = y.map Value.denoted) : shown x = shown y := by
  cases x with
  | none =>
    cases y with
    | none => rfl
    | some => cases h
  | some x =>
    cases y with
    | none => cases h
    | some y => exact Value.shown_congr (Option.some.inj h)

namespace Aggregate

/-! ## The best number -/

section Best

variable {better : Binary64 → Binary64 → Binary64} {key : Binary64 → Int} {xs ys : List Binary64}

theorem best_concat (better : Binary64 → Binary64 → Binary64) (xs : List Binary64)
    (x : Binary64) :
    best better (xs ++ [x]) =
      some (match best better xs with | none => x | some y => better y x) := by
  rw [best, List.foldl_append]
  rfl

theorem best_eq_none_iff : best better xs = none ↔ xs = [] := by
  induction xs using List.reverseRecOn with
  | nil => exact iff_of_true rfl rfl
  | append_singleton xs x => simp [best_concat]

/-- The best of some numbers is one of them, and none has a greater key. -/
theorem best_spec (hchoice : ∀ x y, better x y = x ∨ better x y = y)
    (hkey : ∀ x y, key x ≤ key (better x y) ∧ key y ≤ key (better x y)) {m : Binary64}
    (h : best better xs = some m) : m ∈ xs ∧ ∀ x ∈ xs, key x ≤ key m := by
  induction xs using List.reverseRecOn generalizing m with
  | nil => cases h
  | append_singleton xs x ih =>
    rw [best_concat] at h
    cases hbest : best better xs with
    | none =>
      rw [hbest] at h
      obtain rfl := Option.some.inj h
      rw [best_eq_none_iff.mp hbest]
      simp
    | some y =>
      rw [hbest] at h
      obtain rfl := Option.some.inj h
      obtain ⟨hy, hle⟩ := ih hbest
      dsimp only
      refine ⟨?_, List.forall_mem_append.mpr ⟨fun z hz => (hle z hz).trans (hkey y x).1,
        List.forall_mem_singleton.mpr (hkey y x).2⟩⟩
      rcases hchoice y x with heq | heq
      · rw [heq]
        exact List.mem_append_left _ hy
      · rw [heq]
        exact List.mem_append_right _ List.mem_cons_self

/-- In another order the best of some numbers has the same key. -/
theorem map_key_best_of_perm (hchoice : ∀ x y, better x y = x ∨ better x y = y)
    (hkey : ∀ x y, key x ≤ key (better x y) ∧ key y ≤ key (better x y)) (h : xs.Perm ys) :
    (best better xs).map key = (best better ys).map key := by
  cases hx : best better xs with
  | none =>
    have hnil : ys = [] := (best_eq_none_iff.mp hx ▸ h).nil_eq.symm
    rw [hnil]
    rfl
  | some m =>
    cases hy : best better ys with
    | none =>
      have hnil : xs = [] := (best_eq_none_iff.mp hy ▸ h).eq_nil
      rw [hnil] at hx
      cases hx
    | some m' =>
      obtain ⟨hm, hle⟩ := best_spec hchoice hkey hx
      obtain ⟨hm', hle'⟩ := best_spec hchoice hkey hy
      exact congrArg some
        (le_antisymm (hle' m (h.mem_iff.mp hm)) (hle m' (h.mem_iff.mpr hm')))

theorem max_eq_or (x y : Binary64) : x.max y = x ∨ x.max y = y := by
  unfold Binary64.max
  split_ifs
  · exact .inr rfl
  · exact .inl rfl

theorem le_value_max (x y : Binary64) :
    x.value ≤ (x.max y).value ∧ y.value ≤ (x.max y).value := by
  unfold Binary64.max
  split_ifs <;> omega

theorem min_eq_or (x y : Binary64) : x.min y = x ∨ x.min y = y := by
  unfold Binary64.min
  split_ifs
  · exact .inr rfl
  · exact .inl rfl

theorem value_min_le (x y : Binary64) :
    -x.value ≤ -(x.min y).value ∧ -y.value ≤ -(x.min y).value := by
  unfold Binary64.min
  split_ifs <;> omega

theorem ofNumber?_congr_map {x y : Option Binary64}
    (h : x.map Binary64.value = y.map Binary64.value) : Json.ofNumber? x = Json.ofNumber? y := by
  cases x with
  | none =>
    cases y with
    | none => rfl
    | some => cases h
  | some x =>
    cases y with
    | none => cases h
    | some y => exact Json.ofNumber?_congr (Option.some.inj h)

theorem max_of_perm (h : xs.Perm ys) :
    Json.ofNumber? (best Binary64.max xs) = Json.ofNumber? (best Binary64.max ys) :=
  ofNumber?_congr_map (map_key_best_of_perm max_eq_or le_value_max h)

theorem min_of_perm (h : xs.Perm ys) :
    Json.ofNumber? (best Binary64.min xs) = Json.ofNumber? (best Binary64.min ys) := by
  refine ofNumber?_congr_map (Option.map_injective neg_injective ?_)
  rw [Option.map_map, Option.map_map]
  exact map_key_best_of_perm min_eq_or value_min_le h

end Best

/-! ## How many are different -/

/-- A set made of a list has as many items as there are different ones in the list. -/
theorem size_ofList {α : Type} [DecidableEq α] [BEq α] [LawfulBEq α] [Hashable α] (xs : List α) :
    (Std.HashSet.ofList xs).size = xs.toFinset.card := by
  have hnodup : (Std.HashSet.ofList xs).toList.Nodup :=
    Std.HashSet.distinct_toList.imp fun h => beq_eq_false_iff_ne.mp h
  rw [← Std.HashSet.length_toList, ← List.toFinset_card_of_nodup hnodup]
  congr 1
  ext x
  simp

/-! ## Sums -/

/-- The sum of some numbers as they are written. -/
def exactTotal (xs : List Binary64) : ℚ :=
  (xs.map Binary64.written).sum

/-- Numbers whose written forms have no more than `s` decimal places, with a sum of sizes that fits
into a decimal at these places. -/
def AddUpAt (s : Nat) (xs : List Binary64) : Prop :=
  s ≤ 28 ∧ (∀ x ∈ xs, x.places ≤ s) ∧ (xs.map fun x => |x.written|).sum * 10 ^ s < 2 ^ 96

/-- Numbers that fit so at some number of places. -/
def AddUp (xs : List Binary64) : Prop :=
  ∃ s, AddUpAt s xs

variable {xs ys : List Binary64}

theorem exactTotal_of_perm (h : xs.Perm ys) : exactTotal xs = exactTotal ys :=
  (h.map _).sum_eq

theorem AddUpAt.of_perm {s : Nat} (hxs : AddUpAt s xs) (h : xs.Perm ys) : AddUpAt s ys := by
  obtain ⟨hs, hplaces, hsum⟩ := hxs
  refine ⟨hs, fun x hx => hplaces x (h.mem_iff.mpr hx), ?_⟩
  rwa [← (h.map _).sum_eq]

theorem AddUp.of_perm (hxs : AddUp xs) (h : xs.Perm ys) : AddUp ys := by
  obtain ⟨s, hs⟩ := hxs
  exact ⟨s, AddUpAt.of_perm hs h⟩

theorem abs_exactTotal_le (xs : List Binary64) :
    |exactTotal xs| ≤ (xs.map fun x => |x.written|).sum := by
  induction xs with
  | nil => exact abs_zero.le
  | cons x xs ih =>
    rw [exactTotal, List.map_cons, List.sum_cons, List.map_cons, List.sum_cons]
    exact (abs_add_le _ _).trans (add_le_add_right ih _)

/-- One number after the other: what has been added up so far, and the sizes of all that is still to
come, fit into a decimal. -/
theorem value_foldl_add [Converter] {s : Nat} (hs : s ≤ 28) (hplaces : ∀ x ∈ xs, x.places ≤ s)
    {a : Decimal} (ha : a.scale ≤ s)
    (hsum : (|a.value| + (xs.map fun x => |x.written|).sum) * 10 ^ s < 2 ^ 96) :
    let total := xs.foldl (fun sum x => sum.add (Decimal.ofBinary64 x)) a
    total.value = a.value + exactTotal xs ∧ total.scale ≤ s := by
  induction xs generalizing a with
  | nil => exact ⟨(add_zero _).symm, ha⟩
  | cons x xs ih =>
    obtain ⟨hx, hxs⟩ := List.forall_mem_cons.mp hplaces
    have hten := Decimal.ten_pow_pos s
    have hrest : 0 ≤ (xs.map fun x => |x.written|).sum :=
      (abs_nonneg _).trans (abs_exactTotal_le xs)
    rw [List.map_cons, List.sum_cons] at hsum
    obtain ⟨hread, hscale⟩ := Decimal.value_ofBinary64 hs hx (by
      refine lt_of_le_of_lt (mul_le_mul_of_nonneg_right ?_ hten.le) hsum
      linarith [abs_nonneg a.value])
    have habs := abs_add_le a.value (Decimal.ofBinary64 x).value
    rw [hread] at habs
    obtain ⟨hadd, hscale'⟩ := Decimal.value_add hs ha hscale (by
      rw [hread]
      refine lt_of_le_of_lt (mul_le_mul_of_nonneg_right ?_ hten.le) hsum
      linarith)
    obtain ⟨htotal, hscale''⟩ := ih hxs hscale' (by
      rw [hadd, hread]
      refine lt_of_le_of_lt (mul_le_mul_of_nonneg_right ?_ hten.le) hsum
      linarith)
    refine ⟨?_, hscale''⟩
    rw [List.foldl_cons, htotal, hadd, hread, exactTotal, exactTotal, List.map_cons,
      List.sum_cons, add_assoc]

/-- Numbers that add up at some number of places are added up exactly, and at no more places. -/
theorem AddUpAt.value_total [Converter] {s : Nat} (h : AddUpAt s xs) :
    (total xs).value = exactTotal xs ∧ (total xs).scale ≤ s := by
  obtain ⟨hs, hplaces, hsum⟩ := h
  have hzero : Decimal.zero.value = 0 := Decimal.value_of_coefficient_eq_zero rfl
  have htotal := value_foldl_add (a := Decimal.zero) hs hplaces (Nat.zero_le s) (by
    rwa [hzero, abs_zero, zero_add])
  rwa [hzero, zero_add] at htotal

/-- Numbers that add up within a decimal are added up exactly, in whatever order. -/
theorem value_total [Converter] (h : AddUp xs) : (total xs).value = exactTotal xs := by
  obtain ⟨s, hs⟩ := h
  exact (AddUpAt.value_total hs).1

/-- A decimal up to `2 ^ 45` is shown as the number nearest to its rounding. -/
theorem shown_eq_nearest {a : Decimal} (hle : |a.value| ≤ 2 ^ 45) :
    shown a = Json.ofNumber? (some (a.roundTo places).nearest) := by
  have hplaces : places ≤ 28 := by decide
  have hle' : |a.value| ≤ ((2 ^ 45 : Nat) : ℚ) := by exact_mod_cast hle
  have hsize : |(a.roundTo places).value| ≤ 2 ^ 45 := by
    exact_mod_cast Decimal.abs_value_roundTo_le hplaces hle'
  rw [shown, Decimal.toBinary64_eq_nearest (Decimal.roundTo_spec a hplaces).1 hsize]

/-- Decimals of one value up to `2 ^ 45` are shown alike. -/
theorem shown_congr {a b : Decimal} (h : a.value = b.value) (hle : |a.value| ≤ 2 ^ 45) :
    shown a = shown b := by
  have hplaces : places ≤ 28 := by decide
  rw [shown_eq_nearest hle, shown_eq_nearest (h ▸ hle),
    Decimal.nearest_congr (Decimal.roundTo_congr hplaces h)]

theorem shown_total_of_perm [Converter] (h : xs.Perm ys) (hxs : AddUp xs)
    (hle : |exactTotal xs| ≤ 2 ^ 45) : shown (total xs) = shown (total ys) := by
  have htotal := value_total hxs
  refine shown_congr ?_ (htotal ▸ hle)
  rw [htotal, value_total (hxs.of_perm h), exactTotal_of_perm h]

theorem shown_mean_of_perm [Converter] (h : xs.Perm ys) (hxs : AddUp xs) {count : Nat}
    (hle : |exactTotal xs| ≤ 2 ^ 45 * count) : shown (mean xs count) = shown (mean ys count) := by
  have htotal := value_total hxs
  have hvalue : (total xs).value = (total ys).value := by
    rw [htotal, value_total (hxs.of_perm h), exactTotal_of_perm h]
  rcases Nat.eq_zero_or_pos count with rfl | hpos
  · have hnone (a : Decimal) : a.divNat? 0 = none := by
      rw [Decimal.divNat?]
      exact if_pos rfl
    rw [mean, mean, hnone, hnone]
  · obtain ⟨c, d, hc, hd, hquotient⟩ := Decimal.divNat?_congr hpos hvalue
    have hle' : |(total xs).value| ≤ ((2 ^ 45 * count : Nat) : ℚ) := by
      rw [htotal]
      exact_mod_cast hle
    have hsize := Decimal.abs_value_le_of_divNat? hpos hc hle'
    rw [mean, mean, hc, hd]
    exact shown_congr hquotient (by exact_mod_cast hsize)

/-! ## All aggregates -/

/-- The numbers among some values. -/
def numbers (values : List (Option Value)) : List Binary64 :=
  values.filterMap fun x => x.bind Value.number?

/-- Whether the sum or mean of some values is not beyond `2 ^ 45`. -/
def IsModerate (aggregate : Aggregate) (values : List (Option Value)) : Prop :=
  |exactTotal (numbers values)| ≤ 2 ^ 45 * if aggregate = .average then values.length else 1

/-- A mean that is there is shown rounded to two places. -/
theorem value_average [Converter] {values : List (Option Value)} {c : Decimal}
    (h : (total (numbers values)).divNat? values.length = some c) :
    Aggregate.average.value values = Json.ofNumber? (some (c.roundTo 2).toBinary64) := by
  show shown (mean (numbers values) values.length) = _
  rw [mean, h]
  rfl

/-- The same values in another order have the same aggregate. -/
theorem value_eq_of_perm [Converter] {aggregate : Aggregate} {values values' : List (Option Value)}
    (h : values.Perm values')
    (hexact : aggregate.IsDecimal → AddUp (numbers values) ∧ aggregate.IsModerate values) :
    aggregate.value values = aggregate.value values' := by
  have hnumbers : (numbers values).Perm (numbers values') := h.filterMap _
  cases aggregate with
  | max => exact max_of_perm hnumbers
  | min => exact min_of_perm hnumbers
  | sum =>
    obtain ⟨haddUp, hmoderate⟩ := hexact (.inl rfl)
    have hle : |exactTotal (numbers values)| ≤ 2 ^ 45 := by simpa [IsModerate] using hmoderate
    exact shown_total_of_perm hnumbers haddUp hle
  | average =>
    obtain ⟨haddUp, hmoderate⟩ := hexact (.inr rfl)
    have hle : |exactTotal (numbers values)| ≤ 2 ^ 45 * values.length := by
      simpa [IsModerate] using hmoderate
    have hmean := shown_mean_of_perm hnumbers haddUp hle
    rw [value, value, ← h.length_eq]
    exact hmean
  | count =>
    have hclasses := h.map fun x => x.map Value.unsignedZero
    rw [value, value]
    simp only [size_ofList, List.toFinset_eq_of_perm _ _ hclasses]

end Aggregate

end CampusQuery
