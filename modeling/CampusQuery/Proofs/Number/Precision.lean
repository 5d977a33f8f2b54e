import Mathlib
import CampusQuery.Proofs.Number.Decimal

/-!
# How many digits a number is written with

The shortest decimal of a number lies on the first grid that has a point in the interval of the
number. The grid before it is ten times as coarse and has none, so its step is no less than the
interval, and a number of 53 bits has fewer than `2 ^ 57` steps of a grid that is no finer than a
tenth of that. A decimal that is read from a number is of no more digits, or it is whole.

* `Binary64.two_pow_le_gridStep` — a grid that misses the interval of a number is coarse.
* `Binary64.digits_shortest_lt` — the shortest decimal has fewer than `2 ^ 57` steps of its last
  place.
* `Decimal.isShort_ofBinary64` — what is read from a number is whole or short.
-/

namespace CampusQuery

namespace Binary64

variable {tie : Tie} {x : Binary64} {n digits : Nat}

/-! ## Grids -/

theorem gridStep_pos (n : Nat) : 0 < (gridStep n).1 ∧ 0 < (gridStep n).2 := by
  have hunits := unitsPerOne_pos
  unfold gridStep
  split_ifs
  · exact ⟨Nat.mul_pos (Nat.pow_pos (by decide)) (by omega), Nat.one_pos⟩
  · exact ⟨by omega, Nat.pow_pos (by decide)⟩

/-- The step of each grid is ten times that of the grid before. -/
theorem gridStep_succ (n : Nat) :
    (gridStep (n + 1)).1 * (gridStep n).2 = 10 * (gridStep n).1 * (gridStep (n + 1)).2 := by
  unfold gridStep
  generalize unitsPerOne = units
  rcases Nat.lt_trichotomy (n + 1) 1074 with h | h | h
  · have hsucc : 1074 - n = 1074 - (n + 1) + 1 := by omega
    rw [if_neg (by omega), if_neg (by omega), hsucc, Nat.pow_eq, Nat.pow_eq, Nat.pow_succ]
    ring
  · have hzero : n + 1 - 1074 = 0 := by omega
    have hone : 1074 - n = 1 := by omega
    rw [if_pos (by omega), if_neg (by omega), hzero, hone, Nat.pow_eq, Nat.pow_eq]
    ring
  · have hsucc : n + 1 - 1074 = n - 1074 + 1 := by omega
    rw [if_pos (by omega), if_pos (by omega), hsucc, Nat.pow_eq, Nat.pow_eq, Nat.pow_succ]
    ring

/-- The ends of the interval of a number: it reaches half a last place up, and half a last place or
a quarter down. -/
theorem interval_bounds (hx : x.significand ≠ 0) :
    x.interval.low + 2 ^ x.exponent ≤ 4 * x.magnitude ∧
      4 * x.magnitude + 2 * 2 ^ x.exponent = x.interval.high := by
  have hbelow := below_le hx
  have hpos := Nat.two_pow_pos x.exponent
  unfold interval
  simp only [Nat.shiftLeft_eq, Nat.one_mul, and_true]
  split_ifs <;> omega

theorem le_of_holds {i : Interval} {num den : Nat} (h : i.holds num den = true) :
    num ≤ i.high * den := by
  unfold Interval.holds at h
  split at h
  · exact (of_decide_eq_true (Bool.and_eq_true_iff.mp h).2)
  · exact (of_decide_eq_true (Bool.and_eq_true_iff.mp h).2).le

theorem le_low_of_not_holds {i : Interval} {num den : Nat} (h : i.holds num den = false)
    (hlt : num < i.high * den) : num ≤ i.low * den := by
  unfold Interval.holds at h
  split at h
  · simp only [Bool.and_eq_false_iff, decide_eq_false_iff_not] at h
    omega
  · simp only [Bool.and_eq_false_iff, decide_eq_false_iff_not] at h
    omega

theorem high_le_of_not_holds {i : Interval} {num den : Nat} (h : i.holds num den = false)
    (hlt : i.low * den < num) : i.high * den ≤ num := by
  unfold Interval.holds at h
  split at h
  · simp only [Bool.and_eq_false_iff, decide_eq_false_iff_not] at h
    omega
  · simp only [Bool.and_eq_false_iff, decide_eq_false_iff_not] at h
    omega

/-- A grid that misses the interval of a number has a step of no less than three quarters of a last
place. -/
theorem two_pow_le_gridStep (hx : x.significand ≠ 0) (h : onGrid? tie x n = none) :
    3 * 2 ^ x.exponent * (gridStep n).2 ≤ (gridStep n).1 := by
  obtain ⟨hstep, hden⟩ := gridStep_pos n
  obtain ⟨hlow, hhigh⟩ := interval_bounds hx
  have hlast := Nat.two_pow_pos x.exponent
  unfold onGrid? at h
  dsimp only at h
  generalize (gridStep n).1 = step at *
  generalize (gridStep n).2 = den at *
  generalize x.interval = i at *
  -- the points on both sides of the number lie outside the interval
  have hmisses : i.holds (4 * x.magnitude * den / step * step) den = false ∧
      i.holds ((4 * x.magnitude * den / step + 1) * step) den = false := by
    split at h <;> simp_all
  have hlower : 4 * x.magnitude * den / step * step ≤ 4 * x.magnitude * den :=
    Nat.div_mul_le_self _ _
  have hupper : 4 * x.magnitude * den < (4 * x.magnitude * den / step + 1) * step :=
    Nat.lt_mul_of_div_lt (Nat.lt_succ_self _) hstep
  have hlow' := Nat.mul_le_mul_right den hlow
  have hpos : 0 < 2 ^ x.exponent * den := Nat.mul_pos hlast hden
  rw [Nat.add_mul] at hlow'
  have hbelow := le_low_of_not_holds hmisses.1 (by
    rw [← hhigh, Nat.add_mul, Nat.mul_assoc 2]
    omega)
  have habove := high_le_of_not_holds hmisses.2 (by omega)
  rw [← hhigh, Nat.add_mul, Nat.mul_assoc 2] at habove
  rw [Nat.add_mul, Nat.one_mul] at habove
  rw [Nat.mul_assoc]
  omega

/-- The finest grid has a point in the interval of every number. -/
theorem onGrid?_zero_ne_none (hx : x.significand ≠ 0) : onGrid? tie x 0 ≠ none := by
  have hzero : gridStep 0 = (4 * unitsPerOne, Nat.pow 10 (1074 - 0)) := if_neg (by decide)
  rw [Nat.sub_zero] at hzero
  have hunits := unitsPerOne_eq
  have hexact := isNear_magnitude hx
  unfold onGrid?
  rw [hzero]
  dsimp only
  generalize 1074 = m at *
  have hdvd : unitsPerOne ∣ Nat.pow 10 m := hunits ▸ pow_dvd_pow_of_dvd (by decide) m
  have hten : 0 < Nat.pow 10 m := Nat.pow_pos (by decide)
  generalize Nat.pow 10 m = ten at *
  have hlower : 4 * x.magnitude * ten / (4 * unitsPerOne) * (4 * unitsPerOne) =
      4 * x.magnitude * ten := by
    refine Nat.div_mul_cancel ?_
    rw [Nat.mul_assoc]
    exact Nat.mul_dvd_mul_left 4 (hdvd.mul_left x.magnitude)
  rw [← isNear_mul hten, Nat.one_mul, IsNear, ← Nat.mul_assoc] at hexact
  rw [hlower, hexact]
  split <;> simp_all

/-! ## Digits -/

/-- A point in the interval of a number has fewer than `2 ^ 57` steps of a grid that is not too
fine. -/
theorem digits_lt_of_onGrid? (h : onGrid? tie x n = some digits) (hx : x.significand ≠ 0)
    (hcoarse : 3 * 2 ^ x.exponent * (gridStep n).2 ≤ 10 * (gridStep n).1) : digits < 2 ^ 57 := by
  obtain ⟨-, hden⟩ := gridStep_pos n
  have hhigh := le_of_holds (holds_of_onGrid? h)
  have hlt := x.significand_lt
  rw [← (interval_bounds hx).2, magnitude_eq] at hhigh
  generalize (gridStep n).1 = step at *
  generalize (gridStep n).2 = den at *
  have hlast : 0 < 2 ^ x.exponent * den := Nat.mul_pos (Nat.two_pow_pos _) hden
  generalize x.significand = s at *
  -- thrice the digits are no more than ten times the last places of the upper end
  have hle : 3 * digits ≤ 10 * (4 * s + 2) := by
    apply Nat.le_of_mul_le_mul_right (c := 2 ^ x.exponent * den) _ hlast
    calc 3 * digits * (2 ^ x.exponent * den)
      _ = digits * (3 * 2 ^ x.exponent * den) := by ring
      _ ≤ digits * (10 * step) := Nat.mul_le_mul_left _ hcoarse
      _ = 10 * (digits * step) := by ring
      _ ≤ 10 * ((4 * (s * 2 ^ x.exponent) + 2 * 2 ^ x.exponent) * den) :=
        Nat.mul_le_mul_left _ hhigh
      _ = 10 * (4 * s + 2) * (2 ^ x.exponent * den) := by ring
  omega

/-- Counting down from a coarse grid, either a grid has a point in the interval, or the next one is
not too fine. -/
theorem digits_firstOnGrid_lt (hx : x.significand ≠ 0)
    (hcoarse : 3 * 2 ^ x.exponent * (gridStep n).2 ≤ 10 * (gridStep n).1) :
    (firstOnGrid tie x (n + 1)).digits < 2 ^ 57 := by
  induction n with
  | zero =>
    obtain ⟨digits, hdigits⟩ : ∃ digits, onGrid? tie x 0 = some digits :=
      Option.ne_none_iff_exists'.mp (onGrid?_zero_ne_none hx)
    rw [firstOnGrid, hdigits]
    exact digits_lt_of_onGrid? hdigits hx hcoarse
  | succ n ih =>
    rw [firstOnGrid]
    cases hgrid : onGrid? tie x (n + 1) with
    | some digits => exact digits_lt_of_onGrid? hgrid hx hcoarse
    | none =>
      refine ih (Nat.le_of_mul_le_mul_right (c := (gridStep (n + 1)).2) ?_ (gridStep_pos _).2)
      rw [← gridStep_succ, Nat.mul_right_comm]
      exact Nat.mul_le_mul_right _ (two_pow_le_gridStep hx hgrid)

/-- The grid that the count starts from is coarse for all sizes that the format has. -/
theorem two_pow_le_coarse : ∀ l < 2099,
    let n := (((l + 4 : Nat) : Int) - 1074) * 30103 / 100000 + 1076 |>.toNat
    n ≠ 0 ∧ 3 * 2 ^ l * (gridStep (n - 1)).2 ≤ 10 * (gridStep (n - 1)).1 := by
  decide +kernel

theorem exponent_le_log2 (hx : x.significand ≠ 0) : x.exponent ≤ x.magnitude.log2 := by
  rw [Nat.le_log2 (mt magnitude_eq_zero_iff.mp hx), magnitude_eq]
  exact Nat.le_mul_of_pos_left _ (Nat.pos_of_ne_zero hx)

theorem log2_magnitude_lt (hx : x.significand ≠ 0) : x.magnitude.log2 < 2099 := by
  rw [Nat.log2_lt (mt magnitude_eq_zero_iff.mp hx), magnitude_eq]
  calc x.significand * 2 ^ x.exponent
    _ < 2 ^ 53 * 2 ^ x.exponent := Nat.mul_lt_mul_of_pos_right x.significand_lt (Nat.two_pow_pos _)
    _ = 2 ^ (53 + x.exponent) := (Nat.pow_add ..).symm
    _ ≤ 2 ^ 2099 := Nat.pow_le_pow_right (by decide) (by have := x.exponent_le; omega)

/-- The shortest decimal of a number has fewer than `2 ^ 57` steps of its last place. -/
theorem digits_shortest_lt (tie : Tie) (x : Binary64) : (x.shortest tie).digits < 2 ^ 57 := by
  by_cases hx : x.significand = 0
  · rw [shortest, if_pos hx]
    exact Nat.two_pow_pos 57
  · obtain ⟨hne, hcoarse⟩ := two_pow_le_coarse _ (log2_magnitude_lt hx)
    obtain ⟨n, hn⟩ : ∃ n, x.coarseGrid = n + 1 := Nat.exists_eq_succ_of_ne_zero hne
    have hpred : x.coarseGrid - 1 = n := by omega
    rw [shortest, if_neg hx, hn]
    refine digits_firstOnGrid_lt hx (le_trans ?_ (hpred ▸ hcoarse))
    exact Nat.mul_le_mul_right _
      (Nat.mul_le_mul_left 3 (Nat.pow_le_pow_right (by decide) (exponent_le_log2 hx)))

end Binary64

/-! ## Decimals -/

namespace Decimal

variable {x : Binary64} {d : Decimal} {negative : Bool} {size scale digits places n : Nat}

/-- A decimal that is whole, or of no more digits than a number is written with. -/
def IsShort (a : Decimal) : Prop :=
  a.scale = 0 ∨ a.size ≤ 2 ^ 57

theorem ofParts?_eq_some (h : ofParts? negative size scale = some d) :
    size < 2 ^ 96 ∧ scale ≤ 28 ∧ d.scale = scale ∧ d.size = size ∧
      d.value = signed negative (size / 10 ^ scale) := by
  obtain ⟨⟨hsize, hscale⟩, heq⟩ := Option.dite_none_right_eq_some.mp h
  obtain rfl := Option.some.inj heq
  refine ⟨hsize, hscale, rfl, ?_, ?_⟩
  · cases negative <;> simp [Decimal.size]
  · cases negative <;> simp [value, signed, neg_div]

theorem keptPlaces_le (digits places n : Nat) : keptPlaces digits places n ≤ places := by
  induction n with
  | zero => exact Nat.zero_le _
  | succ n ih =>
    rw [keptPlaces]
    split_ifs with h
    · exact h.1
    · exact ih

/-- What is read of some digits has no more places and at most one step more. -/
theorem ofDigits?_eq_some (h : ofDigits? negative digits places = some d) :
    d.scale ≤ places ∧ d.size ≤ digits + 1 := by
  have hplaces := keptPlaces_le digits places 28
  have hkept := Nat.div_le_self digits (Nat.pow 10 (places - keptPlaces digits places 28))
  unfold ofDigits? at h
  dsimp only at h
  generalize keptPlaces digits places 28 = scale at *
  generalize digits / Nat.pow 10 (places - scale) = kept at *
  split_ifs at h
  all_goals
    obtain ⟨-, -, hscale, hsize, -⟩ := ofParts?_eq_some h
    omega

theorem isShort_of_ofWritten? (h : ofWritten? x = some d) : d.IsShort := by
  have hdigits := x.digits_shortest_lt NumberStyle.plain.tie
  unfold ofWritten? at h
  dsimp only at h
  split_ifs at h
  · have hsize := (ofDigits?_eq_some h).2
    exact .inr (by omega)
  · have hscale := (ofDigits?_eq_some h).1
    exact .inl (Nat.le_zero.mp hscale)

/-- What a number is converted to is whole or short. -/
theorem isShort_ofBinary64 [Converter] (x : Binary64) : (ofBinary64 x).IsShort := by
  cases hwritten : ofWritten? x with
  | some d =>
    rw [ofBinary64, ofBinary64?, hwritten]
    exact isShort_of_ofWritten? hwritten
  | none =>
    rw [ofBinary64, ofBinary64?, hwritten, Option.none_or]
    cases hbits : Converter.ofBits? x with
    | none => cases x.negative <;> exact .inl rfl
    | some d => exact .inl (Converter.whole hwritten hbits)

end Decimal

end CampusQuery
