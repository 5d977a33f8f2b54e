import Mathlib
import CampusQuery.Proofs.Answer.Aggregate
import CampusQuery.Proofs.Answer.Partition
import CampusQuery.Proofs.Answer.Permutation
import CampusQuery.Proofs.Number.HalfAway

/-!
# Sums and means to two places

A sum that fits into a decimal is exact, so what is shown of it has been rounded once. A mean has
been rounded twice, by the division and then to two places. Where the numbers are no more than a
million millions, and their places and how many they are leave room below that, the division keeps at
least sixteen places of the mean, and the mean shown is the exact one rounded once.

* `Aggregate.exists_divNat?_total` — the mean of some numbers is there, and rounded as the exact one.
* `Grouping.sum_and_mean_rounded_once` — the sum and the mean of the rows of a group.
-/

namespace CampusQuery

namespace Aggregate

variable {xs : List Binary64} {m n s : Nat}

theorem abs_exactTotal_le_mul (hxs : ∀ x ∈ xs, |x.written| ≤ m) (hn : xs.length ≤ n) :
    |exactTotal xs| ≤ (m * n : Nat) := by
  have hsizes : (xs.map fun x => |x.written|).sum ≤ xs.length * (m : ℚ) := by
    have hmap : ∀ q ∈ xs.map (fun x => |x.written|), q ≤ (m : ℚ) := by
      intro q hq
      obtain ⟨x, hx, rfl⟩ := List.mem_map.mp hq
      exact hxs x hx
    have hsum := List.sum_le_card_nsmul _ _ hmap
    rwa [List.length_map, nsmul_eq_mul] at hsum
  have hcount : xs.length * (m : ℚ) ≤ (m * n : Nat) := by
    rw [Nat.mul_comm]
    exact_mod_cast Nat.mul_le_mul_right m hn
  exact (abs_exactTotal_le xs).trans (hsizes.trans hcount)

theorem abs_written_le {x : Binary64} (h : |x.value| ≤ 10 ^ 12 * Binary64.unitsPerOne) :
    |x.written| ≤ (10 ^ 12 + 1 : Nat) := by
  rw [Binary64.abs_value] at h
  have hlt : x.magnitude < (10 ^ 12 + 1) * Binary64.unitsPerOne := by
    have hone := Binary64.unitsPerOne_pos
    generalize Binary64.unitsPerOne = u at *
    have hle : x.magnitude ≤ 10 ^ 12 * u := by exact_mod_cast h
    omega
  exact (Binary64.abs_written_lt (by decide) hlt).le

/-- The mean of numbers up to `10 ^ 12` that add up is there, and rounded as the exact one. -/
theorem exists_divNat?_total [Converter] (h : AddUpAt s xs) (hn : 0 < n) (hlength : xs.length ≤ n)
    (hcount : n * 10 ^ s ≤ 10 ^ 12) (hxs : ∀ x ∈ xs, |x.value| ≤ 10 ^ 12 * Binary64.unitsPerOne) :
    ∃ c, (total xs).divNat? n = some c ∧
      (c.roundTo 2).value = roundedAway 2 (exactTotal xs / n) := by
  obtain ⟨hvalue, hscale⟩ := h.value_total
  have hle : |(total xs).value| ≤ ((10 ^ 12 + 1) * n : Nat) := by
    rw [hvalue]
    exact abs_exactTotal_le_mul (fun x hx => abs_written_le (hxs x hx)) hlength
  -- sixteen places of the mean fit, and they are finer than what it is a multiple of
  have hfine : 10 ^ (total xs).scale * n * 10 ^ 2 < 10 ^ 16 := by
    have hpow : 10 ^ (total xs).scale * n ≤ n * 10 ^ s := by
      rw [Nat.mul_comm]
      exact Nat.mul_le_mul_left n (Nat.pow_le_pow_right (by decide) hscale)
    omega
  rw [← hvalue]
  exact Decimal.exists_divNat?_roundTo hn (by decide) (by decide) hle (by decide) hfine

/-- So is the mean of some values, of which all count and the numbers are added up. -/
theorem exists_average [Converter] {values : List (Option Value)} (h : AddUpAt s (numbers values))
    (hne : values.length ≠ 0) (hcount : values.length * 10 ^ s ≤ 10 ^ 12)
    (hsizes : ∀ x ∈ numbers values, |x.value| ≤ 10 ^ 12 * Binary64.unitsPerOne) :
    ∃ c, (total (numbers values)).divNat? values.length = some c ∧
      Aggregate.average.value values = Json.ofNumber? (some (c.roundTo 2).toBinary64) ∧
      (c.roundTo 2).value = roundedAway 2 (exactTotal (numbers values) / values.length) := by
  obtain ⟨c, hc, hrounded⟩ := exists_divNat?_total h (Nat.pos_of_ne_zero hne)
    (List.length_filterMap_le _ _) hcount hsizes
  exact ⟨c, hc, value_average hc, hrounded⟩

end Aggregate

namespace Grouping

open Aggregate

/-- The numbers of a field in the rows of a group, in whatever order, are added up exactly as they are
written if their sizes fit into a decimal at some number of places, and the sum is shown rounded to
two places, a half away from zero. A group has rows; if their number leaves room for the places, and
the numbers are no more than `10 ^ 12`, the mean is there, and shown as the exact mean rounded once. -/
theorem sum_and_mean_rounded_once [Converter] (rows : Array Record) {group : List Nat}
    {k : FieldKey} {s : Nat} (h : AddUpAt s (numbers (valuesOf rows group k))) :
    let sum := exactTotal (numbers (valuesOf rows group k))
    (∀ keys places, group ∈ partition rows keys places → group.length ≠ 0) ∧
    ∀ ordered : List Nat, ordered.Perm group →
      let values := valuesOf rows ordered k
      let found := total (numbers values)
      found.value = sum ∧
      Aggregate.sum.value values = Json.ofNumber? (some (found.roundTo 2).toBinary64) ∧
      (found.roundTo 2).value = roundedAway 2 sum ∧
      (group.length ≠ 0 → group.length * 10 ^ s ≤ 10 ^ 12 →
        (∀ x ∈ numbers (valuesOf rows group k), |x.value| ≤ 10 ^ 12 * Binary64.unitsPerOne) →
        ∃ c, found.divNat? group.length = some c ∧
          Aggregate.average.value values = Json.ofNumber? (some (c.roundTo 2).toBinary64) ∧
          (c.roundTo 2).value = roundedAway 2 (sum / group.length)) := by
  intro sum
  refine ⟨fun keys places hgroup => ?_, fun ordered hordered => ?_⟩
  · have hne := (areClasses_partition rows keys places).sharesOut.ne_nil group hgroup
    exact (List.length_pos_iff.mpr hne).ne'
  · intro values found
    have hvalues : values.Perm (valuesOf rows group k) := hordered.map _
    have hnumbers : (numbers values).Perm (numbers (valuesOf rows group k)) := hvalues.filterMap _
    have hadd : AddUpAt s (numbers values) := h.of_perm hnumbers.symm
    have hsum : exactTotal (numbers values) = sum := exactTotal_of_perm hnumbers
    have hfound : found.value = sum := hadd.value_total.1.trans hsum
    have hlength : values.length = group.length := (List.length_map _).trans hordered.length_eq
    refine ⟨hfound, rfl, ?_, fun hne hcount hsizes => ?_⟩
    · rw [Decimal.value_roundTo found (by decide), hfound]
    · rw [← hlength] at hne hcount ⊢
      rw [← hsum]
      exact exists_average hadd hne hcount fun x hx => hsizes x (hnumbers.mem_iff.mp hx)

/-- The mean of a quarter below zero and of zero is a half at the second place, and goes away from
zero. -/
theorem sum_and_mean_of_quarter :
    let rows := #[numberedSection "cs" "310" Registry.quarter.neg, numberedSection "cs" "320" .zero]
    let k : FieldKey := ⟨"a_avg", .avg⟩
    let found := total (numbers (valuesOf rows [1, 0] k))
    AddUpAt 2 (numbers (valuesOf rows [0, 1] k)) ∧ found.value = -(1 / 4) ∧
      (found.roundTo 2).value = -(1 / 4) ∧
      ∃ c, found.divNat? 2 = some c ∧ (c.roundTo 2).value = -(13 / 100) := by
  intro rows k found
  have hzero : Binary64.zero.written = 0 := by
    have hshortest : Binary64.zero.shortest NumberStyle.plain.tie = ⟨0, 0⟩ := by decide +kernel
    rw [Binary64.written, hshortest]
    norm_num [signed, Binary64.zero]
  have hquarter := Registry.written_quarter_neg
  have hadd : AddUpAt 2 (numbers (valuesOf rows [0, 1] k)) := by
    refine ⟨by decide, by decide +kernel, ?_⟩
    show (|Registry.quarter.neg.written| + (|Binary64.zero.written| + 0)) * 10 ^ 2 < 2 ^ 96
    rw [hquarter, hzero]
    norm_num
  have hsum : exactTotal (numbers (valuesOf rows [0, 1] k)) = -(1 / 4) := by
    show Registry.quarter.neg.written + (Binary64.zero.written + 0) = -(1 / 4)
    rw [hquarter, hzero]
    norm_num
  obtain ⟨-, hordered⟩ := sum_and_mean_rounded_once rows hadd
  obtain ⟨hfound, -, hrounded, hmean⟩ := hordered [1, 0] (.swap _ _ _)
  obtain ⟨c, hc, -, hshown⟩ := hmean (by decide) (by decide) (by decide +kernel)
  rw [hsum] at hfound hrounded hshown
  refine ⟨hadd, hfound, ?_, c, hc, ?_⟩
  · rw [hrounded]
    norm_num [roundedAway, signed]
  · rw [hshown]
    norm_num [roundedAway, signed]

end Grouping

end CampusQuery
