import Mathlib
import CampusQuery.Proofs.Number.Nearest

/-!
# Numbers by their values

A number is determined by its value, but for the sign of zero.

* `Binary64.eq_of_magnitude_eq` — numbers of one sign and one magnitude are the same.
* `Binary64.unsignedZero_eq_iff` — numbers are the same up to the sign of zero just when they are
  equal in value.
-/

namespace CampusQuery

namespace Binary64

theorem magnitude_eq (x : Binary64) : x.magnitude = x.significand * 2 ^ x.exponent :=
  Nat.shiftLeft_eq _ _

theorem magnitude_eq_zero_iff {x : Binary64} : x.magnitude = 0 ↔ x.significand = 0 := by
  simp [magnitude_eq]

theorem value_eq_zero_iff {x : Binary64} : x.value = 0 ↔ x.significand = 0 := by
  rw [← magnitude_eq_zero_iff, value]
  split <;> omega

theorem exponent_le_of_magnitude_eq {x y : Binary64} (h : x.magnitude = y.magnitude) :
    y.exponent ≤ x.exponent := by
  by_contra hlt
  obtain ⟨d, hd⟩ := Nat.exists_eq_add_of_lt (Nat.lt_of_not_le hlt)
  rw [magnitude_eq, magnitude_eq, hd, show x.exponent + d + 1 = d + 1 + x.exponent by omega,
    pow_add, ← mul_assoc] at h
  have hsignificand : x.significand = y.significand * 2 ^ (d + 1) :=
    Nat.eq_of_mul_eq_mul_right (Nat.two_pow_pos _) h
  have hlow : 2 ^ 52 ≤ y.significand := le_significand (by omega)
  have hhigh : x.significand < 2 ^ 53 := significand_lt x
  have hpow : 2 ≤ 2 ^ (d + 1) := Nat.le_self_pow (by omega) 2
  have hle : 2 ^ 52 * 2 ≤ y.significand * 2 ^ (d + 1) := Nat.mul_le_mul hlow hpow
  omega

theorem eq_of_magnitude_eq {x y : Binary64} (hsign : x.negative = y.negative)
    (h : x.magnitude = y.magnitude) : x = y := by
  have hexponent : x.exponent = y.exponent :=
    le_antisymm (exponent_le_of_magnitude_eq h.symm) (exponent_le_of_magnitude_eq h)
  have hsignificand : x.significand = y.significand := by
    rw [magnitude_eq, magnitude_eq, hexponent] at h
    exact Nat.eq_of_mul_eq_mul_right (Nat.two_pow_pos _) h
  cases x
  cases y
  simp_all

theorem unsignedZero_eq_iff {x y : Binary64} :
    x.unsignedZero = y.unsignedZero ↔ x.value = y.value := by
  unfold unsignedZero
  by_cases hx : x.significand = 0
  · rw [value_eq_zero_iff.mpr hx, if_pos hx, eq_comm (a := (0 : Int)), value_eq_zero_iff]
    split_ifs with hy
    · simp [hy]
    · refine iff_of_false ?_ hy
      rintro rfl
      exact hy rfl
  · by_cases hy : y.significand = 0
    · rw [value_eq_zero_iff.mpr hy, if_pos hy, if_neg hx, value_eq_zero_iff]
      refine iff_of_false ?_ hx
      rintro rfl
      exact hx rfl
    · rw [if_neg hx, if_neg hy]
      refine ⟨fun h => h ▸ rfl, fun h => ?_⟩
      have hxpos : x.magnitude ≠ 0 := mt magnitude_eq_zero_iff.mp hx
      have hypos : y.magnitude ≠ 0 := mt magnitude_eq_zero_iff.mp hy
      rw [value, value] at h
      have hsign : x.negative = y.negative := by
        cases hn : x.negative <;> cases hm : y.negative <;> simp [hn, hm] at h ⊢ <;> omega
      refine eq_of_magnitude_eq hsign ?_
      rw [hsign] at h
      split at h <;> omega

end Binary64

end CampusQuery
