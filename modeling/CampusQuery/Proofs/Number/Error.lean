import Mathlib
import CampusQuery.Proofs.Number.HalfAway
import CampusQuery.Proofs.Number.Precision

/-!
# How far sums and quotients are off

A sum or a quotient that does not fit is rounded at the most places that fit, so it is off by little
for its size. A quotient that is no less than a short decimal is not rounded below it: either the
short decimal has no more places than are kept, and lies on a step, or it is much smaller than the
quotient.

* `Decimal.RoundedAt` — a number rounded to the nearest step of some places.
* `Decimal.roundedAt_of_fit?` — what is kept of a quotient, and at how many places.
* `Decimal.abs_add?_sub_le`, `Decimal.value_of_add?` — a sum is off by no more than its `2 ^ 93`rd
  part, and by nothing where it fits.
* `Decimal.exists_add?` — a sum below a whole number in range is there.
* `Decimal.between_of_divNat?` — a quotient stays on its side of every short decimal.
-/

namespace CampusQuery

namespace Decimal

variable {a b c d t : Decimal} {negative : Bool} {tie : Tie} {num den s k m n : Nat} {q u v : ℚ}

/-! ## Rounding to the nearest step -/

/-- A number and what it is rounded to at some places. -/
structure RoundedAt (k : Nat) (u v : ℚ) : Prop where
  steps : ∃ r : ℤ, v * 10 ^ k = r
  near : 2 * |v * 10 ^ k - u * 10 ^ k| ≤ 1

namespace RoundedAt

theorem neg (h : RoundedAt k u v) : RoundedAt k (-u) (-v) := by
  obtain ⟨⟨r, hr⟩, hnear⟩ := h
  refine ⟨⟨-r, by rw [neg_mul, hr, Int.cast_neg]⟩, ?_⟩
  rwa [neg_mul, neg_mul, neg_sub_neg, abs_sub_comm]

/-- A number is not rounded below a smaller one that lies on a step, or that is short where only the
greatest sizes are rounded. -/
theorem le (h : RoundedAt k u v) (hq : q ≤ u) (hshort : (∃ i : ℤ, q * 10 ^ k = i) ∨
    |q| * 10 ^ (k + 1) ≤ 2 ^ 57 ∧ 2 ^ 96 ≤ |u| * 10 ^ (k + 1) + 1 / 2) : q ≤ v := by
  have hten := ten_pow_pos k
  obtain ⟨⟨r, hr⟩, hnear⟩ := h
  have hbelow := (abs_le.mp (show |v * 10 ^ k - u * 10 ^ k| ≤ 1 / 2 by linarith)).1
  have hscaled := mul_le_mul_of_nonneg_right hq hten.le
  refine le_of_mul_le_mul_right ?_ hten
  rcases hshort with ⟨i, hi⟩ | ⟨hsmall, hlarge⟩
  · -- two steps that are less than one apart are in order
    rw [hr] at hbelow ⊢
    rw [hi] at hscaled ⊢
    have hlt : (i : ℚ) < r + 1 := by linarith
    exact_mod_cast Int.le_of_lt_add_one (by exact_mod_cast hlt)
  · rw [pow_succ (10 : ℚ), ← mul_assoc] at hsmall hlarge
    have hpos : 0 ≤ u := by
      by_contra hneg
      have habs : |u| ≤ |q| := by
        rw [abs_of_neg (not_le.mp hneg)]
        exact (neg_le_neg hq).trans (neg_le_abs q)
      have hle := mul_le_mul_of_nonneg_right habs hten.le
      linarith
    rw [abs_of_nonneg hpos] at hlarge
    have hle := mul_le_mul_of_nonneg_right (le_abs_self q) hten.le
    linarith

theorem ge (h : RoundedAt k u v) (hq : u ≤ q) (hshort : (∃ i : ℤ, q * 10 ^ k = i) ∨
    |q| * 10 ^ (k + 1) ≤ 2 ^ 57 ∧ 2 ^ 96 ≤ |u| * 10 ^ (k + 1) + 1 / 2) : v ≤ q := by
  refine neg_le_neg_iff.mp (h.neg.le (neg_le_neg hq) (hshort.imp ?_ ?_))
  · rintro ⟨i, hi⟩
    exact ⟨-i, by rw [neg_mul, hi, Int.cast_neg]⟩
  · rw [abs_neg, abs_neg]
    exact id

end RoundedAt

theorem exists_of_fit? (hs : s ≤ 28) (h : fit? tie negative num den s = some d) :
    d.scale ≤ s ∧
      d.value = signed negative (divRound tie (num * 10 ^ d.scale) den / 10 ^ d.scale) ∧
      (d.scale < s → 2 ^ 96 ≤ divRound tie (num * 10 ^ (d.scale + 1)) den) := by
  induction s with
  | zero =>
    obtain ⟨-, -, hscale, -, hvalue⟩ := ofParts?_eq_some h
    refine ⟨hscale.le, ?_, fun hlt => absurd hlt (Nat.not_lt_zero _)⟩
    rw [hvalue, hscale, Nat.pow_zero, Nat.mul_one]
  | succ s ih =>
    rw [fit?, Nat.pow_eq] at h
    rcases Option.or_eq_some_iff.mp h with h | ⟨hnone, h⟩
    · obtain ⟨-, -, hscale, -, hvalue⟩ := ofParts?_eq_some h
      exact ⟨hscale.le, by rw [hvalue, hscale], fun hlt => absurd hlt (by omega)⟩
    · obtain ⟨hscale, hvalue, hmost⟩ := ih (by omega) h
      refine ⟨by omega, hvalue, fun hlt => ?_⟩
      rcases Nat.lt_or_eq_of_le hscale with hlt' | heq
      · exact hmost hlt'
      · by_contra hfits
        obtain ⟨d', hd', -⟩ := exists_ofParts? negative (not_le.mp hfits) (heq ▸ hs)
        rw [heq, hnone] at hd'
        cases hd'

/-- What is kept of a quotient is the quotient rounded to the nearest step, and at one place more it
does not fit. -/
theorem roundedAt_of_fit? (hden : 0 < den) (hs : s ≤ 28)
    (h : fit? tie negative num den s = some d) :
    d.scale ≤ s ∧ RoundedAt d.scale (signed negative (num / den)) d.value ∧
      (d.scale < s → 2 ^ 96 ≤ (num / den : ℚ) * 10 ^ (d.scale + 1) + 1 / 2) := by
  obtain ⟨hscale, hvalue, hmost⟩ := exists_of_fit? hs h
  have hnear (m : Nat) :
      2 * |(divRound tie (num * 10 ^ m) den : ℚ) - num / den * 10 ^ m| ≤ 1 := by
    have hround := two_mul_abs_divRound_sub_le tie (num * 10 ^ m) hden
    push_cast at hround
    rwa [mul_div_right_comm] at hround
  have hkept : d.value * 10 ^ d.scale =
      signed negative (divRound tie (num * 10 ^ d.scale) den) := by
    rw [hvalue, ← signed_mul, div_mul_cancel₀ _ (ten_pow_pos _).ne']
  refine ⟨hscale, ⟨?_, ?_⟩, fun hlt => ?_⟩
  · rw [hkept]
    cases negative
    · exact ⟨divRound tie (num * 10 ^ d.scale) den, (Int.cast_natCast _).symm⟩
    · exact ⟨-divRound tie (num * 10 ^ d.scale) den, by simp [signed]⟩
  · rw [hkept, ← signed_mul, abs_signed_sub_signed]
    exact hnear d.scale
  · have hbig : (2 ^ 96 : ℚ) ≤ divRound tie (num * 10 ^ (d.scale + 1)) den := by
      exact_mod_cast hmost hlt
    have hstep := hnear (d.scale + 1)
    have habove := le_abs_self
      ((divRound tie (num * 10 ^ (d.scale + 1)) den : ℚ) - num / den * 10 ^ (d.scale + 1))
    linarith

/-! ## Sums -/

theorem value_add_value (ha : a.scale ≤ m) (hb : b.scale ≤ m) :
    a.value + b.value =
      signed (sumAt m a b < 0) ((sumAt m a b).natAbs / (10 ^ m : Nat)) := by
  rw [signed_div, signed_natAbs, sumAt_eq ha hb, Nat.cast_pow, Nat.cast_ofNat,
    mul_div_cancel_right₀ _ (ten_pow_pos m).ne']

/-- A sum with zero is the other number, else it is kept at the places of the two. -/
theorem add?_cases (h : add? a b = some c) :
    c.value = a.value + b.value ∧ (c = a ∨ c = b) ∨
      let m := max a.scale b.scale
      fit? .toEven (sumAt m a b < 0) (sumAt m a b).natAbs (10 ^ m) m = some c := by
  by_cases ha : a.coefficient = 0
  · rw [add?, if_pos ha] at h
    obtain rfl := Option.some.inj h
    exact .inl ⟨by rw [value_of_coefficient_eq_zero ha, zero_add], .inr rfl⟩
  by_cases hb : b.coefficient = 0
  · rw [add?, if_neg ha, if_pos hb] at h
    obtain rfl := Option.some.inj h
    exact .inl ⟨by rw [value_of_coefficient_eq_zero hb, add_zero], .inl rfl⟩
  · exact .inr ((add?_eq ha hb).symm.trans h)

/-- A sum that is not out of range is off by no more than its `2 ^ 93`rd part. -/
theorem abs_add?_sub_le (h : add? a b = some c) :
    2 ^ 93 * |c.value - (a.value + b.value)| ≤ |a.value + b.value| := by
  rcases add?_cases h with ⟨hexact, -⟩ | hfit
  · rw [hexact, sub_self, abs_zero, mul_zero]
    exact abs_nonneg _
  · have hm : max a.scale b.scale ≤ 28 := max_le a.scale_le b.scale_le
    have hsum := value_add_value (le_max_left a.scale b.scale) (le_max_right a.scale b.scale)
    dsimp only at hfit
    generalize max a.scale b.scale = m at *
    obtain ⟨hscale, hrounded, hmost⟩ := roundedAt_of_fit? (nat_ten_pow_pos m) hm hfit
    rcases Nat.lt_or_eq_of_le hscale with hlt | heq
    · have hten := ten_pow_pos c.scale
      have hnear := hrounded.near
      have hlarge := hmost hlt
      rw [← sub_mul, abs_mul, abs_of_pos hten, ← hsum] at hnear
      have habs : |a.value + b.value| = (sumAt m a b).natAbs / (10 ^ m : Nat) := by
        rw [hsum, abs_signed (by positivity)]
      rw [← habs, pow_succ (10 : ℚ), ← mul_assoc] at hlarge
      refine le_of_mul_le_mul_right ?_ hten
      linarith
    · -- at the places of both the sum is a whole number of steps
      have hexact := (exists_of_fit? hm hfit).2.1
      rw [heq, divRound_mul_right _ _ (nat_ten_pow_pos m)] at hexact
      have hvalue : c.value = a.value + b.value := by
        rw [hexact, hsum, Nat.cast_pow, Nat.cast_ofNat]
      rw [hvalue, sub_self, abs_zero, mul_zero]
      exact abs_nonneg _

/-- A sum of whole decimals, or one that fits at the places given, is exact. -/
theorem value_of_add? (h : add? a b = some c) (ha : a.scale ≤ m) (hb : b.scale ≤ m)
    (hroom : m = 0 ∨ m ≤ 28 ∧ |a.value + b.value| * 10 ^ m < 2 ^ 96) :
    c.value = a.value + b.value ∧ c.scale ≤ m := by
  rcases hroom with rfl | ⟨hm, hfits⟩
  · rcases add?_cases h with ⟨hexact, rfl | rfl⟩ | hfit
    · exact ⟨hexact, ha⟩
    · exact ⟨hexact, hb⟩
    · have hmax : max a.scale b.scale = 0 := Nat.le_zero.mp (max_le ha hb)
      rw [hmax] at hfit
      obtain ⟨hscale, hexact, -⟩ := exists_of_fit? (by decide) hfit
      refine ⟨?_, hscale⟩
      rw [Nat.le_zero.mp hscale, divRound_mul_right _ _ (nat_ten_pow_pos 0)] at hexact
      rw [hexact, value_add_value ha hb, Nat.cast_pow, Nat.cast_ofNat]
  · have hadd : a.add b = c := by rw [add, h, Option.getD_some]
    rw [← hadd]
    exact value_add hm ha hb hfits

/-- A sum that is no more than a whole number in range is there, and is not rounded beyond it. -/
theorem exists_add? (h : |a.value + b.value| ≤ n) (hn : n < 2 ^ 96) :
    ∃ c, add? a b = some c ∧ |c.value| ≤ n := by
  by_cases ha : a.coefficient = 0
  · rw [value_of_coefficient_eq_zero ha, zero_add] at h
    exact ⟨b, if_pos ha, h⟩
  by_cases hb : b.coefficient = 0
  · rw [value_of_coefficient_eq_zero hb, add_zero] at h
    exact ⟨a, (if_neg ha).trans (if_pos hb), h⟩
  · have hadd := add?_eq ha hb
    have hm : max a.scale b.scale ≤ 28 := max_le a.scale_le b.scale_le
    rw [value_add_value (le_max_left a.scale b.scale) (le_max_right a.scale b.scale),
      abs_signed (by positivity)] at h
    dsimp only at hadd
    generalize max a.scale b.scale = m at *
    have hden := nat_ten_pow_pos m
    have hsize : (sumAt m a b).natAbs ≤ n * 10 ^ m := by
      rw [div_le_iff₀ (by exact_mod_cast hden)] at h
      exact_mod_cast h
    have hwhole : divRound .toEven (sumAt m a b).natAbs (10 ^ m) ≤ n := divRound_le_of_le hden hsize
    obtain ⟨c, hc, -, hvalue, -⟩ :=
      exists_fit? (sumAt m a b < 0) (lt_of_le_of_lt hwhole hn) hm
    refine ⟨c, hadd.trans hc, ?_⟩
    rw [hvalue, abs_signed (by positivity), div_le_iff₀ (ten_pow_pos _)]
    have hrounded : divRound .toEven ((sumAt m a b).natAbs * 10 ^ c.scale) (10 ^ m) ≤
        n * 10 ^ c.scale := by
      refine divRound_le_of_le hden ?_
      rw [Nat.mul_right_comm]
      exact Nat.mul_le_mul_right _ hsize
    exact_mod_cast hrounded

/-! ## Quotients -/

/-- A short decimal lies on a step of some places, or it has more places and is small. -/
theorem IsShort.cases (ha : a.IsShort) (k : Nat) :
    (∃ i : ℤ, a.value * 10 ^ k = i) ∨ k < 28 ∧ |a.value| * 10 ^ (k + 1) ≤ 2 ^ 57 := by
  rcases Nat.lt_or_ge k a.scale with hlt | hle
  · have hplaces := a.scale_le
    have hsize : (a.size : ℚ) ≤ 2 ^ 57 := by
      exact_mod_cast ha.resolve_left (by omega)
    refine .inr ⟨by omega, ?_⟩
    rw [abs_value, div_mul_eq_mul_div, div_le_iff₀ (ten_pow_pos _)]
    exact mul_le_mul hsize (pow_le_pow_right₀ (by norm_num) hlt) (by positivity) (by positivity)
  · refine .inl ⟨a.coefficient * 10 ^ (k - a.scale), ?_⟩
    rw [← coefficient_mul_eq hle]
    push_cast
    rfl

/-- A quotient stays on its side of every short decimal. -/
theorem between_of_divNat? (hn : 0 < n) (h : t.divNat? n = some c) (ha : a.IsShort) :
    (a.value ≤ t.value / n → a.value ≤ c.value) ∧ (t.value / n ≤ a.value → c.value ≤ a.value) := by
  obtain ⟨c', d, hc', hfit, hvalue⟩ := exists_divNat? t hn
  obtain rfl := Option.some.inj (h.symm.trans hc')
  obtain ⟨-, hrounded, hmost⟩ :=
    roundedAt_of_fit? (Nat.mul_pos (nat_ten_pow_pos t.scale) hn) (le_refl 28) hfit
  have hshort : (∃ i : ℤ, a.value * 10 ^ d.scale = i) ∨ |a.value| * 10 ^ (d.scale + 1) ≤ 2 ^ 57 ∧
      2 ^ 96 ≤ |t.value / n| * 10 ^ (d.scale + 1) + 1 / 2 := by
    refine (ha.cases d.scale).imp_right fun ⟨hlt, hsmall⟩ => ⟨hsmall, ?_⟩
    rw [value_div, abs_signed (by positivity)]
    exact hmost hlt
  rw [hvalue]
  rw [← value_div] at hrounded
  exact ⟨fun hle => hrounded.le hle hshort, fun hle => hrounded.ge hle hshort⟩

end Decimal

end CampusQuery
