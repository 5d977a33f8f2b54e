import Mathlib
import CampusQuery.Proofs.Number.Decimal

/-!
# Rounding a half away from zero

Sums and means are rounded to a few places, a half going away from zero. A mean has been rounded
before, at the many places of a decimal. It is still the exact mean rounded once: an exact quotient
that is not a half at the last place is so far from one that the first rounding does not reach it,
and one that is a half has few places and is not rounded at all.

* `roundedAway` — a number rounded to some places, a half away from zero.
* `roundedAway_mono` — rounding to some places keeps the order.
* `divRound_up_divRound` — of a quotient rounded twice, the first time finely, the first rounding
  does not show.
* `Decimal.value_roundTo` — a decimal is rounded a half away from zero.
* `Decimal.exists_divNat?_roundTo` — a quotient of a decimal is there, and rounded as the exact one.
-/

namespace CampusQuery

/-- A number at some decimal places, a half going away from zero. -/
def roundedAway (places : Nat) (q : ℚ) : ℚ :=
  signed (q < 0) (round (|q| * 10 ^ places) / 10 ^ places)

/-! ## Rounded quotients -/

section Quotients

variable {tie : Tie} {num den n places t : Nat}

theorem lt_two_mul_divRound_up (num : Nat) (hden : 0 < den) :
    2 * num < 2 * (divRound .up num den * den) + den := by
  have hdiv : num / den * den + num % den = num := Nat.div_add_mod' num den
  have hmod : num % den < den := Nat.mod_lt num hden
  unfold divRound
  generalize num / den = w at *
  generalize num % den = r at *
  cases hcompare : compare (2 * r) den with
  | lt =>
    have := Nat.compare_eq_lt.mp hcompare
    dsimp only
    omega
  | eq =>
    dsimp only
    rw [Nat.add_mul]
    omega
  | gt =>
    dsimp only
    rw [Nat.add_mul]
    omega

/-- The integer that is no less than a half below a quotient and less than a half above it. -/
theorem divRound_up_eq (hlow : 2 * (n * den) ≤ 2 * num + den)
    (hhigh : 2 * num < 2 * (n * den) + den) : divRound .up num den = n := by
  have hden : 0 < den := by omega
  have hle := two_mul_divRound_le .up num den
  have hlt := lt_two_mul_divRound_up num hden
  have hup : divRound .up num den * den < n * den + den := by omega
  have hdown : n * den < divRound .up num den * den + den := by omega
  exact eq_of_mul_lt_mul_add hup hdown

theorem round_div (num : Nat) (hden : 0 < den) :
    round ((num : ℚ) / den) = (divRound .up num den : Nat) := by
  have hden' : (0 : ℚ) < den := by exact_mod_cast hden
  have hlow : 2 * ((divRound .up num den : ℚ) * den) ≤ 2 * num + den := by
    exact_mod_cast two_mul_divRound_le .up num den
  have hhigh : 2 * (num : ℚ) < 2 * (divRound .up num den * den) + den := by
    exact_mod_cast lt_two_mul_divRound_up num hden
  rw [round_eq, Int.floor_eq_iff, Int.cast_natCast]
  constructor
  · rw [← sub_le_iff_le_add, le_div_iff₀ hden']
    linarith
  · rw [← lt_sub_iff_add_lt, div_lt_iff₀ hden']
    linarith

/-- A rounded quotient is within a half of the quotient. -/
theorem two_mul_abs_divRound_sub_le (tie : Tie) (num : Nat) {den : Nat} (hden : 0 < den) :
    2 * |(divRound tie num den : ℚ) - num / den| ≤ 1 := by
  have hden' : (0 : ℚ) < den := by exact_mod_cast hden
  have hlow : 2 * ((divRound tie num den : ℚ) * den) ≤ 2 * num + den := by
    exact_mod_cast two_mul_divRound_le tie num den
  have hhigh : 2 * (num : ℚ) ≤ 2 * (divRound tie num den * den) + den := by
    exact_mod_cast le_two_mul_divRound tie num hden
  have hquotient : (num : ℚ) / den * den = num := div_mul_cancel₀ _ hden'.ne'
  rw [← mul_le_mul_iff_left₀ hden', mul_assoc, ← abs_of_pos hden', ← abs_mul, abs_of_pos hden',
    sub_mul, hquotient]
  have habs : |(divRound tie num den : ℚ) * den - num| ≤ den / 2 :=
    abs_le.mpr ⟨by linarith, by linarith⟩
  linarith

/-! ### A quotient that has been rounded at many places -/

/-- Below the half above an integer it is still below it, -/
theorem two_mul_divRound_lt (hfine : den * 10 ^ places < 10 ^ t)
    (h : 2 * (num * 10 ^ places) < 2 * (n * den) + den) :
    2 * (divRound tie (num * 10 ^ t) den * 10 ^ places) < 2 * (n * 10 ^ t) + 10 ^ t := by
  have hbelow := two_mul_divRound_le tie (num * 10 ^ t) den
  generalize divRound tie (num * 10 ^ t) den = c at *
  apply Nat.lt_of_mul_lt_mul_right (a := den)
  calc 2 * (c * 10 ^ places) * den
    _ = 2 * (c * den) * 10 ^ places := by ring
    _ ≤ (2 * (num * 10 ^ t) + den) * 10 ^ places := Nat.mul_le_mul_right _ hbelow
    _ = 2 * (num * 10 ^ places) * 10 ^ t + den * 10 ^ places := by ring
    _ < 2 * (num * 10 ^ places) * 10 ^ t + 10 ^ t := Nat.add_lt_add_left hfine _
    _ = (2 * (num * 10 ^ places) + 1) * 10 ^ t := by ring
    _ ≤ (2 * (n * den) + den) * 10 ^ t := Nat.mul_le_mul_right _ h
    _ = (2 * (n * 10 ^ t) + 10 ^ t) * den := by ring

/-- above the half below an integer it is not below it, -/
theorem le_two_mul_divRound_of_lt (hden : 0 < den) (hfine : den * 10 ^ places < 10 ^ t)
    (h : 2 * (n * den) < 2 * (num * 10 ^ places) + den) :
    2 * (n * 10 ^ t) ≤ 2 * (divRound tie (num * 10 ^ t) den * 10 ^ places) + 10 ^ t := by
  have habove := le_two_mul_divRound tie (num * 10 ^ t) hden
  generalize divRound tie (num * 10 ^ t) den = c at *
  apply Nat.le_of_mul_le_mul_right (c := den) _ hden
  have hsteps :=
    calc 2 * (n * 10 ^ t) * den + 10 ^ t
      _ = (2 * (n * den) + 1) * 10 ^ t := by ring
      _ ≤ (2 * (num * 10 ^ places) + den) * 10 ^ t := Nat.mul_le_mul_right _ h
      _ = 2 * (num * 10 ^ t) * 10 ^ places + den * 10 ^ t := by ring
      _ ≤ (2 * (c * den) + den) * 10 ^ places + den * 10 ^ t :=
        Nat.add_le_add_right (Nat.mul_le_mul_right _ habove) _
      _ = (2 * (c * 10 ^ places) + 10 ^ t) * den + den * 10 ^ places := by ring
  omega

/-- and at the half below an integer it is exact, as a half has one place more. -/
theorem two_mul_divRound_of_half (hden : 0 < den) (hplaces : places < t)
    (h : 2 * (n * den) = 2 * (num * 10 ^ places) + den) :
    2 * (n * 10 ^ t) = 2 * (divRound tie (num * 10 ^ t) den * 10 ^ places) + 10 ^ t := by
  obtain ⟨v, rfl⟩ : ∃ v, n = v + 1 := by
    refine Nat.exists_eq_succ_of_ne_zero fun hzero => ?_
    rw [hzero] at h
    omega
  obtain ⟨k, rfl⟩ := Nat.exists_eq_add_of_lt hplaces
  have hodd : 2 * (num * 10 ^ places) = (2 * v + 1) * den := by
    have hstep : 2 * ((v + 1) * den) = (2 * v + 1) * den + den := by ring
    omega
  have hexact : num * 10 ^ (places + k + 1) = (2 * v + 1) * (5 * 10 ^ k) * den := by
    calc num * 10 ^ (places + k + 1)
      _ = 2 * (num * 10 ^ places) * (5 * 10 ^ k) := by ring
      _ = (2 * v + 1) * (5 * 10 ^ k) * den := by rw [hodd]; ring
  rw [hexact, divRound_mul_right tie _ hden]
  ring

/-- So rounding it again, at few places, gives what rounding once would have given. -/
theorem divRound_up_divRound (hden : 0 < den) (hplaces : places < t)
    (hfine : den * 10 ^ places < 10 ^ t) :
    divRound .up (divRound tie (num * 10 ^ t) den * 10 ^ places) (10 ^ t) =
      divRound .up (num * 10 ^ places) den := by
  refine divRound_up_eq ?_ (two_mul_divRound_lt hfine (lt_two_mul_divRound_up _ hden))
  rcases Nat.lt_or_eq_of_le (two_mul_divRound_le .up (num * 10 ^ places) den) with hlt | hhalf
  · exact le_two_mul_divRound_of_lt hden hfine hlt
  · exact (two_mul_divRound_of_half hden hplaces hhalf).le

end Quotients

/-! ## Numbers of either sign -/

theorem roundedAway_signed (places : Nat) (negative : Bool) {q : ℚ} (hq : 0 ≤ q) :
    roundedAway places (signed negative q) =
      signed negative (round (q * 10 ^ places) / 10 ^ places) := by
  rw [roundedAway, abs_signed hq]
  rcases hq.eq_or_lt with rfl | hpos
  · cases negative <;> simp [signed]
  · congr 1
    cases negative
    · simpa [signed] using hq
    · simpa [signed] using hpos

theorem roundedAway_signed_div (places : Nat) (negative : Bool) (num : Nat) {den : Nat}
    (hden : 0 < den) :
    roundedAway places (signed negative (num / den)) =
      signed negative (divRound .up (num * 10 ^ places) den / 10 ^ places) := by
  have hquotient : (num : ℚ) / den * 10 ^ places = ((num * 10 ^ places : Nat) : ℚ) / den := by
    push_cast
    ring
  rw [roundedAway_signed places negative (by positivity), hquotient, round_div _ hden,
    Int.cast_natCast]

theorem round_le_of_nonneg (places : Nat) {q r : ℚ} (hq : 0 ≤ q) (h : q ≤ r) :
    0 ≤ (round (q * 10 ^ places) / 10 ^ places : ℚ) ∧
      (round (q * 10 ^ places) / 10 ^ places : ℚ) ≤ round (r * 10 ^ places) / 10 ^ places := by
  have hten := Decimal.ten_pow_pos places
  have hscaled := mul_le_mul_of_nonneg_right h hten.le
  have hnonneg : 0 ≤ round (q * 10 ^ places) := by
    rw [round_eq, Int.floor_nonneg]
    positivity
  have hle : round (q * 10 ^ places) ≤ round (r * 10 ^ places) := by
    rw [round_eq, round_eq]
    exact Int.floor_le_floor (by linarith)
  refine ⟨div_nonneg (by exact_mod_cast hnonneg) hten.le, ?_⟩
  exact div_le_div_of_nonneg_right (by exact_mod_cast hle) hten.le

/-- Rounding to some places keeps the order. -/
theorem roundedAway_mono (places : Nat) {q r : ℚ} (h : q ≤ r) :
    roundedAway places q ≤ roundedAway places r := by
  have hpos {q : ℚ} (hq : 0 ≤ q) : roundedAway places q = round (q * 10 ^ places) / 10 ^ places :=
    roundedAway_signed places false hq
  have hneg {q : ℚ} (hq : q ≤ 0) :
      roundedAway places q = -(round (-q * 10 ^ places) / 10 ^ places) := by
    have hsigned := roundedAway_signed places true (neg_nonneg.mpr hq)
    rwa [signed, if_pos rfl, neg_neg] at hsigned
  rcases le_total 0 q with hq | hq
  · rw [hpos hq, hpos (hq.trans h)]
    exact (round_le_of_nonneg places hq h).2
  rcases le_total 0 r with hr | hr
  · rw [hneg hq, hpos hr]
    have hbelow := (round_le_of_nonneg places (neg_nonneg.mpr hq) le_rfl).1
    have habove := (round_le_of_nonneg places hr le_rfl).1
    linarith
  · rw [hneg hq, hneg hr]
    exact neg_le_neg (round_le_of_nonneg places (neg_nonneg.mpr hr) (neg_le_neg h)).2

/-! ## Decimals -/

namespace Decimal

variable {a : Decimal} {places m n t : Nat}

/-- A decimal is rounded a half away from zero. -/
theorem value_roundTo (a : Decimal) (hplaces : places ≤ 28) :
    (a.roundTo places).value = roundedAway places a.value := by
  have hround := roundedAway_signed_div places a.isNegative a.size (nat_ten_pow_pos a.scale)
  rw [(roundTo_spec a hplaces).2, ← hround, value_eq_signed, Nat.cast_pow, Nat.cast_ofNat]

/-- A quotient that has many places to spare is rounded to few as the exact one is. -/
theorem exists_divNat?_roundTo (hn : 0 < n) (hplaces : places < t) (ht : t ≤ 28)
    (hle : |a.value| ≤ (m * n : Nat)) (hm : m * 10 ^ t < 2 ^ 96)
    (hfine : 10 ^ a.scale * n * 10 ^ places < 10 ^ t) :
    ∃ c, a.divNat? n = some c ∧ (c.roundTo places).value = roundedAway places (a.value / n) := by
  have hden : 0 < 10 ^ a.scale * n := Nat.mul_pos (nat_ten_pow_pos _) hn
  obtain ⟨c, d, hc, hfit, hcd⟩ := exists_divNat? a hn
  obtain ⟨d', hfit', -, hvalue, hmost⟩ :=
    exists_fit? a.isNegative (divRound_size_lt .toEven a hden) (le_refl 28)
  obtain rfl := Option.some.inj (hfit.symm.trans hfit')
  -- the quotient fits at `t` places, so it is kept at no fewer
  have hscale : t ≤ d.scale := by
    by_contra hlt
    have hbig := hmost t (by omega) ht
    have hrounded : divRound .toEven (a.size * 10 ^ t) (10 ^ a.scale * n) ≤ m * 10 ^ t := by
      refine divRound_le_of_le hden ?_
      rw [Nat.mul_right_comm]
      exact Nat.mul_le_mul_right _ (size_le_of_abs_value_le hle)
    omega
  have hfine' : 10 ^ a.scale * n * 10 ^ places < 10 ^ d.scale :=
    lt_of_lt_of_le hfine (Nat.pow_le_pow_right (by decide) hscale)
  have hkept : d.value = signed a.isNegative
      ((divRound .toEven (a.size * 10 ^ d.scale) (10 ^ a.scale * n) : Nat) /
        (10 ^ d.scale : Nat)) := by
    rw [hvalue]
    push_cast
    rfl
  refine ⟨c, hc, ?_⟩
  rw [value_roundTo c (by omega), hcd, hkept, value_div,
    roundedAway_signed_div _ _ _ (nat_ten_pow_pos _), roundedAway_signed_div _ _ _ hden,
    divRound_up_divRound hden (by omega) hfine']

end Decimal

end CampusQuery
