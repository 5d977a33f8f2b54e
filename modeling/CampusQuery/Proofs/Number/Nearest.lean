import Mathlib
import CampusQuery.Number.Shortest

/-!
# The numbers that are read as a binary floating-point number

The reals in the interval of a number other than zero are rounded to it, and its shortest decimal is
one of them.

* `divRound_toEven_eq` — the quotients that are rounded to an integer, ties to even.
* `Binary64.ofUnits_of_isNear` — every quotient in the interval of a number is rounded to it.
* `Binary64.ofDecimal_of_isCovered` — so is every decimal in the interval.
* `Binary64.ofDecimal_shortest` — the shortest decimal of a number is read as it, whichever of two
  equally near digits is taken, and keeps the sign of zero.
-/

namespace CampusQuery

theorem divRound_toEven_eq {num den n : Nat} (hlow : 2 * (n * den) ≤ 2 * num + den)
    (hhigh : 2 * num ≤ 2 * (n * den) + den) (hden : 0 < den)
    (htie : 2 * (n * den) = 2 * num + den ∨ 2 * num = 2 * (n * den) + den → n % 2 = 0) :
    divRound .toEven num den = n := by
  have hdiv : den * (num / den) + num % den = num := Nat.div_add_mod num den
  have hmod : num % den < den := Nat.mod_lt num hden
  unfold divRound
  generalize num / den = w at *
  generalize num % den = r at *
  -- the integer is the quotient rounded down or the next one
  have hw : n = w ∨ n = w + 1 := by
    have hle : n < w + 2 := by
      apply Nat.lt_of_mul_lt_mul_right (a := den)
      calc n * den ≤ num + den := by omega
        _ < (w + 2) * den := by linarith [Nat.mul_comm den w]
    have hge : w < n + 1 := by
      apply Nat.lt_of_mul_lt_mul_right (a := den)
      calc w * den ≤ num := by linarith [Nat.mul_comm den w]
        _ < (n + 1) * den := by linarith
    omega
  rw [Nat.mul_comm den w] at hdiv
  rcases hw with rfl | rfl
  · have hle : 2 * r ≤ den := by omega
    rcases Nat.lt_or_eq_of_le hle with hlt | heq
    · simp [Nat.compare_eq_lt.mpr hlt]
    · have heven := htie (Or.inr (by omega))
      simp [Nat.compare_eq_eq.mpr heq, heven]
  · rw [Nat.add_mul, Nat.one_mul] at hlow hhigh htie
    have hge : den ≤ 2 * r := by omega
    rcases Nat.lt_or_eq_of_le hge with hlt | heq
    · simp [Nat.compare_eq_gt.mpr hlt]
    · have heven := htie (Or.inl (by omega))
      have hodd : w % 2 = 1 := by omega
      simp [Nat.compare_eq_eq.mpr heq.symm, hodd]

namespace Binary64

/-- Whether `num / den` units lie in the interval of a number. -/
def IsNear (x : Binary64) (num den : Nat) : Prop :=
  x.interval.holds (4 * num) den = true

variable {x : Binary64} {num den : Nat}

theorem unitsPerOne_eq : unitsPerOne = 2 ^ 1074 := by
  generalize h : 1074 = n
  rw [← Nat.one_shiftLeft, ← h]
  rfl

theorem unitsPerOne_pos : 0 < unitsPerOne :=
  Nat.lt_of_lt_of_eq (Nat.two_pow_pos _) unitsPerOne_eq.symm

theorem significand_lt (x : Binary64) : x.significand < 2 ^ 53 :=
  x.canonical.1

theorem exponent_le (x : Binary64) : x.exponent ≤ 2045 :=
  x.canonical.2.1

theorem le_significand (hx : x.exponent ≠ 0) : 2 ^ 52 ≤ x.significand :=
  x.canonical.2.2.resolve_left hx

/-- A number of at least half a unit below `s` units and at most half a unit above, each half itself
only if `s` is even; where the gap below is narrow, at least a quarter of a unit below. -/
structure IsWithin (s unit num : Nat) (narrow : Prop) : Prop where
  low : 2 * (s * unit) ≤ 2 * num + unit
  high : 2 * num ≤ 2 * (s * unit) + unit
  tie : 2 * (s * unit) = 2 * num + unit ∨ 2 * num = 2 * (s * unit) + unit → s % 2 = 0
  lowest : narrow → 4 * (s * unit) ≤ 4 * num + unit

theorem below_le (hx : x.significand ≠ 0) :
    2 * 2 ^ x.exponent ≤ 4 * x.magnitude := by
  rw [magnitude, Nat.shiftLeft_eq]
  have := Nat.mul_le_mul_right (2 ^ x.exponent) (Nat.one_le_iff_ne_zero.mpr hx)
  omega

theorem isWithin_of_isNear (hx : x.significand ≠ 0) (h : x.IsNear num den) :
    IsWithin x.significand (2 ^ x.exponent * den) num
      (x.significand = 2 ^ 52 ∧ x.exponent ≠ 0) := by
  have hbelow := below_le hx
  have hcases : x.interval.low * den ≤ 4 * num ∧ 4 * num ≤ x.interval.high * den ∧
      (x.interval.low * den = 4 * num ∨ 4 * num = x.interval.high * den →
        x.significand % 2 = 0) := by
    unfold IsNear Interval.holds at h
    split at h
    · rename_i hclosed
      simp only [Bool.and_eq_true, decide_eq_true_eq] at h
      exact ⟨h.1, h.2, fun _ => by simpa [interval] using hclosed⟩
    · simp only [Bool.and_eq_true, decide_eq_true_eq] at h
      exact ⟨h.1.le, h.2.le, fun he => by omega⟩
  obtain ⟨hlow, hhigh, htie⟩ := hcases
  simp only [interval, magnitude, Nat.shiftLeft_eq] at hlow hhigh htie hbelow
  generalize x.significand = s at *
  generalize 2 ^ x.exponent = p at *
  have hsum : (4 * (s * p) + 2 * p) * den = 4 * (s * (p * den)) + 2 * (p * den) := by ring
  have hhalf : (4 * (s * p) - 2 * p) * den + 2 * (p * den) = 4 * (s * (p * den)) := by
    rw [← Nat.mul_assoc 2 p, ← Nat.add_mul, Nat.sub_add_cancel hbelow]
    ring
  have hquarter : (4 * (s * p) - p) * den + p * den = 4 * (s * (p * den)) := by
    rw [← Nat.add_mul, Nat.sub_add_cancel (by omega)]
    ring
  rw [hsum] at hhigh htie
  generalize p * den = unit at *
  split at hlow
  · rename_i hs
    rw [if_pos hs, Nat.one_mul] at htie
    rw [Nat.one_mul] at hlow
    exact ⟨by omega, by omega, fun _ => by rw [hs.1], fun _ => by omega⟩
  · rename_i hs
    rw [if_neg hs] at htie
    exact ⟨by omega, by omega, fun he => htie (by omega), fun hnarrow => absurd hnarrow hs⟩

/-- The exponent at which a quotient between two powers of two is rounded. -/
theorem log2_div_eq {k : Nat} (hden : 0 < den) (hlow : 2 ^ k * den ≤ num)
    (hhigh : num < 2 ^ (k + 1) * den) : (num / den).log2 = k := by
  have hle : 2 ^ k ≤ num / den := (Nat.le_div_iff_mul_le hden).mpr hlow
  have hlt : num / den < 2 ^ (k + 1) := (Nat.div_lt_iff_lt_mul hden).mpr hhigh
  have hne : num / den ≠ 0 := by
    have := Nat.two_pow_pos k
    omega
  exact (Nat.log2_eq_iff hne).mpr ⟨hle, hlt⟩

theorem ofUnits_eq (hexponent : (num / den).log2 + 1 - 53 = x.exponent)
    (hrounded : divRound .toEven num (2 ^ x.exponent * den) = x.significand) :
    ofUnits x.negative num den = some x := by
  have hunit : den <<< x.exponent = 2 ^ x.exponent * den := by
    rw [Nat.shiftLeft_eq, Nat.mul_comm]
  have hne : x.significand ≠ Nat.pow 2 53 := Nat.ne_of_lt x.significand_lt
  unfold ofUnits
  simp only [hexponent, hunit, hrounded, if_neg hne]
  exact dif_pos x.canonical

/-- A quotient just below a power of two is carried up to it. -/
theorem ofUnits_eq_of_carry {k : Nat} (hexponent : (num / den).log2 + 1 - 53 = k)
    (hrounded : divRound .toEven num (2 ^ k * den) = 2 ^ 53) (hk : x.exponent = k + 1)
    (hs : x.significand = 2 ^ 52) : ofUnits x.negative num den = some x := by
  have hunit : den <<< k = 2 ^ k * den := by rw [Nat.shiftLeft_eq, Nat.mul_comm]
  obtain ⟨negative, significand, exponent, canonical⟩ := x
  subst hk hs
  unfold ofUnits
  simp only [hexponent, hunit, hrounded, Nat.pow_eq, if_true]
  exact dif_pos canonical

/-- Every quotient of units in the interval of a number other than zero is rounded to it. -/
theorem ofUnits_of_isNear (hx : x.significand ≠ 0) (hden : 0 < den) (h : x.IsNear num den) :
    ofUnits x.negative num den = some x := by
  obtain ⟨hlow, hhigh, htie, hlowest⟩ := isWithin_of_isNear hx h
  have hlt := x.significand_lt
  have hpos : 0 < 2 ^ x.exponent * den := Nat.mul_pos (Nat.two_pow_pos _) hden
  have hrounded := divRound_toEven_eq hlow hhigh hpos htie
  cases hexponent : x.exponent with
  | zero =>
    refine ofUnits_eq ?_ hrounded
    have hquotient : num / den < 2 ^ 53 := by
      rw [Nat.div_lt_iff_lt_mul hden]
      rw [hexponent] at hhigh
      nlinarith
    have hlog : (num / den).log2 ≤ 52 := by
      by_cases hzero : num / den = 0
      · simp [hzero]
      · exact Nat.le_of_lt_succ ((Nat.log2_lt hzero).mpr hquotient)
    omega
  | succ k =>
    have hnormal := le_significand (x := x) (by omega)
    have hk : 2 ^ x.exponent * den = 2 * (2 ^ k * den) := by
      rw [hexponent, Nat.pow_succ]
      ring
    have hpower : ∀ n, 2 ^ (n + x.exponent) * den = 2 ^ n * (2 ^ x.exponent * den) := fun n => by
      rw [Nat.pow_add, Nat.mul_assoc]
    generalize hunit : 2 ^ x.exponent * den = unit at *
    have hupper : num < 2 ^ 53 * unit := by nlinarith
    by_cases hlower : 2 ^ 52 * unit ≤ num
    · refine ofUnits_eq ?_ (hunit ▸ hrounded)
      rw [log2_div_eq (k := 52 + x.exponent) hden (by rwa [hpower]) (by
        rw [show 52 + x.exponent + 1 = 53 + x.exponent by omega, hpower]
        exact hupper)]
      omega
    · -- only the lowest significand has quotients of the smaller exponent in its interval
      have hs : x.significand = 2 ^ 52 := by
        by_contra hne
        have : 2 ^ 52 + 1 ≤ x.significand := by omega
        nlinarith
      have hquarter := hlowest ⟨hs, by omega⟩
      rw [hs] at hquarter
      refine ofUnits_eq_of_carry (k := k) ?_ ?_ hexponent hs
      · rw [log2_div_eq (k := 52 + k) hden]
        · omega
        · rw [Nat.pow_add, Nat.mul_assoc]
          omega
        · rw [show 52 + k + 1 = 52 + x.exponent by omega, hpower]
          omega
      · exact divRound_toEven_eq (by omega) (by omega) (by omega) (fun _ => rfl)

/-! ## Decimals -/

/-- Whether the decimal `digits · 10 ^ exponent` lies in the interval of a number. -/
def IsCovered (x : Binary64) (digits : Nat) (exponent : Int) : Prop :=
  x.IsNear (digits * 10 ^ exponent.toNat * unitsPerOne) (10 ^ (-exponent).toNat)

theorem Interval.holds_mul {i : Interval} {k : Nat} (hk : 0 < k) :
    i.holds (num * k) (den * k) = i.holds num den := by
  have hle : ∀ a b : Nat, a * k ≤ b * k ↔ a ≤ b := fun a b => Nat.mul_le_mul_right_iff hk
  have hlt : ∀ a b : Nat, a * k < b * k ↔ a < b := fun a b => Nat.mul_lt_mul_right hk
  unfold Interval.holds
  simp only [← Nat.mul_assoc, hle, hlt]

theorem isNear_mul {k : Nat} (hk : 0 < k) : x.IsNear (num * k) (den * k) ↔ x.IsNear num den := by
  unfold IsNear
  rw [← Nat.mul_assoc, Interval.holds_mul hk]

theorem two_pow_le_ten_pow (n : Nat) : 2 ^ (3 * n) ≤ 10 ^ n := by
  rw [Nat.pow_mul]
  exact Nat.pow_le_pow_left (by decide) n

variable {digits : Nat} {exponent : Int}

theorem lt_of_isNear (hx : x.significand ≠ 0) (hden : 0 < den) (h : x.IsNear num den) :
    num < 2 ^ (53 + x.exponent) * den := by
  have hhigh := (isWithin_of_isNear hx h).high
  have hlt := x.significand_lt
  have hpos : 0 < 2 ^ x.exponent * den := Nat.mul_pos (Nat.two_pow_pos _) hden
  rw [Nat.pow_add, Nat.mul_assoc]
  nlinarith

theorem den_le_of_isNear (hx : x.significand ≠ 0) (h : x.IsNear num den) : den ≤ 2 * num := by
  have hlow := (isWithin_of_isNear hx h).low
  have hone : 1 ≤ x.significand := Nat.one_le_iff_ne_zero.mpr hx
  have hunit : den ≤ 2 ^ x.exponent * den := Nat.le_mul_of_pos_left den (Nat.two_pow_pos _)
  nlinarith

theorem digits_ne_zero_of_isCovered (hx : x.significand ≠ 0) (h : x.IsCovered digits exponent) :
    digits ≠ 0 := by
  have hden : 0 < 10 ^ (-exponent).toNat := Nat.pow_pos (by decide)
  have hlarge := den_le_of_isNear hx h
  rintro rfl
  rw [Nat.zero_mul, Nat.zero_mul] at hlarge
  omega

/-- The decimals in an interval are not much larger than the largest number, -/
theorem exponent_le_of_isCovered (hx : x.significand ≠ 0) (h : x.IsCovered digits exponent) :
    exponent ≤ 400 := by
  by_cases hexponent : 0 ≤ exponent
  · have hdigits := digits_ne_zero_of_isCovered hx h
    have hsmall := lt_of_isNear hx (Nat.pow_pos (by decide)) h
    rw [show (-exponent).toNat = 0 by omega, Nat.pow_zero, Nat.mul_one] at hsmall
    have hone := unitsPerOne_eq
    generalize hn : 1074 = n at hone
    have hpower : 2 ^ (3 * exponent.toNat + n) < 2 ^ (53 + x.exponent) := by
      calc 2 ^ (3 * exponent.toNat + n)
          ≤ 10 ^ exponent.toNat * unitsPerOne := by
            rw [Nat.pow_add, hone]
            exact Nat.mul_le_mul_right _ (two_pow_le_ten_pow _)
        _ ≤ digits * 10 ^ exponent.toNat * unitsPerOne := by
            rw [Nat.mul_assoc]
            exact Nat.le_mul_of_pos_left _ (Nat.pos_of_ne_zero hdigits)
        _ < 2 ^ (53 + x.exponent) := hsmall
    have := (Nat.pow_lt_pow_iff_right (by decide)).mp hpower
    have := x.exponent_le
    omega
  · omega

/-- nor much smaller than the smallest, -/
theorem places_le_of_isCovered (hx : x.significand ≠ 0) (h : x.IsCovered digits exponent)
    (hexponent : exponent < 0) : 3 * (-exponent).toNat ≤ digits.log2 + 1100 := by
  have hlarge := den_le_of_isNear hx h
  rw [show exponent.toNat = 0 by omega, Nat.pow_zero, Nat.mul_one] at hlarge
  have hone := unitsPerOne_eq
  generalize hn : 1074 = n at hone
  have hpower : 2 ^ (3 * (-exponent).toNat) < 2 ^ (digits.log2 + 2 + n) := by
    calc 2 ^ (3 * (-exponent).toNat) ≤ 10 ^ (-exponent).toNat := two_pow_le_ten_pow _
      _ ≤ 2 * digits * unitsPerOne := by rw [Nat.mul_assoc]; exact hlarge
      _ < 2 ^ (digits.log2 + 2) * unitsPerOne := by
          have hlog := Nat.lt_log2_self (n := digits)
          refine Nat.mul_lt_mul_of_pos_right ?_ unitsPerOne_pos
          rw [Nat.pow_succ] at hlog ⊢
          omega
      _ = 2 ^ (digits.log2 + 2 + n) := by rw [hone, ← Nat.pow_add]
  have := (Nat.pow_lt_pow_iff_right (by decide)).mp hpower
  omega

/-- and have no more digits than their places allow. -/
theorem digits_lt_of_isCovered (hx : x.significand ≠ 0) (h : x.IsCovered digits exponent) :
    digits < 10 ^ (53 + x.exponent + 4 * (-exponent).toNat) := by
  have hsmall := lt_of_isNear hx (Nat.pow_pos (by decide)) h
  calc digits ≤ digits * 10 ^ exponent.toNat * unitsPerOne := by
        rw [Nat.mul_assoc]
        exact Nat.le_mul_of_pos_right _ (Nat.mul_pos (Nat.pow_pos (by decide)) unitsPerOne_pos)
    _ < 2 ^ (53 + x.exponent) * 10 ^ (-exponent).toNat := hsmall
    _ ≤ 2 ^ (53 + x.exponent) * 2 ^ (4 * (-exponent).toNat) := by
        refine Nat.mul_le_mul_left _ ?_
        rw [Nat.pow_mul]
        exact Nat.pow_le_pow_left (by decide) _
    _ = 2 ^ (53 + x.exponent + 4 * (-exponent).toNat) := (Nat.pow_add ..).symm
    _ ≤ 10 ^ (53 + x.exponent + 4 * (-exponent).toNat) := Nat.pow_le_pow_left (by decide) _

/-- Every decimal in the interval of a number other than zero is read as it. -/
theorem ofDecimal_of_isCovered (hx : x.significand ≠ 0) (h : x.IsCovered digits exponent) :
    ofDecimal x.negative digits exponent = some x := by
  have hunits := ofUnits_of_isNear hx (Nat.pow_pos (by decide)) h
  rw [ofDecimal, if_neg (digits_ne_zero_of_isCovered hx h),
    if_neg (by have := exponent_le_of_isCovered hx h; omega)]
  by_cases hexponent : 0 ≤ exponent
  · rw [show (-exponent).toNat = 0 by omega, Nat.pow_zero] at hunits
    rw [if_pos hexponent]
    exact hunits
  · have hplaces := places_le_of_isCovered hx h (by omega)
    rw [show exponent.toNat = 0 by omega, Nat.pow_zero, Nat.mul_one] at hunits
    rw [if_neg hexponent]
    simp only [if_neg (by omega : ¬ digits.log2 + 1100 < 3 * (-exponent).toNat)]
    exact hunits

/-- The same decimal in tenths. -/
theorem isCovered_tenths (h : x.IsCovered digits exponent) (hexponent : 0 ≤ exponent) :
    x.IsCovered (digits * 10 ^ (exponent.toNat + 1)) (-1) := by
  unfold IsCovered at h ⊢
  rw [show (-exponent).toNat = 0 by omega, Nat.pow_zero] at h
  have hten := (isNear_mul (by decide : 0 < 10)).mpr h
  rw [show (-1 : Int).toNat = 0 from rfl, show (-(-1 : Int)).toNat = 1 from rfl, Nat.pow_zero,
    Nat.mul_one, Nat.pow_one, Nat.pow_succ, ← Nat.mul_assoc, Nat.mul_right_comm]
  rwa [Nat.one_mul] at hten

/-! ## The shortest decimal -/

theorem isNear_magnitude (hx : x.significand ≠ 0) : x.IsNear x.magnitude 1 := by
  have hbelow := below_le hx
  have hpos := Nat.two_pow_pos x.exponent
  unfold IsNear Interval.holds interval
  simp only [Nat.shiftLeft_eq, Nat.mul_one, Nat.one_mul]
  split <;> split <;> simp <;> omega

theorem holds_of_onGrid? {tie : Tie} {n : Nat} (h : onGrid? tie x n = some digits) :
    x.interval.holds (digits * (gridStep n).1) (gridStep n).2 = true := by
  unfold onGrid? at h
  dsimp only at h
  generalize (gridStep n).1 = step at *
  generalize (gridStep n).2 = den at *
  generalize hexact : 4 * x.magnitude * den = exact at *
  split at h
  · rename_i hlower hupper
    cases h
    have hle := le_divRound tie exact step
    have hge := divRound_le tie exact step
    rcases (by omega : divRound tie exact step = exact / step ∨
      divRound tie exact step = exact / step + 1) with he | he <;> rw [he] <;> assumption
  · cases h
    assumption
  · cases h
    assumption
  · cases h

theorem isCovered_of_onGrid? {tie : Tie} {n : Nat} (h : onGrid? tie x n = some digits) :
    x.IsCovered digits ((n : Int) - 1074) := by
  have hholds := holds_of_onGrid? h
  unfold gridStep at hholds
  unfold IsCovered IsNear
  generalize unitsPerOne = units at *
  split at hholds
  · rw [show (-((n : Int) - 1074)).toNat = 0 by omega,
      show ((n : Int) - 1074).toNat = n - 1074 by omega, Nat.pow_zero]
    rw [Nat.pow_eq] at hholds
    rw [show 4 * (digits * 10 ^ (n - 1074) * units) = digits * (10 ^ (n - 1074) * (4 * units)) by
      ring]
    exact hholds
  · rw [show (-((n : Int) - 1074)).toNat = 1074 - n by omega,
      show ((n : Int) - 1074).toNat = 0 by omega, Nat.pow_zero, Nat.mul_one]
    rw [Nat.pow_eq, Nat.mul_left_comm] at hholds
    exact hholds

/-- On the finest grid lies the number itself. -/
theorem isCovered_magnitude (hx : x.significand ≠ 0) :
    x.IsCovered (x.magnitude * Nat.pow 5 1074) (-1074) := by
  have hone := unitsPerOne_eq
  have hdown : (-(-1074 : Int)).toNat = 1074 := rfl
  have hup : (-1074 : Int).toNat = 0 := rfl
  unfold IsCovered
  rw [hdown, hup, Nat.pow_zero, Nat.mul_one, hone]
  generalize 1074 = n
  have hpower : 0 < 10 ^ n := Nat.pow_pos (by decide)
  have hten : x.magnitude * Nat.pow 5 n * 2 ^ n = x.magnitude * 10 ^ n := by
    rw [Nat.pow_eq, Nat.mul_assoc, ← Nat.mul_pow]
  have hexact := (isNear_mul hpower).mpr (isNear_magnitude hx)
  rw [Nat.one_mul] at hexact
  rw [hten]
  exact hexact

theorem isCovered_firstOnGrid (tie : Tie) (hx : x.significand ≠ 0) (n : Nat) :
    x.IsCovered (firstOnGrid tie x n).digits (firstOnGrid tie x n).exponent := by
  induction n with
  | zero => exact isCovered_magnitude hx
  | succ n ih =>
    rw [firstOnGrid]
    split
    · rename_i hgrid
      exact isCovered_of_onGrid? hgrid
    · exact ih

theorem le_exponent_firstOnGrid (tie : Tie) (x : Binary64) (n : Nat) :
    -1074 ≤ (firstOnGrid tie x n).exponent := by
  induction n with
  | zero => exact Int.le_refl _
  | succ n ih =>
    rw [firstOnGrid]
    split
    · dsimp only
      omega
    · exact ih

theorem isCovered_shortest (tie : Tie) (hx : x.significand ≠ 0) :
    x.IsCovered (x.shortest tie).digits (x.shortest tie).exponent := by
  rw [shortest, if_neg hx]
  exact isCovered_firstOnGrid tie hx _

/-- Zero of either sign is all that has no digits. -/
theorem eq_of_significand_eq_zero (hx : x.significand = 0) :
    x = ⟨x.negative, 0, 0, by decide⟩ := by
  have hexponent : x.exponent = 0 := by
    by_contra hne
    have := le_significand hne
    rw [hx] at this
    exact absurd this (by decide)
  obtain ⟨negative, significand, exponent, canonical⟩ := x
  subst hx hexponent
  rfl

theorem ofDecimal_zero (hx : x.significand = 0) (exponent : Int) :
    ofDecimal x.negative 0 exponent = some x := by
  rw [eq_of_significand_eq_zero hx]
  cases x.negative <;> rfl

/-- The shortest decimal of a number is read as it. -/
theorem ofDecimal_shortest (tie : Tie) (x : Binary64) :
    ofDecimal x.negative (x.shortest tie).digits (x.shortest tie).exponent = some x := by
  by_cases hx : x.significand = 0
  · rw [shortest, if_pos hx]
    exact ofDecimal_zero hx 0
  · exact ofDecimal_of_isCovered hx (isCovered_shortest tie hx)

end Binary64

end CampusQuery
