import Mathlib
import CampusQuery.Proofs.Number.Value

/-!
# Rounded quotients

What is rounded is a quotient, and only its value matters: the number found is the same whatever the
two terms, and lies within half a unit of the last place.

* `divRound_congr`, `Binary64.ofUnits_congr` — equal quotients are rounded alike.
* `two_mul_divRound_le`, `le_two_mul_divRound` — an integer found is within a half of the quotient.
* `Binary64.IsClose` — a number within half of `2 ^ k` units of a quotient of units.
* `Binary64.isClose_ofValue` — so is the number that is found for a quotient below `2 ^ (53 + k)`.
* `Binary64.magnitude_ofValue_units` — whole numbers below `2 ^ 53` are found exactly.
-/

namespace CampusQuery

/-! ## To an integer -/

section Integers

variable {tie : Tie} {num den num' den' n : Nat}

theorem divRound_mul_mul_right {k : Nat} (hk : 0 < k) :
    divRound tie (num * k) (den * k) = divRound tie num den := by
  have hcompare : compare (2 * (num % den * k)) (den * k) = compare (2 * (num % den)) den := by
    rw [← Nat.mul_assoc]
    rcases lt_trichotomy (2 * (num % den)) den with h | h | h
    · rw [Nat.compare_eq_lt.mpr h, Nat.compare_eq_lt.mpr (Nat.mul_lt_mul_of_pos_right h hk)]
    · rw [Nat.compare_eq_eq.mpr h, Nat.compare_eq_eq.mpr (congrArg (· * k) h)]
    · rw [Nat.compare_eq_gt.mpr h, Nat.compare_eq_gt.mpr (Nat.mul_lt_mul_of_pos_right h hk)]
  unfold divRound
  rw [Nat.mul_mod_mul_right, hcompare, Nat.mul_div_mul_right _ _ hk]

/-- Equal quotients are rounded to the same integer. -/
theorem divRound_congr (hden : 0 < den) (hden' : 0 < den') (h : num * den' = num' * den) :
    divRound tie num den = divRound tie num' den' := by
  rw [← divRound_mul_mul_right hden', h, Nat.mul_comm den, divRound_mul_mul_right hden]

theorem two_mul_divRound_le (tie : Tie) (num den : Nat) :
    2 * (divRound tie num den * den) ≤ 2 * num + den := by
  have hdiv : num / den * den + num % den = num := Nat.div_add_mod' num den
  unfold divRound
  generalize num / den = w at *
  generalize num % den = r at *
  have hparity : w % 2 * den ≤ 1 * den := Nat.mul_le_mul_right den (by omega)
  dsimp only
  split
  · omega
  · rename_i hgt
    have := Nat.compare_eq_gt.mp hgt
    rw [Nat.add_mul]
    omega
  · rename_i heq
    have := Nat.compare_eq_eq.mp heq
    rw [Nat.add_mul]
    omega
  · rename_i heq
    have := Nat.compare_eq_eq.mp heq
    rw [Nat.add_mul]
    omega

theorem le_two_mul_divRound (tie : Tie) (num : Nat) (hden : 0 < den) :
    2 * num ≤ 2 * (divRound tie num den * den) + den := by
  have hdiv : num / den * den + num % den = num := Nat.div_add_mod' num den
  have hmod : num % den < den := Nat.mod_lt num hden
  unfold divRound
  generalize num / den = w at *
  generalize num % den = r at *
  dsimp only
  split
  · rename_i hlt
    have := Nat.compare_eq_lt.mp hlt
    omega
  · rw [Nat.add_mul]
    omega
  · rw [Nat.add_mul]
    omega
  · rename_i heq
    have := Nat.compare_eq_eq.mp heq
    rw [Nat.add_mul]
    omega

/-- Two integers with multiples that are less than one multiple apart are the same. -/
theorem eq_of_mul_lt_mul_add {m : Nat} (hm : m * den < n * den + den)
    (hn : n * den < m * den + den) : m = n := by
  have hup : m < n + 1 := by
    apply Nat.lt_of_mul_lt_mul_right (a := den)
    rwa [Nat.succ_mul]
  have hdown : n < m + 1 := by
    apply Nat.lt_of_mul_lt_mul_right (a := den)
    rwa [Nat.succ_mul]
  omega

/-- An integer nearer to a quotient than a half is found, wherever ties go. -/
theorem divRound_eq_of_lt (hlow : 2 * (n * den) < 2 * num + den)
    (hhigh : 2 * num < 2 * (n * den) + den) : divRound tie num den = n := by
  have hden : 0 < den := by omega
  have hle := two_mul_divRound_le tie num den
  have hge := le_two_mul_divRound tie num hden
  have hup : divRound tie num den * den < n * den + den := by omega
  have hdown : n * den < divRound tie num den * den + den := by omega
  exact eq_of_mul_lt_mul_add hup hdown

/-- A quotient that is no more than an integer is not rounded beyond it. -/
theorem divRound_le_of_le (hden : 0 < den) (h : num ≤ n * den) : divRound tie num den ≤ n := by
  rcases Nat.lt_or_eq_of_le h with hlt | rfl
  · have hquotient : num / den < n := (Nat.div_lt_iff_lt_mul hden).mpr hlt
    have := divRound_le tie num den
    omega
  · exact (divRound_mul_right tie n hden).le

end Integers

namespace Binary64

variable {num den num' den' k : Nat} {negative : Bool}

/-! ## To a number -/

/-- Equal quotients of units are rounded to the same number. -/
theorem ofUnits_congr (hden : 0 < den) (hden' : 0 < den') (h : num * den' = num' * den) :
    ofUnits negative num den = ofUnits negative num' den' := by
  have hquotient : num / den = num' / den' := by
    rw [← Nat.mul_div_mul_right _ _ hden', h, Nat.mul_comm den, Nat.mul_div_mul_right _ _ hden]
  have hrounded (e : Nat) :
      divRound .toEven num (den <<< e) = divRound .toEven num' (den' <<< e) := by
    have hpow := Nat.two_pow_pos e
    rw [Nat.shiftLeft_eq, Nat.shiftLeft_eq]
    refine divRound_congr (Nat.mul_pos hden hpow) (Nat.mul_pos hden' hpow) ?_
    rw [← Nat.mul_assoc, ← Nat.mul_assoc, h]
  unfold ofUnits
  simp only [hquotient, hrounded]

/-- A number is within half of `2 ^ k` units of a quotient of units. -/
structure IsClose (x : Binary64) (num den k : Nat) : Prop where
  low : 2 * (x.magnitude * den) ≤ 2 * num + 2 ^ k * den
  high : 2 * num ≤ 2 * (x.magnitude * den) + 2 ^ k * den

/-- The exponent at which a quotient of units is rounded. -/
def exponentOf (num den : Nat) : Nat :=
  (num / den).log2 + 1 - 53

/-- The significand that a quotient of units is rounded to. -/
def significandOf (num den : Nat) : Nat :=
  divRound .toEven num (2 ^ exponentOf num den * den)

/-- It has at most 53 bits, but for a carry, -/
theorem significandOf_le (num den : Nat) : significandOf num den ≤ 2 ^ 53 := by
  have hpow := Nat.two_pow_pos (exponentOf num den)
  have hbits : num / (2 ^ exponentOf num den * den) < 2 ^ 53 := by
    rw [Nat.mul_comm, ← Nat.div_div_eq_div_mul, Nat.div_lt_iff_lt_mul hpow, ← Nat.pow_add]
    refine lt_of_lt_of_le Nat.lt_log2_self (Nat.pow_le_pow_right (by decide) ?_)
    unfold exponentOf
    omega
  have := divRound_le .toEven num (2 ^ exponentOf num den * den)
  unfold significandOf
  omega

/-- and no fewer unless the exponent is the least. -/
theorem le_significandOf (num den : Nat) :
    exponentOf num den = 0 ∨ 2 ^ 52 ≤ significandOf num den := by
  refine or_iff_not_imp_left.mpr fun hexponent => ?_
  have hne : num / den ≠ 0 := fun hzero => hexponent (by rw [exponentOf, hzero]; rfl)
  have hpow := Nat.two_pow_pos (exponentOf num den)
  have hbits : 2 ^ 52 ≤ num / (2 ^ exponentOf num den * den) := by
    rw [Nat.mul_comm, ← Nat.div_div_eq_div_mul, Nat.le_div_iff_mul_le hpow, ← Nat.pow_add]
    refine le_trans (Nat.pow_le_pow_right (by decide) ?_) (Nat.log2_self_le hne)
    unfold exponentOf at hexponent ⊢
    omega
  exact le_trans hbits (le_divRound .toEven num _)

/-- A carry to the next power of two changes the form of a number, not its size. -/
theorem exists_ofUnits_eq (negative : Bool) (h : exponentOf num den ≤ 2044) :
    ∃ x, ofUnits negative num den = some x ∧ x.negative = negative ∧
      x.magnitude = significandOf num den * 2 ^ exponentOf num den := by
  rcases Nat.lt_or_eq_of_le (significandOf_le num den) with hlt | hcarry
  · let x : Binary64 := ⟨negative, significandOf num den, exponentOf num den,
      hlt, by omega, le_significandOf num den⟩
    exact ⟨x, ofUnits_eq (x := x) rfl rfl, rfl, magnitude_eq x⟩
  · let x : Binary64 := ⟨negative, 2 ^ 52, exponentOf num den + 1,
      by decide, by omega, .inr (le_refl _)⟩
    have hx : x.magnitude = 2 ^ 52 * 2 ^ (exponentOf num den + 1) := magnitude_eq x
    refine ⟨x, ofUnits_eq_of_carry (x := x) rfl hcarry rfl rfl, rfl, ?_⟩
    rw [hx, hcarry, ← Nat.pow_add, ← Nat.pow_add]
    congr 1
    omega

/-- A quotient below `2 ^ (53 + k)` units has a number within half of `2 ^ k` units. -/
theorem exists_ofUnits (negative : Bool) (hden : 0 < den) (hk : k ≤ 2044)
    (h : num < 2 ^ (53 + k) * den) :
    ∃ x, ofUnits negative num den = some x ∧ x.negative = negative ∧ x.IsClose num den k := by
  have hexponent : exponentOf num den ≤ k := by
    have hquotient : num / den < 2 ^ (53 + k) := (Nat.div_lt_iff_lt_mul hden).mpr h
    unfold exponentOf
    by_cases hzero : num / den = 0
    · simp [hzero]
    · have := (Nat.log2_lt hzero).mpr hquotient
      omega
  obtain ⟨x, hx, hsign, hmagnitude⟩ := exists_ofUnits_eq negative (hexponent.trans hk)
  have hunit : 0 < 2 ^ exponentOf num den * den := Nat.mul_pos (Nat.two_pow_pos _) hden
  have hstep : 2 ^ exponentOf num den * den ≤ 2 ^ k * den :=
    Nat.mul_le_mul_right _ (Nat.pow_le_pow_right (by decide) hexponent)
  have hlow := two_mul_divRound_le .toEven num (2 ^ exponentOf num den * den)
  have hhigh := le_two_mul_divRound .toEven num hunit
  refine ⟨x, hx, hsign, ?_, ?_⟩ <;> rw [hmagnitude, Nat.mul_assoc, significandOf] <;> omega

/-- The sign has no part in the size. -/
theorem ofUnits_neg (num den : Nat) :
    ofUnits true num den = (ofUnits false num den).map neg := by
  unfold ofUnits
  dsimp only
  split_ifs <;> rfl

theorem ofUnits_magnitude (x : Binary64) : ofUnits x.negative x.magnitude 1 = some x := by
  by_cases hx : x.significand = 0
  · rw [eq_of_significand_eq_zero hx]
    cases x.negative <;> rfl
  · exact ofUnits_of_isNear hx (by decide) (isNear_magnitude hx)

/-! ## Numbers that are not negative -/

theorem ofValue_natCast (num den : Nat) :
    ofValue (num : Int) den = (ofUnits false num den).getD (largest false) := by
  have hsign : decide ((num : Int) < 0) = false := by simp
  rw [ofValue, hsign, Int.natAbs_natCast]

theorem ofValue_congr (hden : 0 < den) (hden' : 0 < den') (h : num * den' = num' * den) :
    ofValue (num : Int) den = ofValue (num' : Int) den' := by
  rw [ofValue_natCast, ofValue_natCast, ofUnits_congr hden hden' h]

theorem ofValue_neg (hnum : 0 < num) (den : Nat) :
    ofValue (-(num : Int)) den = (ofValue (num : Int) den).neg := by
  have hsign : decide (-(num : Int) < 0) = true := decide_eq_true (by omega)
  rw [ofValue_natCast, ofValue, hsign, Int.natAbs_neg, Int.natAbs_natCast, ofUnits_neg]
  cases ofUnits false num den <;> rfl

theorem ofValue_zero (hden : 0 < den) : ofValue ((0 : Nat) : Int) den = zero := by
  have hcross : 0 * 1 = 0 * den := by omega
  exact ofValue_congr hden Nat.one_pos hcross

theorem negative_ofValue (num den : Nat) : (ofValue (num : Int) den).negative = false := by
  rw [ofValue_natCast]
  unfold ofUnits
  dsimp only
  split_ifs <;> rfl

/-- The number found for a quotient below `2 ^ (53 + k)` units is within half of `2 ^ k` units. -/
theorem isClose_ofValue (hden : 0 < den) (hk : k ≤ 2044) (h : num < 2 ^ (53 + k) * den) :
    (ofValue (num : Int) den).IsClose num den k := by
  obtain ⟨x, hx, -, hclose⟩ := exists_ofUnits false hden hk h
  rw [ofValue_natCast, hx]
  exact hclose

theorem ofValue_magnitude {x : Binary64} (hx : x.negative = false) :
    ofValue (x.magnitude : Int) 1 = x := by
  have h := ofUnits_magnitude x
  rw [hx] at h
  rw [ofValue_natCast, h]
  rfl

/-- Every whole number below `2 ^ 53` is a number. -/
theorem exists_magnitude_eq {n : Nat} (hn : n < 2 ^ 53) :
    ∃ x : Binary64, x.negative = false ∧ x.magnitude = n * unitsPerOne := by
  by_cases hzero : n = 0
  · exact ⟨zero, rfl, by rw [hzero, Nat.zero_mul]; rfl⟩
  · have hlog : n.log2 < 53 := (Nat.log2_lt hzero).mpr hn
    obtain ⟨d, hd⟩ : ∃ d, n.log2 + d = 52 := ⟨52 - n.log2, by omega⟩
    have hlow : 2 ^ 52 ≤ n * 2 ^ d := by
      rw [← hd, Nat.pow_add]
      exact Nat.mul_le_mul_right _ (Nat.log2_self_le hzero)
    have hhigh : n * 2 ^ d < 2 ^ 53 := by
      rw [show 53 = n.log2 + 1 + d by omega, Nat.pow_add]
      exact Nat.mul_lt_mul_of_pos_right Nat.lt_log2_self (Nat.two_pow_pos _)
    obtain ⟨e, he⟩ : ∃ e, d + e = 1074 := ⟨1074 - d, by omega⟩
    refine ⟨⟨false, n * 2 ^ d, e, hhigh, by omega, .inr hlow⟩, rfl, ?_⟩
    rw [magnitude_eq, unitsPerOne_eq, ← he, Nat.pow_add, Nat.mul_assoc]

theorem magnitude_ofValue_units {n : Nat} (hn : n < 2 ^ 53) :
    (ofValue ((n * unitsPerOne : Nat) : Int) 1).magnitude = n * unitsPerOne := by
  obtain ⟨x, hsign, hx⟩ := exists_magnitude_eq hn
  rw [← hx, ofValue_magnitude hsign]

theorem ofInt_natCast (n : Nat) : ofInt (n : Int) = ofValue ((n * unitsPerOne : Nat) : Int) 1 := by
  rw [ofInt, Int.natCast_mul]

theorem magnitude_ofInt {n : Nat} (hn : n < 2 ^ 53) : (ofInt (n : Int)).magnitude = n * unitsPerOne := by
  rw [ofInt_natCast, magnitude_ofValue_units hn]

theorem negative_ofInt (n : Nat) : (ofInt (n : Int)).negative = false := by
  rw [ofInt_natCast, negative_ofValue]

variable {x y : Binary64}

theorem value_of_nonneg (hx : x.negative = false) : x.value = x.magnitude := by
  rw [value, hx]
  rfl

theorem add_of_nonneg (hx : x.negative = false) (hy : y.negative = false) :
    x.add y = ofValue ((x.magnitude + y.magnitude : Nat) : Int) 1 := by
  rw [add, value_of_nonneg hx, value_of_nonneg hy, Int.natCast_add]

theorem mul_of_nonneg (hx : x.negative = false) (hy : y.negative = false) :
    x.mul y = ofValue ((x.magnitude * y.magnitude : Nat) : Int) unitsPerOne := by
  rw [mul, value_of_nonneg hx, value_of_nonneg hy, Int.natCast_mul]

theorem div_of_nonneg (hx : x.negative = false) (hy : y.negative = false) (hne : y.magnitude ≠ 0) :
    x.div y = ofValue ((x.magnitude * unitsPerOne : Nat) : Int) y.magnitude := by
  rw [div, if_neg hne, hx, hy]
  rfl

/-- Whole numbers below `2 ^ 53` are divided with one rounding. -/
theorem div_ofInt {n p : Nat} (hn : n < 2 ^ 53) (hp : 0 < p) (hp' : p < 2 ^ 53) :
    (ofInt n).div (ofInt p) = ofValue ((n * unitsPerOne : Nat) : Int) p := by
  have hpower : 0 < p * unitsPerOne := Nat.mul_pos hp unitsPerOne_pos
  have hne : (ofInt p).magnitude ≠ 0 := by
    rw [magnitude_ofInt hp']
    exact hpower.ne'
  rw [div_of_nonneg (negative_ofInt n) (negative_ofInt p) hne, magnitude_ofInt hn,
    magnitude_ofInt hp']
  exact ofValue_congr hpower hp (by ring)

theorem roundHalfAway_of_nonneg (hx : x.negative = false) :
    x.roundHalfAway = ofInt (divRound .up x.magnitude unitsPerOne : Nat) := by
  rw [roundHalfAway, hx]
  rfl

end Binary64

end CampusQuery
