import Mathlib
import CampusQuery.Json.Numeral
import CampusQuery.Proofs.Number.Closest
import CampusQuery.Proofs.Number.Precision

/-!
# Reading digits and a power of ten

Documents are read by multiplying a number by a power of ten, and each of the two and their product
is rounded. The result can miss the number that was written. It can never be out of range for the
shortest decimal of a number, since three roundings are off by less than two steps of the last
place, and the three numbers that are nearer than that to the end of the range are read as they
should be.

* `Binary64.top_le_of_ofUnits` — no number is found only beyond the largest.
* `Binary64.exists_scaled?_shortest` — the shortest decimal of a number is read as some number.
* `Binary64.scaled?_of_short` — a decimal of few digits is read as the nearest number.
-/

namespace CampusQuery

namespace Binary64

variable {negative : Bool} {num den digits : Nat} {power exponent : Int} {x : Binary64}

/-! ## The end of the range -/

/-- Half a step beyond the largest number is the first that is out of range. -/
theorem top_le_of_ofUnits (hden : 0 < den) (h : ofUnits negative num den = none) :
    (2 ^ 54 - 1) * (2 ^ 2045 * den) ≤ 2 * num := by
  generalize htop : 2045 = top
  rcases Nat.lt_trichotomy (exponentOf num den) top with hlt | heq | hlt
  · have hexponent : exponentOf num den ≤ 2044 := by omega
    obtain ⟨x, hx, -⟩ := exists_ofUnits_eq negative hexponent
    rw [h] at hx
    cases hx
  · have hcarry := significandOf_eq_of_ofUnits h (by omega)
    have hlow := two_mul_divRound_le .toEven num (2 ^ exponentOf num den * den)
    rw [show divRound _ _ _ = 2 ^ 53 from hcarry, heq] at hlow
    omega
  · have hne : num / den ≠ 0 := by
      intro hzero
      rw [exponentOf, hzero, Nat.log2_zero] at hlt
      omega
    have hlog : 53 + top ≤ (num / den).log2 := by
      unfold exponentOf at hlt
      omega
    have hle : 2 ^ (53 + top) ≤ num / den :=
      (Nat.pow_le_pow_right (by decide) hlog).trans (Nat.log2_self_le hne)
    rw [Nat.le_div_iff_mul_le hden, Nat.pow_add, Nat.mul_assoc] at hle
    omega

/-! ## Three roundings -/

/-- A number that is rounded once grows by at most one part in `2 ^ 53`. -/
theorem magnitude_ofValue_le (num : Nat) :
    2 ^ 53 * (ofValue (num : Int) 1).magnitude ≤ (2 ^ 53 + 1) * num := by
  rw [ofValue_natCast]
  cases h : ofUnits false num 1 with
  | none =>
    have hle := largest_le_of_ofUnits h
    simp only [Option.getD_none]
    omega
  | some x =>
    have hhalf := two_mul_divRound_le .toEven num (2 ^ exponentOf num 1 * 1)
    rw [Option.getD_some, magnitude_of_ofUnits h]
    rw [Nat.mul_one, show divRound _ _ _ = significandOf num 1 by rw [significandOf, Nat.mul_one]]
      at hhalf
    by_cases hexponent : exponentOf num 1 = 0
    · -- all units are kept
      rw [hexponent, Nat.pow_zero, Nat.mul_one] at hhalf ⊢
      omega
    · have hlarge := two_pow_le_of_exponentOf hexponent
      generalize 2 ^ exponentOf num 1 = unit at *
      omega

theorem magnitude_ofInt_le (n : Nat) :
    2 ^ 53 * (ofInt (n : Int)).magnitude ≤ (2 ^ 53 + 1) * (n * unitsPerOne) := by
  rw [ofInt_natCast]
  exact magnitude_ofValue_le _

/-- A decimal some steps below the end of the range is not read beyond it. -/
theorem exists_mul?_tenTo {n : Nat}
    (h : 2 * (digits * 10 ^ n * unitsPerOne) ≤ (2 ^ 54 - 7) * 2 ^ 2045) :
    ∃ y, (ofInt (digits : Int)).mul? (tenTo n) = some y := by
  refine Option.ne_none_iff_exists'.mp fun hnone => ?_
  have htop := top_le_of_ofUnits unitsPerOne_pos hnone
  have hdigits := magnitude_ofInt_le digits
  have htens : 2 ^ 53 * (tenTo n).magnitude ≤ (2 ^ 53 + 1) * (10 ^ n * unitsPerOne) :=
    magnitude_ofInt_le (10 ^ n)
  have hproduct := Nat.mul_le_mul hdigits htens
  have hunits := unitsPerOne_pos
  generalize (ofInt (digits : Int)).magnitude = a at *
  generalize (tenTo n).magnitude = b at *
  generalize hlast : 2 ^ 2045 = last at *
  have hend : 0 < last := by
    rw [← hlast]
    positivity
  generalize unitsPerOne = units at *
  have hscaled := Nat.mul_le_mul_right units h
  have hpos : 0 < last * units := Nat.mul_pos hend hunits
  -- the errors of the two factors are less than the three steps that are left
  have hle : (2 ^ 54 - 1) * 2 ^ 106 * (last * units) ≤
      (2 ^ 53 + 1) ^ 2 * (2 ^ 54 - 7) * (last * units) := by
    nlinarith
  have hlt := Nat.le_of_mul_le_mul_right hle hpos
  exact absurd hlt (by decide)

/-- A decimal in the interval of a number has no more tens than the format. -/
theorem exponent_le_of_nonneg (hx : x.significand ≠ 0) (h : x.IsCovered digits exponent) :
    exponent ≤ 308 := by
  by_contra hlarge
  have hdigits := digits_ne_zero_of_isCovered hx h
  have hsmall := lt_of_isNear hx (Nat.pow_pos (by decide)) h
  rw [show (-exponent).toNat = 0 by omega, Nat.pow_zero, Nat.mul_one, unitsPerOne_eq,
    show 53 + x.exponent = x.exponent + 53 by omega] at hsmall
  have hmost := x.exponent_le
  have hpower {a b c : Nat} (h : a ≤ b + c) : 2 ^ a ≤ 2 ^ b * 2 ^ c :=
    (Nat.pow_le_pow_right (by decide) h).trans_eq (Nat.pow_add 2 b c)
  have hlt : digits * 10 ^ exponent.toNat < 2 ^ 1024 :=
    Nat.lt_of_mul_lt_mul_right (hsmall.trans_le (hpower (by omega)))
  have htens : 10 ^ exponent.toNat < 2 ^ 1024 :=
    (Nat.le_mul_of_pos_left _ (Nat.pos_of_ne_zero hdigits)).trans_lt hlt
  obtain ⟨more, hmore⟩ := Nat.le.dest (by omega : 309 ≤ exponent.toNat)
  rw [← hmore, Nat.pow_add] at htens
  exact absurd ((Nat.le_mul_of_pos_right _ (Nat.pow_pos (by decide))).trans_lt htens)
    (by decide +kernel)

theorem isSome_scaled?_of_neg (x : Binary64) (h : power < 0) : (x.scaled? power).isSome := by
  rw [scaled?, if_neg (by omega), if_neg (by omega)]
  rfl

/-- The decimals of the three largest numbers are read within the range. -/
theorem exists_scaled?_top (hexponent : x.exponent = 2045) (hx : 2 ^ 53 ≤ x.significand + 3) :
    ((ofInt ((x.shortest .toEven).digits : Int)).scaled? (x.shortest .toEven).exponent).isSome := by
  have htop : ∀ negative, ∀ left : Fin 3,
      ∀ h : 2 ^ 53 - 1 - left.val < Nat.pow 2 53 ∧ 2045 ≤ 2045 ∧
        (2045 = 0 ∨ Nat.pow 2 52 ≤ 2 ^ 53 - 1 - left.val),
      ((ofInt ((Binary64.mk negative (2 ^ 53 - 1 - left) 2045 h).shortest .toEven).digits).scaled?
        ((Binary64.mk negative (2 ^ 53 - 1 - left) 2045 h).shortest .toEven).exponent).isSome := by
    decide +kernel
  obtain ⟨negative, significand, exponent, hcanonical⟩ := x
  obtain rfl : exponent = 2045 := hexponent
  have hlt : significand < 2 ^ 53 := hcanonical.1
  obtain ⟨left, hleft, rfl⟩ : ∃ left < 3, significand = 2 ^ 53 - 1 - left :=
    ⟨2 ^ 53 - 1 - significand, by dsimp only at hx; omega, by omega⟩
  exact htop negative ⟨left, hleft⟩ hcanonical

/-- The shortest decimal of a number is read as some number. -/
theorem exists_scaled?_shortest (hx : x.significand ≠ 0) :
    ((ofInt ((x.shortest .toEven).digits : Int)).scaled? (x.shortest .toEven).exponent).isSome := by
  by_cases hexponent : (x.shortest .toEven).exponent < 0
  · exact isSome_scaled?_of_neg _ hexponent
  by_cases htop : x.exponent = 2045 ∧ 2 ^ 53 ≤ x.significand + 3
  · exact exists_scaled?_top htop.1 htop.2
  have hcovered := isCovered_shortest .toEven hx
  have hhigh := (isWithin_of_isNear hx hcovered).high
  have hle := exponent_le_of_nonneg hx hcovered
  generalize x.shortest .toEven = s at *
  rw [show (-s.exponent).toNat = 0 by omega, Nat.pow_zero, Nat.mul_one] at hhigh
  have hbound : 2 * (s.digits * 10 ^ s.exponent.toNat * unitsPerOne) ≤
      (2 ^ 54 - 7) * 2 ^ 2045 := by
    have hlt := x.significand_lt
    have hmost := x.exponent_le
    generalize 2045 = last at *
    generalize 2 * (s.digits * 10 ^ s.exponent.toNat * unitsPerOne) = num at *
    by_cases hlast : x.exponent = last
    · rw [hlast] at hhigh
      generalize 2 ^ last = unit at *
      have hsteps : (2 * x.significand + 1) * unit ≤ (2 ^ 54 - 7) * unit :=
        Nat.mul_le_mul_right unit (by omega)
      linarith
    · have hunit : 2 * 2 ^ x.exponent ≤ 2 ^ last := by
        rw [← Nat.pow_succ']
        exact Nat.pow_le_pow_right (by decide) (by omega)
      generalize 2 ^ last = unit at *
      generalize 2 ^ x.exponent = step at *
      have hsteps : (2 * x.significand + 1) * step ≤ (2 ^ 54 - 7) * 2 * step :=
        Nat.mul_le_mul_right step (by omega)
      have hunits := Nat.mul_le_mul_left (2 ^ 54 - 7) hunit
      rw [← Nat.mul_assoc] at hunits
      linarith
  obtain ⟨y, hy⟩ := exists_mul?_tenTo hbound
  rw [scaled?, if_neg (by omega), if_pos (by omega), hy]
  rfl

/-! ## Few digits -/

/-- A decimal of fewer than `2 ^ 53` steps and at most 15 places is read with one rounding. -/
theorem scaled?_of_short {places : Nat} (hdigits : digits < 2 ^ 53) (hpos : 0 < places)
    (hplaces : places ≤ 15) :
    (ofInt (digits : Int)).scaled? (-(places : Int)) =
      some (ofValue ((digits * unitsPerOne : Nat) : Int) (10 ^ places)) := by
  have hpower : 10 ^ places < 2 ^ 53 :=
    (Nat.pow_le_pow_right (by decide) hplaces).trans_lt (by decide)
  rw [scaled?, if_neg (by omega), if_neg (by omega)]
  simp only [neg_neg, Int.toNat_natCast, Nat.div_eq_of_lt (by omega : places - 1 < 308), mul_zero,
    tsub_zero, divTens]
  exact congrArg some (div_ofInt hdigits (Nat.pow_pos (by decide)) hpower)

end Binary64

end CampusQuery
