import Mathlib
import CampusQuery.Proofs.Number.Whole

/-!
# The closest number

Of all numbers of the format the one that is found for an integer of units is closest to it, also
beyond the largest number, where that one is found.

* `Binary64.significandOf_closest` — the significand that a natural number of units is rounded to,
  at its exponent, is as close to it as any number.
* `Binary64.largest_le_of_ofUnits` — no number is found only beyond the largest.
* `Binary64.ofValue_closest` — the number found for an integer of units is closest.
* `JsonNumber.isClosestTo_rounded` — so is what documents show of a number that was read from one.
-/

namespace CampusQuery

/-- Of the multiples of a step the one that a number is rounded to is closest. -/
theorem divRound_closest (tie : Tie) (num : Nat) {step : Nat} (hstep : 0 < step) (n : Nat) :
    (((divRound tie num step * step : Nat) : ℤ) - num).natAbs ≤
      (((n * step : Nat) : ℤ) - num).natAbs := by
  have hlow := two_mul_divRound_le tie num step
  have hhigh := le_two_mul_divRound tie num hstep
  generalize divRound tie num step = r at *
  rcases lt_trichotomy n r with hlt | rfl | hlt
  · have hfar : n * step + step ≤ r * step := by
      rw [← Nat.succ_mul]
      exact Nat.mul_le_mul_right step hlt
    omega
  · exact le_rfl
  · have hfar : r * step + step ≤ n * step := by
      rw [← Nat.succ_mul]
      exact Nat.mul_le_mul_right step hlt
    omega

namespace Binary64

variable {negative : Bool} {num : Nat} {x : Binary64}

/-! ## At the exponent of a number -/

/-- Any exponent but the least is needed for all 53 bits. -/
theorem two_pow_le_of_exponentOf (h : exponentOf num 1 ≠ 0) :
    2 ^ 52 * 2 ^ exponentOf num 1 ≤ num := by
  have hne : num ≠ 0 := by
    rintro rfl
    exact h rfl
  unfold exponentOf at h ⊢
  rw [Nat.div_one] at h ⊢
  rw [← Nat.pow_add, show 52 + (num.log2 + 1 - 53) = num.log2 by omega]
  exact Nat.log2_self_le hne

/-- A number is a multiple of the step at an exponent, or below all that have 53 bits there. -/
theorem magnitude_eq_mul_or_lt (y : Binary64) (k : Nat) :
    (∃ n, y.magnitude = n * 2 ^ k) ∨ k ≠ 0 ∧ y.magnitude < 2 ^ 52 * 2 ^ k := by
  rw [magnitude_eq]
  rcases Nat.lt_or_ge y.exponent k with hlt | hle
  · refine .inr ⟨by omega, ?_⟩
    calc y.significand * 2 ^ y.exponent
      _ < 2 ^ 53 * 2 ^ y.exponent :=
        Nat.mul_lt_mul_of_pos_right y.significand_lt (Nat.two_pow_pos _)
      _ = 2 ^ 52 * 2 ^ (y.exponent + 1) := by ring
      _ ≤ 2 ^ 52 * 2 ^ k := Nat.mul_le_mul_left _ (Nat.pow_le_pow_right (by decide) hlt)
  · refine .inl ⟨y.significand * 2 ^ (y.exponent - k), ?_⟩
    rw [Nat.mul_assoc, ← Nat.pow_add, Nat.sub_add_cancel hle]

theorem significandOf_closest (num : Nat) (y : Binary64) :
    (((significandOf num 1 * 2 ^ exponentOf num 1 : Nat) : ℤ) - num).natAbs ≤
      ((y.magnitude : ℤ) - num).natAbs := by
  have hnearest := divRound_closest .toEven num (Nat.two_pow_pos (exponentOf num 1))
  rw [significandOf, Nat.mul_one]
  rcases y.magnitude_eq_mul_or_lt (exponentOf num 1) with ⟨n, hn⟩ | ⟨hexponent, hlt⟩
  · rw [hn]
    exact hnearest n
  · -- the least number with 53 bits lies between
    have hle := two_pow_le_of_exponentOf hexponent
    refine (hnearest (2 ^ 52)).trans ?_
    generalize 2 ^ 52 * 2 ^ exponentOf num 1 = least at *
    omega

/-! ## The number found -/

theorem magnitude_of_ofUnits (h : ofUnits negative num 1 = some x) :
    x.magnitude = significandOf num 1 * 2 ^ exponentOf num 1 := by
  have hunit : 1 <<< ((num / 1).log2 + 1 - 53) = 2 ^ exponentOf num 1 * 1 := by
    rw [Nat.shiftLeft_eq, Nat.one_mul, Nat.mul_one]
    rfl
  rw [magnitude_eq]
  unfold ofUnits at h
  dsimp only at h
  rw [hunit] at h
  split at h
  · next hcarry =>
    split at h
    · obtain rfl := Option.some.inj h
      show 2 ^ 52 * 2 ^ (exponentOf num 1 + 1) = _
      rw [show significandOf num 1 = 2 ^ 53 from hcarry]
      ring
    · cases h
  · split at h
    · obtain rfl := Option.some.inj h
      rfl
    · cases h

theorem magnitude_le_largest (negative : Bool) (y : Binary64) :
    y.magnitude ≤ (largest negative).magnitude := by
  rw [magnitude_eq, magnitude_eq]
  exact Nat.mul_le_mul (Nat.le_pred_of_lt y.significand_lt)
    (Nat.pow_le_pow_right (by decide) y.exponent_le)

/-- At the largest exponent a number is found unless there is a carry. -/
theorem significandOf_eq_of_ofUnits {den : Nat} (h : ofUnits negative num den = none)
    (hexponent : exponentOf num den ≤ 2045) : significandOf num den = 2 ^ 53 := by
  by_contra hne
  let x : Binary64 := ⟨negative, significandOf num den, exponentOf num den,
    lt_of_le_of_ne (significandOf_le num den) hne, hexponent, le_significandOf num den⟩
  have hx : ofUnits negative num den = some x := ofUnits_eq (x := x) rfl rfl
  rw [h] at hx
  cases hx

theorem largest_le_of_ofUnits (h : ofUnits negative num 1 = none) :
    (largest negative).magnitude ≤ num := by
  rw [magnitude_eq, show (largest negative).significand = 2 ^ 53 - 1 from rfl]
  have htop : (largest negative).exponent = 2045 := rfl
  generalize (largest negative).exponent = top at htop ⊢
  rcases Nat.lt_trichotomy (exponentOf num 1) top with hlt | heq | hlt
  · have hexponent : exponentOf num 1 ≤ 2044 := by omega
    obtain ⟨x, hx, -⟩ := exists_ofUnits_eq negative hexponent
    rw [h] at hx
    cases hx
  · have hcarry := significandOf_eq_of_ofUnits h (by omega)
    have hlow := two_mul_divRound_le .toEven num (2 ^ exponentOf num 1 * 1)
    rw [show divRound _ _ _ = 2 ^ 53 from hcarry, heq, Nat.mul_one] at hlow
    omega
  · have hexponent : exponentOf num 1 ≠ 0 := by omega
    have hle := two_pow_le_of_exponentOf hexponent
    have hpow : 2 ^ (top + 1) ≤ 2 ^ exponentOf num 1 := Nat.pow_le_pow_right (by decide) hlt
    rw [Nat.pow_succ] at hpow
    omega

/-- No number is closer to a natural number of units than the one found. -/
theorem ofValue_natCast_closest (num : Nat) (y : Binary64) :
    (((ofValue num 1).magnitude : ℤ) - num).natAbs ≤ ((y.magnitude : ℤ) - num).natAbs := by
  rw [ofValue_natCast]
  cases h : ofUnits false num 1 with
  | some x =>
    rw [Option.getD_some, magnitude_of_ofUnits h]
    exact significandOf_closest num y
  | none =>
    have hle := largest_le_of_ofUnits h
    have hy := magnitude_le_largest false y
    rw [Option.getD_none]
    omega

/-- No number is closer to an integer of units than the one found. -/
theorem ofValue_closest (v : ℤ) (y : Binary64) :
    ((ofValue v 1).value - v).natAbs ≤ (y.value - v).natAbs := by
  have hnat (num : Nat) (y : Binary64) :
      ((ofValue num 1).value - num).natAbs ≤ (y.value - num).natAbs := by
    rw [value_of_nonneg (negative_ofValue num 1)]
    cases hsign : y.negative with
    | false =>
      rw [value_of_nonneg hsign]
      exact ofValue_natCast_closest num y
    | true =>
      -- zero lies between
      have hzero := ofValue_natCast_closest num zero
      rw [value, hsign, if_pos rfl]
      have : zero.magnitude = 0 := rfl
      omega
  obtain ⟨num, rfl | rfl⟩ := v.eq_nat_or_neg
  · exact hnat num y
  · rcases Nat.eq_zero_or_pos num with rfl | hpos
    · exact hnat 0 y
    · have hneg := hnat num y.neg
      rw [ofValue_neg hpos, value_neg]
      rw [value_neg] at hneg
      omega

end Binary64

/-! ## Numbers in documents -/

namespace JsonNumber

/-- What a number denotes, in units of `2⁻¹⁰⁷⁴`. -/
def value : JsonNumber → ℤ
  | .integer i => i * Binary64.unitsPerOne
  | .float x => x.value

/-- A number as documents show it after it was read from one. -/
def rounded (n : JsonNumber) : JsonNumber :=
  .ofBinary64 n.toBinary64

/-- A number that the format has, to which no number of the format is closer than it is: it is the
same number if the format has it. -/
structure IsClosestTo (m n : JsonNumber) : Prop where
  held : ∃ x : Binary64, m.value = x.value
  closest : ∀ x : Binary64, (m.value - n.value).natAbs ≤ (x.value - n.value).natAbs
  exact : (∃ x : Binary64, n.value = x.value) → m.value = n.value

theorem value_ofBinary64_eq (x : Binary64) : (ofBinary64 x).value = x.value := by
  unfold ofBinary64
  cases hinteger : x.integer? with
  | none => rfl
  | some i =>
    dsimp only
    split_ifs
    · exact (Binary64.value_of_integer? hinteger).symm
    · rfl

theorem toBinary64_closest (n : JsonNumber) (x : Binary64) :
    (n.toBinary64.value - n.value).natAbs ≤ (x.value - n.value).natAbs := by
  cases n with
  | integer i => exact Binary64.ofValue_closest _ x
  | float y =>
    show (y.value - y.value).natAbs ≤ _
    rw [sub_self]
    exact Nat.zero_le _

theorem isClosestTo_rounded (n : JsonNumber) : n.rounded.IsClosestTo n := by
  have hvalue : n.rounded.value = n.toBinary64.value := value_ofBinary64_eq _
  refine ⟨⟨_, hvalue⟩, fun x => ?_, ?_⟩
  · rw [hvalue]
    exact n.toBinary64_closest x
  · rintro ⟨x, hx⟩
    have hclosest := n.toBinary64_closest x
    rw [hvalue]
    omega

end JsonNumber

end CampusQuery
