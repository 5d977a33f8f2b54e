import Mathlib
import CampusQuery.Proofs.Number.Decimal

/-!
# From decimals to numbers

`Decimal.toBinary64` puts a whole part and a fraction together in binary, and takes the noise of the
sum away by rounding at the places of the decimal. Up to `2 ^ 45` and with at most two places the
noise is less than half a step of these places, and the number found is the nearest to the decimal.
Above, the noise can reach a step, and the number found depends on how many places the decimal has.

* `Decimal.nearest` — the number nearest to a decimal.
* `assembled_eq` — the noise, step by step: one error for each of the fraction, the sum and the
  product.
* `Decimal.toBinary64_eq_nearest` — up to `2 ^ 45` the nearest number is found.
-/

namespace CampusQuery

open Binary64

/-- What `Decimal.toBinary64` makes of the size `n / p` of a decimal with places. -/
def assembled (n p : Nat) : Binary64 :=
  let whole := ofInt (n / p : Nat)
  let rest := ofInt (n % p : Nat)
  let power := ofInt p
  let fraction := rest.div power
  if fraction.magnitude = 0 then whole
  else ((whole.add fraction).mul power).roundHalfAway.div power

section Noise

/-! ### In steps of `2 ^ j` units, of which `2 ^ 53` make one -/

variable {j n p i r : Nat} (hj : 53 + j = 1074)
include hj

theorem unitsPerOne_eq_steps : unitsPerOne = 2 ^ 53 * 2 ^ j := by
  rw [unitsPerOne_eq, ← hj, Nat.pow_add]

/-- The first error: the fraction is found to half a step. -/
theorem isClose_fraction (hp : 0 < p) (hr : r < p) :
    (ofValue ((r * unitsPerOne : Nat) : Int) p).IsClose (r * unitsPerOne) p j := by
  refine isClose_ofValue hp (by omega) ?_
  rw [unitsPerOne_eq_steps hj, Nat.pow_add, Nat.mul_comm]
  exact Nat.mul_lt_mul_of_pos_left hr (Nat.mul_pos (by decide) (Nat.two_pow_pos j))

/-- The second error: the sum is found to half of `2 ^ 45` steps. -/
theorem isClose_sum {f : Binary64} (hf : f.negative = false) (hi : i < 2 ^ 45)
    (hlt : f.magnitude < unitsPerOne) :
    ((ofInt i).add f).IsClose (i * unitsPerOne + f.magnitude) 1 (j + 45) ∧
      ((ofInt i).add f).negative = false := by
  rw [add_of_nonneg (negative_ofInt i) hf, magnitude_ofInt (hi.trans (by decide))]
  refine ⟨isClose_ofValue (by decide) (by omega) ?_, negative_ofValue _ _⟩
  calc i * unitsPerOne + f.magnitude < (i + 1) * unitsPerOne := by
        rw [Nat.add_mul]
        omega
    _ ≤ 2 ^ 45 * unitsPerOne := Nat.mul_le_mul_right _ hi
    _ = 2 ^ (53 + (j + 45)) * 1 := by
        rw [unitsPerOne_eq_steps hj, Nat.pow_add, Nat.pow_add]
        ring

/-- The third error: the product is found to half of `2 ^ 52` steps. -/
theorem isClose_product {m : Binary64} (hm : m.negative = false) (hp : p < 2 ^ 53)
    (hlt : m.magnitude * p < 2 ^ 52 * unitsPerOne) :
    (m.mul (ofInt p)).IsClose (m.magnitude * p) 1 (j + 52) ∧
      (m.mul (ofInt p)).negative = false := by
  have hproduct : m.mul (ofInt p) = ofValue ((m.magnitude * p : Nat) : Int) 1 := by
    rw [mul_of_nonneg hm (negative_ofInt p), magnitude_ofInt hp]
    exact ofValue_congr unitsPerOne_pos (by decide) (by ring)
  rw [hproduct]
  refine ⟨isClose_ofValue (by decide) (by omega) ?_, negative_ofValue _ _⟩
  calc m.magnitude * p < 2 ^ 52 * unitsPerOne := hlt
    _ = 2 ^ (53 + (j + 52)) * 1 := by
        rw [unitsPerOne_eq_steps hj, Nat.pow_add, Nat.pow_add]
        ring

/-- The three errors together are less than half of one. -/
theorem errors_lt {f m q : Nat} (hp : p = 10 ∨ p = 100)
    (hf : 2 * (f * p) ≤ 2 * (r * unitsPerOne) + 2 ^ j * p ∧
      2 * (r * unitsPerOne) ≤ 2 * (f * p) + 2 ^ j * p)
    (hm : 2 * m ≤ 2 * (i * unitsPerOne + f) + 2 ^ (j + 45) ∧
      2 * (i * unitsPerOne + f) ≤ 2 * m + 2 ^ (j + 45))
    (hq : 2 * q ≤ 2 * (m * p) + 2 ^ (j + 52) ∧ 2 * (m * p) ≤ 2 * q + 2 ^ (j + 52)) :
    2 * ((i * p + r) * unitsPerOne) < 2 * q + unitsPerOne ∧
      2 * q < 2 * ((i * p + r) * unitsPerOne) + unitsPerOne := by
  have hstep := Nat.two_pow_pos j
  have hunits := unitsPerOne_eq_steps hj
  have hsize : (i * p + r) * unitsPerOne = i * unitsPerOne * p + r * unitsPerOne := by ring
  rw [Nat.pow_add] at hm hq
  rw [hsize]
  generalize i * unitsPerOne = whole at *
  generalize r * unitsPerOne = rest at *
  rw [hunits]
  generalize 2 ^ j = step at *
  rcases hp with rfl | rfl <;> omega

/-- A fraction is below one, and zero only if there is no rest. -/
theorem fraction_bounds {f : Nat} (hp : p = 10 ∨ p = 100) (hr : r < p) (hne : r ≠ 0)
    (hf : 2 * (f * p) ≤ 2 * (r * unitsPerOne) + 2 ^ j * p ∧
      2 * (r * unitsPerOne) ≤ 2 * (f * p) + 2 ^ j * p) :
    f ≠ 0 ∧ f < unitsPerOne := by
  have hstep := Nat.two_pow_pos j
  have hunits := unitsPerOne_eq_steps hj
  have hlow : 1 * unitsPerOne ≤ r * unitsPerOne :=
    Nat.mul_le_mul_right _ (Nat.one_le_iff_ne_zero.mpr hne)
  have hhigh : r * unitsPerOne ≤ (p - 1) * unitsPerOne := Nat.mul_le_mul_right _ (by omega)
  generalize r * unitsPerOne = rest at *
  generalize unitsPerOne = units at *
  generalize 2 ^ j = step at *
  rcases hp with rfl | rfl <;> omega

/-- A size up to `2 ^ 45` has fewer than `2 ^ 52` steps of its last place. -/
theorem product_lt {f m : Nat} (hp : p = 10 ∨ p = 100) (hi : i < 2 ^ 45) (hlt : f < unitsPerOne)
    (hm : 2 * m ≤ 2 * (i * unitsPerOne + f) + 2 ^ (j + 45)) :
    m * p < 2 ^ 52 * unitsPerOne := by
  have hunits := unitsPerOne_eq_steps hj
  have hstep := Nat.two_pow_pos j
  have hwhole : i * unitsPerOne ≤ (2 ^ 45 - 1) * unitsPerOne := Nat.mul_le_mul_right _ (by omega)
  rw [Nat.pow_add] at hm
  generalize i * unitsPerOne = whole at *
  generalize unitsPerOne = units at *
  generalize 2 ^ j = step at *
  rcases hp with rfl | rfl <;> omega

end Noise

/-- Up to `2 ^ 45` the noise does not show. -/
theorem assembled_eq {n p : Nat} (hp : p = 10 ∨ p = 100) (h : n ≤ 2 ^ 45 * p) :
    assembled n p = ofValue ((n * unitsPerOne : Nat) : Int) p := by
  obtain ⟨j, hj⟩ : ∃ j, 53 + j = 1074 := ⟨1021, rfl⟩
  have hpos : 0 < p := by omega
  have hpower : p < 2 ^ 53 := by omega
  have hn : n < 2 ^ 53 := by omega
  have hrest := Nat.mod_lt n hpos
  have hdiv : n / p * p + n % p = n := Nat.div_add_mod' n p
  unfold assembled
  dsimp only
  rw [div_ofInt (hrest.trans hpower) hpos hpower]
  generalize n / p = i at *
  generalize n % p = r at *
  by_cases hr : r = 0
  · -- without a rest the whole part is all
    have hzero : (ofValue ((r * unitsPerOne : Nat) : Int) p).magnitude = 0 := by
      rw [hr, Nat.zero_mul, ofValue_zero hpos]
      rfl
    rw [if_pos hzero, ofInt_natCast]
    exact ofValue_congr (by decide) hpos (by rw [← hdiv, hr]; ring)
  · have hi : i < 2 ^ 45 := by
      apply Nat.lt_of_mul_lt_mul_right (a := p)
      omega
    obtain ⟨hlow, hhigh⟩ := isClose_fraction hj hpos hrest
    have hsign := negative_ofValue (r * unitsPerOne) p
    generalize ofValue ((r * unitsPerOne : Nat) : Int) p = f at *
    obtain ⟨hne, hlt⟩ := fraction_bounds hj hp hrest hr ⟨hlow, hhigh⟩
    obtain ⟨⟨hlowSum, hhighSum⟩, hsignSum⟩ := isClose_sum hj hsign hi hlt
    rw [if_neg hne]
    generalize (ofInt i).add f = m at *
    rw [Nat.mul_one, Nat.mul_one] at hlowSum hhighSum
    have hproduct := product_lt hj hp hi hlt hlowSum
    obtain ⟨⟨hlowProduct, hhighProduct⟩, hsignProduct⟩ := isClose_product hj hsignSum hpower hproduct
    rw [Nat.mul_one, Nat.mul_one] at hlowProduct hhighProduct
    generalize m.mul (ofInt p) = q at *
    obtain ⟨hbelow, habove⟩ := errors_lt hj hp ⟨hlow, hhigh⟩ ⟨hlowSum, hhighSum⟩
      ⟨hlowProduct, hhighProduct⟩
    rw [hdiv] at hbelow habove
    rw [roundHalfAway_of_nonneg hsignProduct, divRound_eq_of_lt hbelow habove,
      div_ofInt hn hpos hpower]

namespace Decimal

variable {a b : Decimal}

/-- The number nearest to a decimal. -/
def nearest (a : Decimal) : Binary64 :=
  let size := ofValue ((a.size * unitsPerOne : Nat) : Int) (10 ^ a.scale)
  if a.isNegative then size.neg else size

theorem nearest_congr (h : a.value = b.value) : a.nearest = b.nearest := by
  have hsize : ofValue ((a.size * unitsPerOne : Nat) : Int) (10 ^ a.scale) =
      ofValue ((b.size * unitsPerOne : Nat) : Int) (10 ^ b.scale) := by
    refine ofValue_congr (nat_ten_pow_pos _) (nat_ten_pow_pos _) ?_
    rw [Nat.mul_right_comm, size_mul_congr h, Nat.mul_right_comm]
  rw [nearest, nearest, hsize, isNegative_congr h]

theorem ofInt_coefficient (a : Decimal) :
    ofInt a.coefficient = if a.isNegative then (ofInt a.size).neg else ofInt a.size := by
  unfold isNegative Decimal.size
  by_cases h : a.coefficient < 0
  · have hsize : a.coefficient = -(a.coefficient.natAbs : Int) := by omega
    have hpos : 0 < a.coefficient.natAbs * unitsPerOne := Nat.mul_pos (by omega) unitsPerOne_pos
    rw [decide_eq_true h, if_pos rfl, ofInt_natCast, ← ofValue_neg hpos, ofInt, Int.natCast_mul,
      ← Int.neg_mul, ← hsize]
  · have hsize : a.coefficient = (a.coefficient.natAbs : Int) := by omega
    rw [decide_eq_false h, if_neg (by decide), ← hsize]

/-- A decimal of at most two places and a size up to `2 ^ 45` becomes the number nearest to it. -/
theorem toBinary64_eq_nearest (hscale : a.scale ≤ 2) (hsize : |a.value| ≤ 2 ^ 45) :
    a.toBinary64 = a.nearest := by
  have hle : a.size ≤ 2 ^ 45 * 10 ^ a.scale := by
    rw [abs_value, div_le_iff₀ (ten_pow_pos _)] at hsize
    exact_mod_cast hsize
  by_cases hzero : a.scale = 0
  · have hsize : ofValue ((a.size * unitsPerOne : Nat) : Int) (10 ^ a.scale) = ofInt a.size := by
      rw [hzero, ofInt_natCast, Nat.pow_zero]
    rw [nearest, hsize, toBinary64, if_pos hzero, ofInt_coefficient]
  · have hp : 10 ^ a.scale = 10 ∨ 10 ^ a.scale = 100 := by
      rcases (by omega : a.scale = 1 ∨ a.scale = 2) with h | h <;> rw [h]
      · exact .inl rfl
      · exact .inr rfl
    have hassembled : a.toBinary64 =
        if a.isNegative then (assembled a.size (10 ^ a.scale)).neg
        else assembled a.size (10 ^ a.scale) := by
      rw [toBinary64, if_neg hzero]
      simp [isNegative, assembled, Decimal.size]
    rw [hassembled, assembled_eq hp hle, nearest]

end Decimal

end CampusQuery
