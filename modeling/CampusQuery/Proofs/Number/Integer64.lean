import Mathlib
import CampusQuery.Proofs.Json.Value
import CampusQuery.Proofs.Number.Closest

/-!
# Numbers as integers of 64 bits

A number is shown as the 64-bit integer that it is converted to, if it is whole and its size is below
the largest such integer, and else as it is. The largest integer, `2 ^ 63 - 1`, is not a number of the
format: the size is compared with the nearest that is, and so the bound is `2 ^ 63`. All whole numbers
below that are 64-bit integers, so what is shown is the number.

* `Binary64.toInt64` — the integer that a number is converted to.
* `Binary64.value_ofInt_maxValue` — the bound.
* `JsonNumber.ofBinary64_eq_ite` — which numbers are shown as the integer they are converted to.
* `JsonNumber.isExact_ofBinary64` — what is shown of a number is the number.
-/

namespace CampusQuery

namespace Binary64

variable {x : Binary64} {i : ℤ}

/-- What a number has beyond its whole part, in units of `2⁻¹⁰⁷⁴` and with its sign. -/
def fraction (x : Binary64) : ℤ :=
  x.value.tmod unitsPerOne

/-- The 64-bit integer that a number is converted to: its whole part, or the nearer end of the range
if that lies beyond. -/
def toInt64 (x : Binary64) : Int64 :=
  Int64.ofIntClamp (x.value.tdiv unitsPerOne)

theorem unitsPerOne_ne_zero : (unitsPerOne : ℤ) ≠ 0 :=
  Int.natCast_ne_zero.mpr unitsPerOne_pos.ne'

theorem toInt64_of_value (h : x.value = i * unitsPerOne) (hlow : -2 ^ 63 ≤ i) (hhigh : i < 2 ^ 63) :
    x.toInt64.toInt = i := by
  rw [toInt64, h, Int.mul_tdiv_cancel i unitsPerOne_ne_zero]
  exact Int64.toInt_ofIntClamp hlow (Int.le_sub_one_of_lt hhigh)

/-- The largest 64-bit integer is no number of the format, and the nearest one is the integer after
it. -/
theorem value_ofInt_maxValue : (ofInt Int64.maxValue.toInt).value = 2 ^ 63 * unitsPerOne := by
  decide +kernel

theorem integer?_eq_some_iff : x.integer? = some i ↔ x.value = i * unitsPerOne := by
  refine ⟨value_of_integer?, fun h => ?_⟩
  have hsize : x.magnitude = i.natAbs * unitsPerOne := by
    have habs : x.value.natAbs = x.magnitude := by
      rw [value]
      split_ifs <;> omega
    rw [← habs, h, Int.natAbs_mul, Int.natAbs_natCast]
  obtain ⟨j, hj⟩ : ∃ j, x.integer? = some j := by
    unfold integer?
    rw [hsize, Nat.mul_mod_left, if_pos rfl]
    exact ⟨_, rfl⟩
  have hij : i = j :=
    mul_right_cancel₀ unitsPerOne_ne_zero (h.symm.trans (value_of_integer? hj))
  rw [hj, hij]

theorem fraction_eq_zero_iff : x.fraction = 0 ↔ ∃ i : ℤ, x.value = i * unitsPerOne := by
  rw [fraction, ← Int.dvd_iff_tmod_eq_zero, dvd_iff_exists_eq_mul_left]

end Binary64

namespace JsonNumber

open Binary64

variable {x y : Binary64}

theorem ofBinary64_eq_integer_iff {i : ℤ} :
    ofBinary64 x = .integer i ↔ |i| < 2 ^ 63 ∧ x.value = i * unitsPerOne := by
  have hsmall (j : ℤ) : j.natAbs < Nat.pow 2 63 ↔ |j| < 2 ^ 63 := by
    rw [Int.abs_eq_natAbs, Nat.pow_eq]
    omega
  rw [← integer?_eq_some_iff]
  unfold ofBinary64
  cases hinteger : x.integer? with
  | none => simp
  | some j =>
    dsimp only
    split_ifs with hj
    · rw [integer.injEq, Option.some.injEq]
      exact ⟨fun h => ⟨h ▸ (hsmall j).mp hj, h⟩, fun h => h.2⟩
    · refine iff_of_false (fun h => by cases h) fun h => hj ((hsmall j).mpr ?_)
      exact Option.some.inj h.2 ▸ h.1

theorem ofBinary64_eq_float_iff :
    ofBinary64 x = .float y ↔
      y = x ∧ ∀ i : ℤ, x.value = i * unitsPerOne → 2 ^ 63 ≤ |i| := by
  cases hshown : ofBinary64 x with
  | integer j =>
    obtain ⟨hj, hvalue⟩ := ofBinary64_eq_integer_iff.mp hshown
    refine iff_of_false (by simp) fun h => ?_
    exact absurd hj (not_lt.mpr (h.2 j hvalue))
  | float z =>
    have hz : z = x := by
      unfold ofBinary64 at hshown
      split at hshown
      · split_ifs at hshown
        exact (float.inj hshown).symm
      · exact (float.inj hshown).symm
    rw [hz, float.injEq, eq_comm]
    refine (and_iff_left fun i hi => not_lt.mp fun hlt => ?_).symm
    rw [ofBinary64_eq_integer_iff.mpr ⟨hlt, hi⟩] at hshown
    cases hshown

/-- Whether a number is shown as an integer is told by its fraction and the bound. -/
theorem fraction_and_size_iff :
    x.fraction = 0 ∧ |x.value| < (ofInt Int64.maxValue.toInt).value ↔
      ∃ i : ℤ, |i| < 2 ^ 63 ∧ x.value = i * unitsPerOne := by
  have hpos : (0 : ℤ) < unitsPerOne := Int.natCast_pos.mpr unitsPerOne_pos
  have hsize {i : ℤ} (h : x.value = i * unitsPerOne) :
      |x.value| < (ofInt Int64.maxValue.toInt).value ↔ |i| < 2 ^ 63 := by
    rw [value_ofInt_maxValue, h, abs_mul, abs_of_pos hpos, mul_lt_mul_iff_left₀ hpos]
  rw [fraction_eq_zero_iff]
  constructor
  · rintro ⟨⟨i, hi⟩, hlt⟩
    exact ⟨i, (hsize hi).mp hlt, hi⟩
  · rintro ⟨i, hlt, hi⟩
    exact ⟨⟨i, hi⟩, (hsize hi).mpr hlt⟩

/-- A number without a fraction that is below the bound is shown as the integer that it is converted
to, and any other as it is. -/
theorem ofBinary64_eq_ite (x : Binary64) :
    ofBinary64 x =
      if x.fraction = 0 ∧ |x.value| < (ofInt Int64.maxValue.toInt).value then
        .integer x.toInt64.toInt
      else .float x := by
  split_ifs with h
  · obtain ⟨i, hlt, hi⟩ := fraction_and_size_iff.mp h
    have hbounds := abs_lt.mp hlt
    rw [toInt64_of_value hi hbounds.1.le hbounds.2]
    exact ofBinary64_eq_integer_iff.mpr ⟨hlt, hi⟩
  · refine ofBinary64_eq_float_iff.mpr ⟨rfl, fun i hi => not_lt.mp fun hlt => h ?_⟩
    exact fraction_and_size_iff.mpr ⟨i, hlt, hi⟩

-- the bound itself would be converted to the integer before it
example : (ofInt Int64.maxValue.toInt).toInt64.toInt = 2 ^ 63 - 1 := by decide +kernel

/-- What is shown of a number: an integer just if the number is whole and less than `2 ^ 63` in size,
and then the very integer to which it is converted; else the number as it is. -/
structure IsExact (n : JsonNumber) (x : Binary64) : Prop where
  value : n.value = x.value
  integer : ∀ i, n = .integer i ↔ |i| < 2 ^ 63 ∧ x.value = i * unitsPerOne
  converted : ∀ i, n = .integer i → x.toInt64.toInt = i
  float : ∀ y, n = .float y ↔ y = x ∧ ∀ i : ℤ, x.value = i * unitsPerOne → 2 ^ 63 ≤ |i|

theorem isExact_ofBinary64 (x : Binary64) : (ofBinary64 x).IsExact x where
  value := value_ofBinary64_eq x
  integer _ := ofBinary64_eq_integer_iff
  converted i h := by
    obtain ⟨hlt, hi⟩ := ofBinary64_eq_integer_iff.mp h
    exact toInt64_of_value hi (abs_lt.mp hlt).1.le (abs_lt.mp hlt).2
  float _ := ofBinary64_eq_float_iff

/-- What is read back of numbers is in the order of the numbers. -/
theorem order_toBinary64 (x y : Binary64) :
    (ofBinary64 x).toBinary64.order (ofBinary64 y).toBinary64 = x.order y := by
  rw [order, order, value_ofBinary64, value_ofBinary64]

theorem isStorable_ofBinary64 (depth : Nat) (x : Binary64) :
    (Json.number (ofBinary64 x)).IsStorable depth := by
  cases hshown : ofBinary64 x with
  | integer i =>
    have hbounds := abs_lt.mp (ofBinary64_eq_integer_iff.mp hshown).1
    have hi : Json.IsMachineInteger i := ⟨hbounds.1.le, by omega⟩
    cases depth <;> exact hi
  | float y => cases depth <;> trivial

end JsonNumber

end CampusQuery
