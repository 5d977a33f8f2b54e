import Mathlib
import CampusQuery.Json.Value
import CampusQuery.Proofs.Number.Quotient

/-!
# Whole numbers in documents

Documents show a whole number as an integer. The integer is the number: nothing is lost when it is
read back, but for the sign of zero.

* `Binary64.value_ofInt` — an integer that is the value of a number is read as a number of it.
* `JsonNumber.value_ofBinary64` — a number as documents show it has the value of the number.
-/

namespace CampusQuery

namespace Binary64

variable {x : Binary64}

theorem value_neg (x : Binary64) : x.neg.value = -x.value := by
  unfold value neg magnitude
  cases x.negative <;> simp

theorem value_ofValue (x : Binary64) : (ofValue x.value 1).value = x.value := by
  cases hsign : x.negative with
  | false => rw [value_of_nonneg hsign, ofValue_magnitude hsign, value_of_nonneg hsign]
  | true =>
    -- a number below zero is the opposite of one that is not
    have hneg : x.neg.negative = false := by rw [neg, hsign]; rfl
    have hvalue : x.value = -(x.neg.magnitude : Int) := by
      rw [← value_of_nonneg hneg, value_neg, neg_neg]
    rcases Nat.eq_zero_or_pos x.neg.magnitude with hzero | hpos
    · rw [hvalue, hzero, Nat.cast_zero, neg_zero]
      exact congrArg value (ofValue_zero Nat.one_pos)
    · rw [hvalue, ofValue_neg hpos, ofValue_magnitude hneg, value_neg, value_of_nonneg hneg]

/-- A number is an integer if it is a multiple of one. -/
theorem value_of_integer? {i : Int} (h : x.integer? = some i) : x.value = i * unitsPerOne := by
  unfold integer? at h
  split at h
  · rename_i hwhole
    have hmagnitude : (x.magnitude : Int) = (x.magnitude / unitsPerOne : Nat) * unitsPerOne := by
      exact_mod_cast (Nat.div_mul_cancel (Nat.dvd_of_mod_eq_zero hwhole)).symm
    rw [← Option.some.inj h, value]
    split_ifs
    · rw [Int.neg_mul, ← hmagnitude]
    · exact hmagnitude
  · cases h

theorem value_ofInt {i : Int} (h : x.value = i * unitsPerOne) : (ofInt i).value = x.value := by
  rw [ofInt, ← h, value_ofValue]

end Binary64

/-- A number as documents show it has the value of the number. -/
theorem JsonNumber.value_ofBinary64 (x : Binary64) :
    (JsonNumber.ofBinary64 x).toBinary64.value = x.value := by
  unfold JsonNumber.ofBinary64
  cases hinteger : x.integer? with
  | none => rfl
  | some i =>
    dsimp only
    split_ifs
    · exact Binary64.value_ofInt (Binary64.value_of_integer? hinteger)
    · rfl

end CampusQuery
