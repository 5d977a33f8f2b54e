import Mathlib
import CampusQuery.Json.Reader

/-!
# Decimal digits

What is written of a natural number in decimal digits, filled up with zeros or not, and the number
that digits denote.

* `head?_toDigits_ne_zero` — a positive number is written without a leading zero.
* `ofDigitChars_append_zeros` — zeros at the end multiply by a power of ten.
* `Numeral.digitsValue_map`, `Instant.digitsValue_eq` — the readers of digits find the same number.
-/

namespace CampusQuery

theorem toList_pushn (s : String) (c : Char) (n : Nat) :
    (s.pushn c n).toList = s.toList ++ List.replicate n c := by
  rw [String.pushn_eq_repeat_push]
  induction n with
  | zero => simp [Nat.repeat]
  | succ n ih => simp [Nat.repeat, ih, List.replicate_succ']

theorem head?_toDigits_ne_zero {n : Nat} (h : n ≠ 0) : (Nat.toDigits 10 n).head? ≠ some '0' := by
  induction n using Nat.strong_induction_on with
  | _ n ih =>
    by_cases hlt : n < 10
    · simpa [Nat.toDigits_of_lt_base hlt] using h
    · have hhead := ih (n / 10) (by omega) (by omega)
      rw [Nat.toDigits_of_base_le (by decide) (by omega), List.head?_append]
      cases hdigits : (Nat.toDigits 10 (n / 10)).head? with
      | none => simp at hdigits
      | some c => rwa [hdigits] at hhead

theorem isDigit_of_mem_toDigits {n : Nat} {c : Char} (h : c ∈ Nat.toDigits 10 n) : c.isDigit = true :=
  Nat.isDigit_of_mem_toDigits (by decide) (by decide) h

theorem length_toDigits_le {n k : Nat} (hk : 0 < k) (h : n < 10 ^ k) :
    (Nat.toDigits 10 n).length ≤ k :=
  (Nat.length_toDigits_le_iff (by decide) hk).mpr h

theorem ofDigitChars_append_zeros (cs : List Char) (k : Nat) :
    Nat.ofDigitChars 10 (cs ++ List.replicate k '0') 0 = Nat.ofDigitChars 10 cs 0 * 10 ^ k := by
  rw [Nat.ofDigitChars_append, Nat.ofDigitChars_replicate_zero, Nat.mul_comm]

theorem ofDigitChars_zeros_append (k : Nat) (cs : List Char) :
    Nat.ofDigitChars 10 (List.replicate k '0' ++ cs) 0 = Nat.ofDigitChars 10 cs 0 := by
  rw [Nat.ofDigitChars_append, Nat.ofDigitChars_replicate_zero, Nat.mul_zero]

/-! ## Bytes -/

theorem toNat_of_isDigit {c : Char} (h : c.isDigit = true) : 48 ≤ c.toNat ∧ c.toNat ≤ 57 := by
  simpa [Char.isDigit, UInt32.le_iff_toNat_le] using h

theorem toNat_toUInt8 {c : Char} (h : c.toNat < 256) : c.toUInt8.toNat = c.toNat :=
  Nat.mod_eq_of_lt h

namespace Json

theorem isDigit_toUInt8 {c : Char} (h : c.isDigit = true) : isDigit c.toUInt8 = true := by
  have hc := toNat_of_isDigit h
  have hbyte := toNat_toUInt8 (c := c) (by omega)
  simp only [isDigit, Bool.and_eq_true, decide_eq_true_eq, UInt8.le_iff_toNat_le, hbyte]
  exact hc

/-- The bytes of decimal digits. -/
theorem isDigit_of_mem_map {cs : List Char} (h : ∀ c ∈ cs, c.isDigit = true) :
    ∀ b ∈ cs.map Char.toUInt8, isDigit b = true := by
  simp only [List.mem_map, forall_exists_index, and_imp, forall_apply_eq_imp_iff₂]
  exact fun c hc => isDigit_toUInt8 (h c hc)

end Json

namespace Numeral

theorem digitValue_toUInt8 {c : Char} (h : c.isDigit = true) :
    digitValue c.toUInt8 = c.toNat - '0'.toNat := by
  rw [digitValue, toNat_toUInt8 (by have := toNat_of_isDigit h; omega)]

theorem digitsValue_map {cs : List Char} (h : ∀ c ∈ cs, c.isDigit = true) :
    digitsValue (cs.map Char.toUInt8) = Nat.ofDigitChars 10 cs 0 := by
  rw [digitsValue, List.foldl_map, Nat.ofDigitChars_eq_foldl]
  refine List.foldl_ext _ _ _ fun n c hc => ?_
  rw [digitValue_toUInt8 (h c hc), Nat.mul_comm]

/-- Digits behind a number make it no smaller. -/
theorem le_foldl (digits : List UInt8) (n : Nat) :
    n ≤ digits.foldl (fun n c => n * 10 + digitValue c) n := by
  induction digits generalizing n with
  | nil => exact le_rfl
  | cons c digits ih =>
    have hnext : n ≤ n * 10 + digitValue c := by omega
    exact hnext.trans (ih _)

/-- Digits that 64 bits hold all count. -/
theorem takeDigits_of_lt {digits : List UInt8} {n : Nat}
    (h : digits.foldl (fun n c => n * 10 + digitValue c) n < Nat.pow 2 64) :
    takeDigits n digits = (digits.foldl (fun n c => n * 10 + digitValue c) n, []) := by
  induction digits generalizing n with
  | nil => rfl
  | cons c digits ih =>
    rw [takeDigits, if_pos (Nat.lt_of_le_of_lt (le_foldl digits _) h)]
    exact ih h

variable {a : Numeral}

/-- The number that is read of a numeral with few digits. -/
theorem toBinary64?_of_lt (h : digitsValue (a.whole ++ a.fraction) < Nat.pow 2 64) :
    a.toBinary64? = (Binary64.ofInt (digitsValue (a.whole ++ a.fraction) : Nat)).scaled?
      (a.exponent.getD 0 - a.fraction.length) := by
  have hwhole : takeDigits 0 a.whole = (digitsValue a.whole, []) := by
    refine takeDigits_of_lt (Nat.lt_of_le_of_lt ?_ h)
    rw [digitsValue, List.foldl_append]
    exact le_foldl a.fraction _
  have hall : takeDigits (digitsValue a.whole) a.fraction =
      (digitsValue (a.whole ++ a.fraction), []) := by
    rw [digitsValue, List.foldl_append] at h
    rw [digitsValue, digitsValue, List.foldl_append]
    exact takeDigits_of_lt h
  simp only [toBinary64?, significand, power, hwhole, hall, List.length_nil]
  congr 1
  omega

end Numeral

theorem Instant.digitsValue_eq (cs : List Char) :
    Instant.digitsValue cs = Nat.ofDigitChars 10 cs 0 := by
  rw [Instant.digitsValue, Nat.ofDigitChars_eq_foldl]
  exact List.foldl_ext _ _ _ fun n c _ => by rw [Nat.mul_comm]

end CampusQuery
