import Mathlib
import CampusQuery.Number.Decimal
import CampusQuery.Proofs.Number.Quotient

/-!
# Decimals by their values

A decimal stands for a rational number, and one number has several decimals, which differ in their
places. What is computed from decimals depends on the numbers alone, up to the places of the result.

* `Decimal.value` — the number that a decimal stands for; `Binary64.written` — the one that the
  plain written form of a number stands for.
* `Decimal.value_ofBinary64`, `Decimal.value_add` — readings and sums that fit are exact.
* `Decimal.divNat?_congr`, `Decimal.roundTo_congr` — decimals of one value have quotients and
  roundings of one value.
-/

namespace CampusQuery

/-- A number or its opposite. -/
def signed (negative : Bool) (q : ℚ) : ℚ :=
  if negative then -q else q

theorem abs_signed {negative : Bool} {q : ℚ} (hq : 0 ≤ q) : |signed negative q| = q := by
  cases negative
  · exact abs_of_nonneg hq
  · exact (abs_neg q).trans (abs_of_nonneg hq)

theorem signed_div (negative : Bool) (q r : ℚ) : signed negative (q / r) = signed negative q / r := by
  cases negative
  · rfl
  · exact (neg_div r q).symm

theorem signed_mul (negative : Bool) (q r : ℚ) : signed negative (q * r) = signed negative q * r := by
  cases negative
  · rfl
  · exact (neg_mul q r).symm

theorem abs_signed_sub_signed (negative : Bool) (q r : ℚ) :
    |signed negative q - signed negative r| = |q - r| := by
  cases negative
  · rfl
  · show |-q - -r| = |q - r|
    rw [neg_sub_neg, abs_sub_comm]

theorem signed_natAbs (i : Int) : signed (i < 0) (i.natAbs : ℚ) = i := by
  rw [Nat.cast_natAbs, Int.cast_abs]
  unfold signed
  by_cases h : i < 0
  · have hcast : (i : ℚ) < 0 := by exact_mod_cast h
    rw [decide_eq_true h, if_pos rfl, abs_of_neg hcast, neg_neg]
  · have hcast : (0 : ℚ) ≤ i := by exact_mod_cast not_lt.mp h
    rw [decide_eq_false h, if_neg (by decide), abs_of_nonneg hcast]

namespace Decimal

/-- The number that a decimal stands for. -/
def value (a : Decimal) : ℚ :=
  a.coefficient / 10 ^ a.scale

/-- Whether a decimal is below zero. -/
def isNegative (a : Decimal) : Bool :=
  a.coefficient < 0

/-- The digits of a decimal. -/
def size (a : Decimal) : Nat :=
  a.coefficient.natAbs

variable {a b d : Decimal} {negative : Bool} {tie : Tie} {num den num' den' size scale s m q : Nat}

theorem ten_pow_pos (n : Nat) : (0 : ℚ) < 10 ^ n :=
  pow_pos (by norm_num) n

theorem nat_ten_pow_pos (n : Nat) : 0 < 10 ^ n :=
  Nat.pow_pos (by decide)

theorem size_lt (a : Decimal) : a.size < 2 ^ 96 :=
  a.coefficient_lt

theorem value_eq_signed (a : Decimal) : a.value = signed a.isNegative (a.size / 10 ^ a.scale) := by
  rw [signed_div, isNegative, Decimal.size, signed_natAbs, value]

theorem abs_value (a : Decimal) : |a.value| = a.size / 10 ^ a.scale := by
  rw [value_eq_signed, abs_signed (by positivity)]

theorem isNegative_eq (a : Decimal) : a.isNegative = decide (a.value < 0) := by
  unfold isNegative value
  rw [decide_eq_decide, div_neg_iff]
  constructor
  · intro h
    exact .inr ⟨by exact_mod_cast h, ten_pow_pos _⟩
  · rintro (⟨-, h⟩ | ⟨h, -⟩)
    · exact absurd h (not_lt.mpr (ten_pow_pos _).le)
    · exact_mod_cast h

theorem isNegative_congr (h : a.value = b.value) : a.isNegative = b.isNegative := by
  rw [isNegative_eq, isNegative_eq, h]

/-- Decimals of one value have sizes that are in the ratio of their scales. -/
theorem size_mul_congr (h : a.value = b.value) :
    a.size * 10 ^ b.scale = b.size * 10 ^ a.scale := by
  have habs := congrArg abs h
  rw [abs_value, abs_value, div_eq_div_iff (ten_pow_pos _).ne' (ten_pow_pos _).ne'] at habs
  exact_mod_cast habs

theorem exists_ofParts? (negative : Bool) (hsize : size < 2 ^ 96) (hscale : scale ≤ 28) :
    ∃ d, ofParts? negative size scale = some d ∧ d.scale = scale ∧
      d.value = signed negative (size / 10 ^ scale) := by
  refine ⟨_, dif_pos ⟨hsize, hscale⟩, rfl, ?_⟩
  unfold value signed
  cases negative
  · simp
  · simp [neg_div]

/-! ## As many places as fit -/

theorem fit?_congr (hden : 0 < den) (hden' : 0 < den') (h : num * den' = num' * den) :
    fit? tie negative num den s = fit? tie negative num' den' s := by
  induction s with
  | zero => rw [fit?, fit?, divRound_congr hden hden' h]
  | succ s ih =>
    rw [fit?, fit?, ih, divRound_congr hden hden']
    rw [Nat.mul_right_comm, h, Nat.mul_right_comm]

/-- A quotient whose whole part fits is kept at the most places at which it fits. -/
theorem exists_fit? (negative : Bool) (h : divRound tie num den < 2 ^ 96) (hs : s ≤ 28) :
    ∃ d, fit? tie negative num den s = some d ∧ d.scale ≤ s ∧
      d.value = signed negative (divRound tie (num * 10 ^ d.scale) den / 10 ^ d.scale) ∧
      ∀ m, d.scale < m → m ≤ s → 2 ^ 96 ≤ divRound tie (num * 10 ^ m) den := by
  induction s with
  | zero =>
    obtain ⟨d, hd, hscale, hvalue⟩ := exists_ofParts? negative h hs
    refine ⟨d, hd, hscale.le, ?_, fun m _ _ => by omega⟩
    rw [hvalue, hscale, Nat.pow_zero, Nat.mul_one]
  | succ s ih =>
    by_cases hfits : divRound tie (num * 10 ^ (s + 1)) den < 2 ^ 96
    · obtain ⟨d, hd, hscale, hvalue⟩ := exists_ofParts? negative hfits hs
      refine ⟨d, ?_, hscale.le, by rw [hvalue, hscale], fun m _ _ => by omega⟩
      rw [fit?, Nat.pow_eq, hd]
      rfl
    · obtain ⟨d, hd, hscale, hvalue, hmost⟩ := ih (by omega)
      refine ⟨d, ?_, by omega, hvalue, fun m hm hms => ?_⟩
      · have hnone : ofParts? negative (divRound tie (num * 10 ^ (s + 1)) den) (s + 1) = none :=
          dif_neg fun h => hfits h.1
        rw [fit?, Nat.pow_eq, hnone]
        exact hd
      · rcases Nat.lt_or_eq_of_le hms with hlt | rfl
        · exact hmost m hm (by omega)
        · exact Nat.le_of_not_lt hfits

/-- A quotient that is exact at some number of places, and fits there, is exact. -/
theorem exists_fit?_of_exact (negative : Bool) (hden : 0 < den) (h : num * 10 ^ m = q * den)
    (hq : q < 2 ^ 96) (hm : m ≤ s) (hs : s ≤ 28) :
    ∃ d, fit? tie negative num den s = some d ∧ d.scale ≤ s ∧
      d.value = signed negative (q / 10 ^ m) := by
  have hwhole : divRound tie num den ≤ q := by
    refine divRound_le_of_le hden ?_
    rw [← h]
    exact Nat.le_mul_of_pos_right num (nat_ten_pow_pos m)
  obtain ⟨d, hd, hscale, hvalue, hmost⟩ := exists_fit? negative (lt_of_le_of_lt hwhole hq) hs
  refine ⟨d, hd, hscale, ?_⟩
  have hle : m ≤ d.scale := by
    by_contra hlt
    have hbig := hmost m (by omega) hm
    rw [h, divRound_mul_right tie q hden] at hbig
    omega
  obtain ⟨k, hk⟩ := Nat.exists_eq_add_of_le hle
  have hexact : num * 10 ^ d.scale = q * 10 ^ k * den := by
    rw [hk, Nat.pow_add, ← Nat.mul_assoc, h, Nat.mul_right_comm]
  rw [hvalue, hexact, divRound_mul_right tie _ hden, hk, pow_add, Nat.cast_mul, Nat.cast_pow,
    Nat.cast_ofNat, mul_div_mul_right _ _ (ten_pow_pos k).ne']

/-- The whole part of a quotient of a decimal fits. -/
theorem divRound_size_lt (tie : Tie) (a : Decimal) (hden : 0 < den) :
    divRound tie a.size den < 2 ^ 96 :=
  lt_of_le_of_lt (divRound_le_of_le hden (Nat.le_mul_of_pos_right _ hden)) a.size_lt

/-! ## Reading -/

theorem keptPlaces_eq {digits places n : Nat} (hdigits : digits < 2 ^ 96) (hplaces : places ≤ n) :
    keptPlaces digits places n = places := by
  induction n with
  | zero => exact (Nat.le_zero.mp hplaces).symm
  | succ n ih =>
    rcases Nat.lt_or_eq_of_le hplaces with hlt | rfl
    · rw [keptPlaces, if_neg (by omega)]
      exact ih (by omega)
    · have hfits : digits / Nat.pow 10 (n + 1 - (n + 1)) < Nat.pow 2 96 := by
        rw [Nat.sub_self]
        exact lt_of_le_of_lt (Nat.div_le_self _ _) hdigits
      exact if_pos ⟨le_refl _, hfits⟩

theorem ofDigits?_eq {digits places : Nat} (negative : Bool) (hdigits : digits < 2 ^ 96)
    (hplaces : places ≤ 28) :
    ofDigits? negative digits places = ofParts? negative digits places := by
  have hdigits' : digits < Nat.pow 2 96 := hdigits
  unfold ofDigits?
  simp [keptPlaces_eq hdigits hplaces, hdigits']

end Decimal

namespace Binary64

/-- How many decimal places the plain written form of a number has. -/
def places (x : Binary64) : Nat :=
  (-(x.shortest NumberStyle.plain.tie).exponent).toNat

/-- The number that the plain written form of a number stands for. -/
def written (x : Binary64) : ℚ :=
  let s := x.shortest NumberStyle.plain.tie
  signed x.negative (s.digits * 10 ^ s.exponent)

variable {x : Binary64} {m : Nat}

theorem written_eq (x : Binary64) :
    let s := x.shortest NumberStyle.plain.tie
    x.written = signed x.negative ((s.digits * 10 ^ s.exponent.toNat : Nat) / 10 ^ x.places) := by
  intro s
  refine congrArg (signed x.negative) ?_
  show (s.digits * 10 ^ s.exponent : ℚ) = _ / 10 ^ (-s.exponent).toNat
  push_cast
  rw [mul_div_assoc]
  obtain ⟨n, hn | hn⟩ := s.exponent.eq_nat_or_neg
  · simp [hn]
  · simp [hn]

theorem abs_value (x : Binary64) : |x.value| = x.magnitude := by
  unfold value
  split_ifs <;> simp

/-- A number below a whole number is written below it. -/
theorem abs_written_lt (hm : m ≤ 2 ^ 53) (h : x.magnitude < m * unitsPerOne) :
    |x.written| < m := by
  have hpos : 0 < m := by
    rcases Nat.eq_zero_or_pos m with rfl | hpos
    · rw [Nat.zero_mul] at h
      exact absurd h (Nat.not_lt_zero _)
    · exact hpos
  rw [magnitude_eq] at h
  rw [written_eq, abs_signed (by positivity)]
  by_cases hx : x.significand = 0
  · rw [shortest, if_pos hx]
    simpa using hpos
  -- a whole number is a multiple of the last place of every number below it
  obtain ⟨e, he⟩ : ∃ e, unitsPerOne = 2 ^ e * 2 ^ x.exponent := by
    have hexponent : x.exponent ≤ 1074 := by
      by_contra hlt
      obtain ⟨k, hk⟩ := Nat.exists_eq_add_of_lt (Nat.lt_of_not_le hlt)
      have hne : x.exponent ≠ 0 := by omega
      have hlarge := Nat.mul_le_mul_right (2 ^ x.exponent) (le_significand hne)
      have hpower : 2 ^ 52 * 2 ^ x.exponent = 2 ^ 53 * 2 ^ k * unitsPerOne := by
        have hone := unitsPerOne_eq
        generalize 1074 = n at hone hk
        rw [hk, hone]
        ring
      have hm' : m * unitsPerOne ≤ 2 ^ 53 * 2 ^ k * unitsPerOne :=
        Nat.mul_le_mul_right _ (hm.trans (Nat.le_mul_of_pos_right _ (Nat.two_pow_pos k)))
      omega
    obtain ⟨e, he⟩ := Nat.exists_eq_add_of_le hexponent
    exact ⟨e, by rw [unitsPerOne_eq, he, Nat.add_comm, Nat.pow_add]⟩
  have hnext : x.significand + 1 ≤ m * 2 ^ e := by
    apply Nat.lt_of_mul_lt_mul_right (a := 2 ^ x.exponent)
    rwa [Nat.mul_assoc, ← he]
  have hcovered := isCovered_shortest NumberStyle.plain.tie hx
  have hhigh := (isWithin_of_isNear hx hcovered).high
  rw [← places] at hhigh
  generalize (x.shortest NumberStyle.plain.tie).digits * 10 ^ _ = num at *
  have hden : 0 < 10 ^ x.places := Nat.pow_pos (by decide)
  generalize x.places = p at *
  have hunit : 0 < 2 ^ x.exponent * 10 ^ p := Nat.mul_pos (Nat.two_pow_pos _) hden
  have hle :=
    calc (x.significand + 1) * (2 ^ x.exponent * 10 ^ p)
      _ ≤ m * 2 ^ e * (2 ^ x.exponent * 10 ^ p) := Nat.mul_le_mul_right _ hnext
      _ = m * 10 ^ p * unitsPerOne := by rw [he]; ring
  rw [Nat.succ_mul] at hle
  have hlt : num < m * 10 ^ p := by
    apply Nat.lt_of_mul_lt_mul_right (a := unitsPerOne)
    omega
  rw [div_lt_iff₀ (by positivity)]
  exact_mod_cast hlt

end Binary64

namespace Decimal

variable {a b c d : Decimal} {x : Binary64} {negative : Bool} {num den size scale s m q n : Nat}

theorem exists_ofWritten? (x : Binary64) :
    ∃ n, ofWritten? x = ofDigits? x.negative n x.places ∧
      x.written = signed x.negative (n / 10 ^ x.places) := by
  refine ⟨_, ?_, x.written_eq⟩
  unfold ofWritten? Binary64.places
  generalize x.shortest NumberStyle.plain.tie = w
  by_cases h : w.exponent < 0
  · have hwhole : w.exponent.toNat = 0 := by omega
    rw [hwhole, Nat.pow_zero, Nat.mul_one]
    exact if_pos h
  · have hplaces : (-w.exponent).toNat = 0 := by omega
    rw [hplaces]
    exact if_neg h

/-- A number whose written form has no more places than fit is read exactly. -/
theorem value_ofBinary64 [Converter] (hs : s ≤ 28) (hplaces : x.places ≤ s)
    (h : |x.written| * 10 ^ s < 2 ^ 96) :
    (ofBinary64 x).value = x.written ∧ (ofBinary64 x).scale ≤ s := by
  obtain ⟨n, hn, hwritten⟩ := exists_ofWritten? x
  have hsize : n < 2 ^ 96 := by
    have hle : (n : ℚ) ≤ |x.written| * 10 ^ s := by
      rw [hwritten, abs_signed (by positivity), div_mul_eq_mul_div, le_div_iff₀ (ten_pow_pos _)]
      exact mul_le_mul_of_nonneg_left (pow_le_pow_right₀ (by norm_num) hplaces) (by positivity)
    exact_mod_cast lt_of_le_of_lt hle h
  obtain ⟨d, hd, hscale, hvalue⟩ :=
    exists_ofParts? x.negative hsize (hplaces.trans hs)
  have hread : ofBinary64 x = d := by
    rw [ofBinary64, ofBinary64?, hn, ofDigits?_eq _ hsize (hplaces.trans hs), hd]
    rfl
  rw [hread, hvalue, hwritten, hscale]
  exact ⟨rfl, hplaces⟩

/-! ## Sums -/

theorem value_of_coefficient_eq_zero (h : a.coefficient = 0) : a.value = 0 := by
  rw [value, h, Int.cast_zero, zero_div]

theorem coefficient_mul_eq (h : a.scale ≤ m) :
    (a.coefficient : ℚ) * 10 ^ (m - a.scale) = a.value * 10 ^ m := by
  obtain ⟨k, rfl⟩ := Nat.exists_eq_add_of_le h
  rw [value, Nat.add_sub_cancel_left, pow_add, ← mul_assoc, div_mul_cancel₀ _ (ten_pow_pos _).ne']

/-- A sum in steps of some number of places. -/
def sumAt (m : Nat) (a b : Decimal) : Int :=
  a.coefficient * (10 ^ (m - a.scale) : Nat) + b.coefficient * (10 ^ (m - b.scale) : Nat)

theorem add?_eq (ha : a.coefficient ≠ 0) (hb : b.coefficient ≠ 0) :
    let m := max a.scale b.scale
    add? a b = fit? .toEven (sumAt m a b < 0) (sumAt m a b).natAbs (10 ^ m) m := by
  rw [add?, if_neg ha, if_neg hb]
  rfl

theorem sumAt_eq (ha : a.scale ≤ m) (hb : b.scale ≤ m) :
    (sumAt m a b : ℚ) = (a.value + b.value) * 10 ^ m := by
  rw [sumAt, add_mul, ← coefficient_mul_eq ha, ← coefficient_mul_eq hb]
  push_cast
  rfl

/-- A sum that fits at the places given is exact. -/
theorem value_add (hs : s ≤ 28) (ha : a.scale ≤ s) (hb : b.scale ≤ s)
    (h : |a.value + b.value| * 10 ^ s < 2 ^ 96) :
    (a.add b).value = a.value + b.value ∧ (a.add b).scale ≤ s := by
  by_cases ha0 : a.coefficient = 0
  · have hadd : a.add b = b := by rw [add, add?, if_pos ha0]; rfl
    rw [hadd, value_of_coefficient_eq_zero ha0, zero_add]
    exact ⟨rfl, hb⟩
  by_cases hb0 : b.coefficient = 0
  · have hadd : a.add b = a := by rw [add, add?, if_neg ha0, if_pos hb0]; rfl
    rw [hadd, value_of_coefficient_eq_zero hb0, add_zero]
    exact ⟨rfl, ha⟩
  have hadd := add?_eq ha0 hb0
  have hms : max a.scale b.scale ≤ s := max_le ha hb
  have hexact := sumAt_eq (le_max_left a.scale b.scale) (le_max_right a.scale b.scale)
  dsimp only at hadd
  generalize max a.scale b.scale = m at *
  have hfits : (sumAt m a b).natAbs < 2 ^ 96 := by
    have hle : ((sumAt m a b).natAbs : ℚ) ≤ |a.value + b.value| * 10 ^ s := by
      rw [Nat.cast_natAbs, Int.cast_abs, hexact, abs_mul, abs_of_pos (ten_pow_pos m)]
      exact mul_le_mul_of_nonneg_left (pow_le_pow_right₀ (by norm_num) hms) (abs_nonneg _)
    exact_mod_cast lt_of_le_of_lt hle h
  obtain ⟨d, hd, hscale, hvalue⟩ :=
    exists_fit?_of_exact (sumAt m a b < 0) (nat_ten_pow_pos m) rfl hfits (le_refl m) (hms.trans hs)
  rw [add, hadd, hd, Option.getD_some, hvalue, signed_div, signed_natAbs, hexact,
    mul_div_cancel_right₀ _ (ten_pow_pos m).ne']
  exact ⟨rfl, hscale.trans hms⟩

/-! ## Quotients -/

theorem value_div (a : Decimal) (n : Nat) :
    a.value / n = signed a.isNegative (a.size / (10 ^ a.scale * n : Nat)) := by
  rw [value_eq_signed, ← signed_div, div_div]
  push_cast
  rfl

theorem exists_ofPartsTrimmed? (negative : Bool) (hsize : size < 2 ^ 96) (hscale : scale ≤ 28) :
    ∃ d, ofPartsTrimmed? negative size scale = some d ∧
      d.value = signed negative (size / 10 ^ scale) := by
  induction scale generalizing size with
  | zero =>
    obtain ⟨d, hd, -, hvalue⟩ := exists_ofParts? negative hsize hscale
    exact ⟨d, hd, hvalue⟩
  | succ scale ih =>
    by_cases hzero : size % 10 = 0
    · obtain ⟨k, rfl⟩ := Nat.dvd_of_mod_eq_zero hzero
      obtain ⟨d, hd, hvalue⟩ := ih (by omega : k < 2 ^ 96) (by omega)
      refine ⟨d, ?_, ?_⟩
      · rw [ofPartsTrimmed?, if_pos hzero, Nat.mul_div_cancel_left k (by decide), hd]
      · rw [hvalue, pow_succ', Nat.cast_mul, Nat.cast_ofNat, mul_div_mul_left _ _ (by norm_num)]
    · obtain ⟨d, hd, -, hvalue⟩ := exists_ofParts? negative hsize hscale
      exact ⟨d, by rw [ofPartsTrimmed?, if_neg hzero, hd], hvalue⟩

theorem value_trimmed (a : Decimal) : a.trimmed.value = a.value := by
  obtain ⟨d, hd, hvalue⟩ := exists_ofPartsTrimmed? a.isNegative a.size_lt a.scale_le
  have htrimmed : a.trimmed = d := congrArg (·.getD a) hd
  rw [htrimmed, hvalue, ← value_eq_signed]

/-- A quotient stands for the exact one, rounded at the most places at which it fits, whichever way
it is found. -/
theorem exists_divNat? (a : Decimal) (hn : 0 < n) :
    ∃ c d, a.divNat? n = some c ∧
      fit? .toEven a.isNegative a.size (10 ^ a.scale * n) 28 = some d ∧ c.value = d.value := by
  have hden : 0 < 10 ^ a.scale * n := Nat.mul_pos (nat_ten_pow_pos _) hn
  by_cases hexact : a.size % n = 0
  · obtain ⟨q, hq⟩ := Nat.dvd_of_mod_eq_zero hexact
    have hsize : q < 2 ^ 96 := by
      refine lt_of_le_of_lt ?_ a.size_lt
      rw [hq]
      exact Nat.le_mul_of_pos_left q hn
    obtain ⟨c, hc, -, hvalue⟩ := exists_ofParts? a.isNegative hsize a.scale_le
    have hplaces : a.size * 10 ^ a.scale = q * (10 ^ a.scale * n) := by
      rw [hq]
      ring
    obtain ⟨d, hd, -, hvalue'⟩ :=
      exists_fit?_of_exact a.isNegative hden hplaces hsize a.scale_le (le_refl 28)
    refine ⟨c, d, ?_, hd, hvalue.trans hvalue'.symm⟩
    have hquotient : a.size / n = q := by rw [hq, Nat.mul_div_cancel_left q hn]
    unfold divNat?
    rw [if_neg hn.ne']
    exact (if_pos hexact).trans ((congrArg (ofParts? _ · _) hquotient).trans hc)
  · obtain ⟨d, hd, -, -⟩ :=
      exists_fit? a.isNegative (divRound_size_lt .toEven a hden) (le_refl 28)
    refine ⟨d.trimmed, d, ?_, hd, value_trimmed d⟩
    unfold divNat?
    rw [if_neg hn.ne']
    exact (if_neg hexact).trans (congrArg (Option.map trimmed) hd)

/-- Decimals of one value have quotients of one value. -/
theorem divNat?_congr (hn : 0 < n) (h : a.value = b.value) :
    ∃ c d, a.divNat? n = some c ∧ b.divNat? n = some d ∧ c.value = d.value := by
  obtain ⟨c, c', hc, hfit, hvalue⟩ := exists_divNat? a hn
  obtain ⟨d, d', hd, hfit', hvalue'⟩ := exists_divNat? b hn
  refine ⟨c, d, hc, hd, ?_⟩
  have hcross : a.size * (10 ^ b.scale * n) = b.size * (10 ^ a.scale * n) := by
    rw [← Nat.mul_assoc, size_mul_congr h, Nat.mul_assoc]
  rw [isNegative_congr h, fit?_congr (Nat.mul_pos (nat_ten_pow_pos _) hn)
    (Nat.mul_pos (nat_ten_pow_pos _) hn) hcross, hfit'] at hfit
  rw [hvalue, hvalue', Option.some.inj hfit]

theorem size_le_of_abs_value_le (hle : |a.value| ≤ (m * n : Nat)) :
    a.size ≤ m * (10 ^ a.scale * n) := by
  rw [abs_value, div_le_iff₀ (ten_pow_pos _)] at hle
  have hle' : a.size ≤ m * n * 10 ^ a.scale := by exact_mod_cast hle
  rwa [Nat.mul_assoc, Nat.mul_comm n] at hle'

/-- A decimal that is no more than `n` times a whole number has a quotient that is no more than this
one. -/
theorem abs_value_le_of_divNat? (hn : 0 < n) (h : a.divNat? n = some c)
    (hle : |a.value| ≤ (m * n : Nat)) : |c.value| ≤ m := by
  have hden : 0 < 10 ^ a.scale * n := Nat.mul_pos (nat_ten_pow_pos _) hn
  have hsize := size_le_of_abs_value_le hle
  obtain ⟨c', d, hc, hfit, hvalue⟩ := exists_divNat? a hn
  obtain ⟨d', hfit', -, hvalue', -⟩ :=
    exists_fit? a.isNegative (divRound_size_lt .toEven a hden) (le_refl 28)
  cases h.symm.trans hc
  cases hfit.symm.trans hfit'
  rw [hvalue, hvalue', abs_signed (by positivity), div_le_iff₀ (ten_pow_pos _)]
  have hrounded : divRound .toEven (a.size * 10 ^ d.scale) (10 ^ a.scale * n) ≤ m * 10 ^ d.scale := by
    refine divRound_le_of_le hden ?_
    rw [Nat.mul_right_comm]
    exact Nat.mul_le_mul_right _ hsize
  exact_mod_cast hrounded

/-! ## Roundings -/

variable {places : Nat}

theorem roundTo_spec (a : Decimal) (hplaces : places ≤ 28) :
    (a.roundTo places).scale ≤ places ∧ (a.roundTo places).value =
      signed a.isNegative (divRound .up (a.size * 10 ^ places) (10 ^ a.scale) / 10 ^ places) := by
  by_cases hscale : a.scale ≤ places
  · have hsame : a.roundTo places = a := if_pos hscale
    obtain ⟨k, rfl⟩ := Nat.exists_eq_add_of_le hscale
    have hexact : a.size * 10 ^ (a.scale + k) = a.size * 10 ^ k * 10 ^ a.scale := by ring
    rw [hsame, hexact, divRound_mul_right _ _ (nat_ten_pow_pos _), pow_add, Nat.cast_mul,
      Nat.cast_pow, Nat.cast_ofNat, mul_div_mul_right _ _ (ten_pow_pos k).ne', ← value_eq_signed]
    exact ⟨hscale, rfl⟩
  · obtain ⟨k, hk⟩ := Nat.exists_eq_add_of_le (Nat.le_of_not_le hscale)
    have hrounded : divRound .up a.size (10 ^ (a.scale - places)) =
        divRound .up (a.size * 10 ^ places) (10 ^ a.scale) := by
      refine divRound_congr (nat_ten_pow_pos _) (nat_ten_pow_pos _) ?_
      rw [hk, Nat.add_sub_cancel_left, Nat.pow_add, Nat.mul_assoc]
    have hfits := divRound_size_lt .up a (nat_ten_pow_pos (a.scale - places))
    obtain ⟨d, hd, hplaces', hvalue⟩ := exists_ofParts? a.isNegative hfits hplaces
    have hround : a.roundTo places = d := by
      unfold roundTo
      rw [if_neg hscale]
      exact congrArg (·.getD a) hd
    rw [hround, hvalue, hrounded]
    exact ⟨hplaces'.le, rfl⟩

/-- Decimals of one value are rounded to one value. -/
theorem roundTo_congr (hplaces : places ≤ 28) (h : a.value = b.value) :
    (a.roundTo places).value = (b.roundTo places).value := by
  rw [(roundTo_spec a hplaces).2, (roundTo_spec b hplaces).2, isNegative_congr h,
    divRound_congr (nat_ten_pow_pos _) (nat_ten_pow_pos _)]
  rw [Nat.mul_right_comm, size_mul_congr h, Nat.mul_right_comm]

/-- A decimal that is no more than a whole number is not rounded beyond it. -/
theorem abs_value_roundTo_le (hplaces : places ≤ 28) (h : |a.value| ≤ m) :
    |(a.roundTo places).value| ≤ m := by
  rw [(roundTo_spec a hplaces).2, abs_signed (by positivity), div_le_iff₀ (ten_pow_pos _)]
  have hsize : a.size ≤ m * 10 ^ a.scale := by
    rw [abs_value, div_le_iff₀ (ten_pow_pos _)] at h
    exact_mod_cast h
  have hrounded : divRound .up (a.size * 10 ^ places) (10 ^ a.scale) ≤ m * 10 ^ places := by
    refine divRound_le_of_le (nat_ten_pow_pos _) ?_
    rw [Nat.mul_right_comm]
    exact Nat.mul_le_mul_right _ hsize
  exact_mod_cast hrounded

end Decimal

end CampusQuery
