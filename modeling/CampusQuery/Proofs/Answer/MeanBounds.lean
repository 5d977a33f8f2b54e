import Mathlib
import CampusQuery.Proofs.Answer.Extremes
import CampusQuery.Proofs.Number.Error

/-!
# The mean lies between the extremes

A mean is a sum that has been divided. The sum of at most `10 ^ 11` decimals is off by no more than
they are apart, or it is exact: decimals that are hardly apart are of one size, and as they are short
their sum has room for all their places. So the sum stays between as many times the least and as many
times the greatest, and neither the division nor the rounding to two places leaves these bounds. All
this is so as long as no sum on the way is out of range; a sum that is has the greatest size there
is, and its mean can be far below all numbers.

* `Aggregate.total?` — the sum of some numbers, if no sum on the way is out of range.
* `Aggregate.abs_total_sub_sum_le` — it is off by no more than the numbers are apart.
* `Grouping.mean_between_extremes` — the mean of a group; `Grouping.mean_of_clamped_total` — two
  numbers with a sum out of range.
-/

namespace CampusQuery

/-! ## Sums of numbers between two bounds -/

section Sums

variable {l : List ℚ} {q lo hi : ℚ}

theorem sum_add_le_of_mem (hq : q ∈ l) (h : ∀ r ∈ l, r ≤ hi) :
    l.sum + (hi - q) ≤ l.length * hi := by
  obtain ⟨s, t, rfl⟩ := List.append_of_mem hq
  have hs := List.sum_le_card_nsmul s hi fun r hr => h r (by simp [hr])
  have ht := List.sum_le_card_nsmul t hi fun r hr => h r (by simp [hr])
  rw [nsmul_eq_mul] at hs ht
  rw [List.sum_append, List.sum_cons, List.length_append, List.length_cons]
  push_cast
  linarith

theorem le_sum_of_mem (hq : q ∈ l) (h : ∀ r ∈ l, lo ≤ r) :
    l.length * lo ≤ l.sum - (q - lo) := by
  obtain ⟨s, t, rfl⟩ := List.append_of_mem hq
  have hs := List.card_nsmul_le_sum s lo fun r hr => h r (by simp [hr])
  have ht := List.card_nsmul_le_sum t lo fun r hr => h r (by simp [hr])
  rw [nsmul_eq_mul] at hs ht
  rw [List.sum_append, List.sum_cons, List.length_append, List.length_cons]
  push_cast
  linarith

/-- Numbers between two bounds are no greater than some size, and smaller than it by no more than
the bounds are apart. -/
theorem exists_size (lo hi : ℚ) :
    ∃ size, 0 ≤ size ∧ ∀ q, lo ≤ q ∧ q ≤ hi → |q| ≤ size ∧ size ≤ |q| + (hi - lo) := by
  refine ⟨max |lo| |hi|, (abs_nonneg lo).trans (le_max_left _ _), fun q ⟨hlo, hhi⟩ =>
    ⟨abs_le_max_abs_abs hlo hhi, ?_⟩⟩
  have hleft := abs_sub_abs_le_abs_sub lo q
  have hright := abs_sub_abs_le_abs_sub hi q
  rw [abs_of_nonpos (sub_nonpos.mpr hlo)] at hleft
  rw [abs_of_nonneg (sub_nonneg.mpr hhi)] at hright
  exact max_le (by linarith) (by linarith)

end Sums

/-- An error of no more than `i ^ 2` parts, of which `2 ^ 93` make up the greatest size, grows by the
error of one more sum to no more than the next square. -/
theorem error_step {a b d s size : ℚ} {i : Nat} (hi : i ≤ 2 ^ 93) (hsize : 0 ≤ size)
    (hs : |s + d| ≤ (i + 1) * size) (ha : 2 ^ 93 * |a - s| ≤ i ^ 2 * size)
    (hb : 2 ^ 93 * |b - (a + d)| ≤ |a + d|) :
    2 ^ 93 * |b - (s + d)| ≤ (i + 1) ^ 2 * size := by
  have hsmall : |a - s| ≤ i * size := by
    have hle : (i : ℚ) ^ 2 * size ≤ 2 ^ 93 * (i * size) := by
      have hi' : (i : ℚ) ≤ 2 ^ 93 := by exact_mod_cast hi
      rw [pow_two, mul_assoc]
      exact mul_le_mul_of_nonneg_right hi' (mul_nonneg (Nat.cast_nonneg i) hsize)
    linarith
  have hexact : |a + d| ≤ |a - s| + |s + d| := by
    rw [show a + d = a - s + (s + d) by ring]
    exact abs_add_le _ _
  have herror : |b - (s + d)| ≤ |b - (a + d)| + |a - s| := by
    rw [← add_sub_add_right_eq_sub a s d]
    exact abs_sub_le _ _ _
  calc 2 ^ 93 * |b - (s + d)|
    _ ≤ 2 ^ 93 * |b - (a + d)| + 2 ^ 93 * |a - s| := by linarith
    _ ≤ (i * size + (i + 1) * size) + i ^ 2 * size := by linarith
    _ = (i + 1) ^ 2 * size := by ring

namespace Aggregate

variable {xs : List Binary64} {a t : Decimal} {lo hi size : ℚ} {m : Nat}

/-- The number that a number is converted to. -/
def converted [Converter] (x : Binary64) : ℚ :=
  (Decimal.ofBinary64 x).value

/-- A decimal with some numbers added to it, if no sum on the way is out of range. -/
def sumFrom? [Converter] (a : Decimal) : List Binary64 → Option Decimal
  | [] => some a
  | x :: xs => (a.add? (Decimal.ofBinary64 x)).bind fun b => sumFrom? b xs

/-- The sum of some numbers, if no sum on the way is out of range. -/
def total? [Converter] (xs : List Binary64) : Option Decimal :=
  sumFrom? Decimal.zero xs

theorem foldl_add_of_sumFrom? [Converter] (h : sumFrom? a xs = some t) :
    xs.foldl (fun sum x => sum.add (Decimal.ofBinary64 x)) a = t := by
  induction xs generalizing a with
  | nil => exact Option.some.inj h
  | cons x xs ih =>
    obtain ⟨b, hb, h⟩ := Option.bind_eq_some_iff.mp h
    rw [List.foldl_cons, Decimal.add, hb]
    exact ih h

theorem total_eq_of_total? [Converter] (h : total? xs = some t) : total xs = t :=
  foldl_add_of_sumFrom? h

/-- No sum is out of range as long as the sizes, each taken up to a whole number, add up within the
range. -/
theorem exists_sumFrom? [Converter] {n : Nat} (ha : |a.value| ≤ n)
    (hn : n + (xs.map fun x => ⌈|converted x|⌉₊).sum < 2 ^ 96) : ∃ t, sumFrom? a xs = some t := by
  induction xs generalizing a n with
  | nil => exact ⟨a, rfl⟩
  | cons x xs ih =>
    rw [List.map_cons, List.sum_cons, ← Nat.add_assoc] at hn
    have hsum : |a.value + converted x| ≤ (n + ⌈|converted x|⌉₊ : Nat) := by
      push_cast
      exact (abs_add_le _ _).trans (add_le_add ha (Nat.le_ceil _))
    obtain ⟨b, hb, hsize⟩ := Decimal.exists_add? hsum (by omega)
    obtain ⟨t, ht⟩ := ih hsize hn
    exact ⟨t, Option.bind_eq_some_iff.mpr ⟨b, hb, ht⟩⟩

/-! ## How far the sum is off -/

/-- After `i` numbers and some more the error is no more than the square of how many they are. -/
theorem abs_sumFrom?_sub_le [Converter] (hsize : ∀ x ∈ xs, |converted x| ≤ size) {s : ℚ} {i : Nat}
    (hs : |s| ≤ i * size) (ha : 2 ^ 93 * |a.value - s| ≤ i ^ 2 * size)
    (hlength : i + xs.length ≤ 2 ^ 93) (h : sumFrom? a xs = some t) :
    2 ^ 93 * |t.value - (s + (xs.map converted).sum)| ≤ (i + xs.length : Nat) ^ 2 * size := by
  induction xs generalizing a s i with
  | nil =>
    obtain rfl := Option.some.inj h
    simpa using ha
  | cons x xs ih =>
    obtain ⟨b, hb, h⟩ := Option.bind_eq_some_iff.mp h
    obtain ⟨hx, hxs⟩ := List.forall_mem_cons.mp hsize
    rw [List.length_cons] at hlength
    have hsum : |s + converted x| ≤ (i + 1) * size := by
      have := abs_add_le s (converted x)
      linarith
    have hstep := error_step (by omega) ((abs_nonneg _).trans hx) hsum ha
      (Decimal.abs_add?_sub_le hb)
    have htotal := ih hxs (by exact_mod_cast hsum) (by exact_mod_cast hstep) (by omega) h
    rw [List.map_cons, List.sum_cons, ← add_assoc, List.length_cons]
    rwa [Nat.add_assoc, Nat.add_comm 1] at htotal

/-- Where no sum on the way leaves the places given, the sum is exact. -/
theorem value_of_sumFrom? [Converter] (hscale : ∀ x ∈ xs, (Decimal.ofBinary64 x).scale ≤ m)
    (ha : a.scale ≤ m)
    (hroom : m = 0 ∨ m ≤ 28 ∧ (|a.value| + (xs.map fun x => |converted x|).sum) * 10 ^ m < 2 ^ 96)
    (h : sumFrom? a xs = some t) : t.value = a.value + (xs.map converted).sum := by
  induction xs generalizing a with
  | nil =>
    obtain rfl := Option.some.inj h
    exact (add_zero _).symm
  | cons x xs ih =>
    obtain ⟨b, hb, h⟩ := Option.bind_eq_some_iff.mp h
    obtain ⟨hx, hxs⟩ := List.forall_mem_cons.mp hscale
    have hten := Decimal.ten_pow_pos m
    have hrest : 0 ≤ (xs.map fun x => |converted x|).sum := List.sum_nonneg (by simp)
    have habs : |a.value + converted x| ≤ |a.value| + |converted x| := abs_add_le _ _
    rw [List.map_cons, List.sum_cons] at hroom
    have hfits {q : ℚ} (hq : q ≤ |a.value + converted x| + (xs.map fun x => |converted x|).sum) :
        m = 0 ∨ m ≤ 28 ∧ q * 10 ^ m < 2 ^ 96 :=
      hroom.imp_right fun ⟨hm, hlt⟩ =>
        ⟨hm, lt_of_le_of_lt (mul_le_mul_of_nonneg_right (by linarith) hten.le) hlt⟩
    obtain ⟨hexact, hplaces⟩ := Decimal.value_of_add? hb ha hx (hfits (le_add_of_nonneg_right hrest))
    rw [ih hxs hplaces (hfits (by rw [hexact]; rfl)) h, hexact, List.map_cons, List.sum_cons,
      add_assoc]
    rfl

/-- Numbers that are hardly apart have room for the places of all in their sum. -/
theorem exists_room [Converter] (hne : xs ≠ [])
    (hhalf : ∀ x ∈ xs, size ≤ 2 * |converted x|) :
    ∃ m, (∀ x ∈ xs, (Decimal.ofBinary64 x).scale ≤ m) ∧
      (m = 0 ∨ m ≤ 28 ∧ size * 10 ^ m ≤ 2 ^ 58) := by
  obtain ⟨x, hx, hmost⟩ := Finset.exists_max_image xs.toFinset
    (fun x => (Decimal.ofBinary64 x).scale) (List.toFinset_nonempty_iff xs |>.mpr hne)
  simp only [List.mem_toFinset] at hx hmost
  refine ⟨_, hmost, (Decimal.isShort_ofBinary64 x).imp_right fun hshort => ⟨Decimal.scale_le _, ?_⟩⟩
  have hten := Decimal.ten_pow_pos (Decimal.ofBinary64 x).scale
  have hvalue : |converted x| * 10 ^ (Decimal.ofBinary64 x).scale ≤ 2 ^ 57 := by
    rw [converted, Decimal.abs_value, div_mul_cancel₀ _ hten.ne']
    exact_mod_cast hshort
  have hscaled := mul_le_mul_of_nonneg_right (hhalf x hx) hten.le
  linarith

/-- The sum of at most `10 ^ 11` numbers is off by no more than these are apart. -/
theorem abs_total_sub_sum_le [Converter] (h : total? xs = some t) (hne : xs ≠ [])
    (hlength : xs.length ≤ 10 ^ 11) (hbounds : ∀ x ∈ xs, lo ≤ converted x ∧ converted x ≤ hi) :
    |t.value - (xs.map converted).sum| ≤ hi - lo := by
  have hzero : Decimal.zero.value = 0 := Decimal.value_of_coefficient_eq_zero rfl
  have hlength' : (xs.length : ℚ) ≤ 10 ^ 11 := by exact_mod_cast hlength
  obtain ⟨size, hnonneg, hsizes⟩ := exists_size lo hi
  have hsize (x) (hx : x ∈ xs) : |converted x| ≤ size := (hsizes _ (hbounds x hx)).1
  rcases le_or_gt size (2 ^ 19 * (hi - lo)) with hfar | hnear
  · -- the error is small beside what they are apart
    have herror := abs_sumFrom?_sub_le (s := 0) (i := 0) hsize (by simp) (by simp [hzero])
      (by omega) h
    rw [zero_add, Nat.zero_add] at herror
    have hsquare : (xs.length : ℚ) ^ 2 * size ≤ (10 ^ 11) ^ 2 * size :=
      mul_le_mul_of_nonneg_right (pow_le_pow_left₀ (Nat.cast_nonneg _) hlength' 2) hnonneg
    linarith
  · -- they are of one size, and there is no error
    obtain ⟨x, hx⟩ := List.exists_mem_of_ne_nil xs hne
    have hapart : 0 ≤ hi - lo := sub_nonneg.mpr ((hbounds x hx).1.trans (hbounds x hx).2)
    have hhalf (x) (hx : x ∈ xs) : size ≤ 2 * |converted x| := by
      have := (hsizes _ (hbounds x hx)).2
      linarith
    obtain ⟨m, hscale, hroom⟩ := exists_room hne hhalf
    have hsum : (xs.map fun x => |converted x|).sum ≤ 10 ^ 11 * size := by
      have hle := List.sum_le_card_nsmul (xs.map fun x => |converted x|) size
        (List.forall_mem_map.mpr hsize)
      rw [List.length_map, nsmul_eq_mul] at hle
      exact hle.trans (mul_le_mul_of_nonneg_right hlength' hnonneg)
    have hexact := value_of_sumFrom? hscale (Nat.zero_le m) (hroom.imp_right fun ⟨hm, hle⟩ => by
      refine ⟨hm, ?_⟩
      have := mul_le_mul_of_nonneg_right hsum (Decimal.ten_pow_pos m).le
      rw [hzero, abs_zero, zero_add]
      linarith) h
    rw [hexact, hzero, zero_add, sub_self, abs_zero]
    exact hapart

/-! ## The mean -/

/-- A mean lies between the least and the greatest of what the numbers are converted to. -/
theorem between_of_total? [Converter] (h : total? xs = some t) (hlength : xs.length ≤ 10 ^ 11)
    {x y : Binary64} (hx : x ∈ xs) (hy : y ∈ xs)
    (hbounds : ∀ z ∈ xs, converted x ≤ converted z ∧ converted z ≤ converted y) :
    ∃ c, (total xs).divNat? xs.length = some c ∧ converted x ≤ c.value ∧
      c.value ≤ converted y := by
  have hpos : 0 < xs.length := List.length_pos_of_mem hx
  have hpos' : (0 : ℚ) < xs.length := by exact_mod_cast hpos
  have herror := abs_le.mp (abs_total_sub_sum_le h (List.ne_nil_of_mem hx) hlength hbounds)
  have hmost := sum_add_le_of_mem (List.mem_map_of_mem (f := converted) hx)
    (List.forall_mem_map.mpr fun z hz => (hbounds z hz).2)
  have hleast := le_sum_of_mem (List.mem_map_of_mem (f := converted) hy)
    (List.forall_mem_map.mpr fun z hz => (hbounds z hz).1)
  rw [List.length_map] at hmost hleast
  obtain ⟨c, -, hc, -⟩ := Decimal.exists_divNat? t hpos
  refine ⟨c, total_eq_of_total? h ▸ hc, ?_, ?_⟩
  · refine (Decimal.between_of_divNat? hpos hc (Decimal.isShort_ofBinary64 x)).1 ?_
    rw [le_div_iff₀ hpos']
    show converted x * _ ≤ _
    linarith
  · refine (Decimal.between_of_divNat? hpos hc (Decimal.isShort_ofBinary64 y)).2 ?_
    rw [div_le_iff₀ hpos']
    show _ ≤ converted y * _
    linarith

end Aggregate

/-! ## Groups -/

namespace Grouping

open Aggregate

variable {rows : Array Record} {k : FieldKey} {group : List Nat}

/-- What the numbers of a field in the rows of a group are converted to. -/
def convertedIn [Converter] (rows : Array Record) (k : FieldKey) (group : List Nat) : Set ℚ :=
  {q | ∃ place ∈ group, ∃ x, valueAt rows k.field place = some (.number x) ∧ converted x = q}

theorem mem_convertedIn [Converter] {q : ℚ} :
    q ∈ convertedIn rows k group ↔ ∃ x ∈ numbers (valuesOf rows group k), converted x = q := by
  simp only [mem_numbers_valuesOf]
  constructor
  · rintro ⟨place, hplace, x, hx, rfl⟩
    exact ⟨x, ⟨place, hplace, hx⟩, rfl⟩
  · rintro ⟨x, ⟨place, hplace, hx⟩, rfl⟩
    exact ⟨place, hplace, x, hx, rfl⟩

/-- Rows that have a number each have as many numbers as they are. -/
theorem length_numbers_valuesOf
    (h : ∀ place ∈ group, ∃ x, valueAt rows k.field place = some (.number x)) :
    (numbers (valuesOf rows group k)).length = group.length := by
  induction group with
  | nil => rfl
  | cons place group ih =>
    obtain ⟨⟨x, hx⟩, hgroup⟩ := List.forall_mem_cons.mp h
    have hnumbers : numbers (valuesOf rows (place :: group) k) =
        x :: numbers (valuesOf rows group k) := by
      simp [numbers, valuesOf, hx, Value.number?]
    rw [hnumbers, List.length_cons, ih hgroup, List.length_cons]

/-- Some numbers have a least and a greatest under what they are converted to. -/
theorem exists_extremes [Converter] {xs : List Binary64} (h : xs ≠ []) :
    ∃ x ∈ xs, ∃ y ∈ xs, ∀ z ∈ xs, converted x ≤ converted z ∧ converted z ≤ converted y := by
  have hne := List.toFinset_nonempty_iff xs |>.mpr h
  obtain ⟨x, hx, hleast⟩ := Finset.exists_min_image xs.toFinset converted hne
  obtain ⟨y, hy, hgreatest⟩ := Finset.exists_max_image xs.toFinset converted hne
  simp only [List.mem_toFinset] at *
  exact ⟨x, hx, y, hy, fun z hz => ⟨hleast z hz, hgreatest z hz⟩⟩

/-- The mean of a numeric field over the at most `10 ^ 11` rows of a group, before it becomes a
number of the format, is no less than the least and no more than the greatest of what the values are
converted to, each rounded to two places as the mean is. This needs that no sum on the way is out of
range, which is so where the sizes add up within the range. -/
theorem mean_between_extremes [Converter] {kind : Kind} (hrows : ∀ r ∈ rows, r.kind = kind)
    (hk : k.field.kind = kind) (htype : k.type = .numeric) (hne : group ≠ [])
    (hplaces : ∀ place ∈ group, place < rows.size) (hlength : group.length ≤ 10 ^ 11) :
    (((numbers (valuesOf rows group k)).map fun x => ⌈|converted x|⌉₊).sum < 2 ^ 96 →
      (total? (numbers (valuesOf rows group k))).isSome) ∧
    ((total? (numbers (valuesOf rows group k))).isSome →
      ∃ lo hi c, IsLeast (convertedIn rows k group) lo ∧ IsGreatest (convertedIn rows k group) hi ∧
        (total (numbers (valuesOf rows group k))).divNat? group.length = some c ∧
        Aggregate.average.value (valuesOf rows group k) =
          Json.ofNumber? (some (c.roundTo 2).toBinary64) ∧
        roundedAway 2 lo ≤ (c.roundTo 2).value ∧ (c.roundTo 2).value ≤ roundedAway 2 hi) := by
  have hcount := length_numbers_valuesOf fun place hplace =>
    exists_number hrows hk htype (hplaces place hplace)
  have hnumbers : numbers (valuesOf rows group k) ≠ [] := by
    rw [← List.length_pos_iff, hcount]
    exact List.length_pos_iff.mpr hne
  refine ⟨fun hsum => ?_, fun hrange => ?_⟩
  · obtain ⟨t, ht⟩ := exists_sumFrom? (n := 0) (a := Decimal.zero)
      (by rw [Decimal.value_of_coefficient_eq_zero rfl]; simp) (by rwa [Nat.zero_add])
    exact Option.isSome_of_eq_some ht
  · obtain ⟨t, ht⟩ := Option.isSome_iff_exists.mp hrange
    obtain ⟨x, hx, y, hy, hbounds⟩ := exists_extremes hnumbers
    obtain ⟨c, hc, hleast, hgreatest⟩ := between_of_total? ht (hcount ▸ hlength) hx hy hbounds
    rw [hcount] at hc
    refine ⟨converted x, converted y, c, ⟨mem_convertedIn.mpr ⟨x, hx, rfl⟩, ?_⟩,
      ⟨mem_convertedIn.mpr ⟨y, hy, rfl⟩, ?_⟩, hc, ?_, ?_, ?_⟩
    · intro q hq
      obtain ⟨z, hz, rfl⟩ := mem_convertedIn.mp hq
      exact (hbounds z hz).1
    · intro q hq
      obtain ⟨z, hz, rfl⟩ := mem_convertedIn.mp hq
      exact (hbounds z hz).2
    · have hvalues : (valuesOf rows group k).length = group.length := List.length_map _
      exact value_average (hvalues ▸ hc)
    · rw [Decimal.value_roundTo c (by decide)]
      exact roundedAway_mono 2 hleast
    · rw [Decimal.value_roundTo c (by decide)]
      exact roundedAway_mono 2 hgreatest

/-- A group of a quarter below zero and of zero has its mean between the two. -/
theorem mean_between_extremes_quarter :
    let rows := #[Registry.gradedSection Registry.quarter.neg, Registry.gradedSection .zero]
    let k : FieldKey := ⟨"a_avg", .avg⟩
    (∀ r ∈ rows, r.kind = .courses) ∧ (∀ place ∈ [1, 0], place < rows.size) ∧
      (total? (numbers (valuesOf rows [1, 0] k))).isSome ∧
      ∃ lo hi c, IsLeast (convertedIn rows k [1, 0]) lo ∧ IsGreatest (convertedIn rows k [1, 0]) hi ∧
        (total (numbers (valuesOf rows [1, 0] k))).divNat? 2 = some c ∧
        roundedAway 2 lo ≤ (c.roundTo 2).value ∧ (c.roundTo 2).value ≤ roundedAway 2 hi := by
  intro rows k
  have hrows : ∀ r ∈ rows, r.kind = .courses := by decide
  have hplaces : ∀ place ∈ [1, 0], place < rows.size := by decide
  have hrange : (total? (numbers (valuesOf rows [1, 0] k))).isSome := by decide +kernel
  obtain ⟨-, hmean⟩ := mean_between_extremes (k := k) hrows rfl rfl (by decide) hplaces (by decide)
  obtain ⟨lo, hi, c, hlo, hhi, hc, -, hleast, hgreatest⟩ := hmean hrange
  exact ⟨hrows, hplaces, hrange, lo, hi, c, hlo, hhi, hc, hleast, hgreatest⟩

/-- The number written `7e28`, which is in the range of decimals. -/
def huge : Binary64 := ⟨false, 7958078640513122, 1117, by decide⟩

/-- Two such numbers have a sum out of range, and half of the greatest decimal is far below them. -/
theorem mean_of_clamped_total :
    let rows := #[Registry.gradedSection huge, Registry.gradedSection huge]
    let k : FieldKey := ⟨"a_avg", .avg⟩
    Decimal.isBeyond huge = false ∧ IsLeast (convertedIn rows k [0, 1]) (7 * 10 ^ 28) ∧
      total? (numbers (valuesOf rows [0, 1] k)) = none ∧
      ∃ c, (total (numbers (valuesOf rows [0, 1] k))).divNat? 2 = some c ∧
        Aggregate.average.value (valuesOf rows [0, 1] k) =
          Json.ofNumber? (some (c.roundTo 2).toBinary64) ∧
        ¬ roundedAway 2 (7 * 10 ^ 28) ≤ (c.roundTo 2).value := by
  intro rows k
  have hread : Decimal.ofBinary64 huge = ⟨7 * 10 ^ 28, 0, by decide, by decide⟩ := by decide +kernel
  have hconverted : converted huge = 7 * 10 ^ 28 := by
    rw [converted, hread]
    norm_num [Decimal.value]
  have hmean : (total (numbers (valuesOf rows [0, 1] k))).divNat? 2 =
      some ⟨39614081257132168796771975168, 0, by decide, by decide⟩ := by decide +kernel
  refine ⟨by decide +kernel, ⟨?_, ?_⟩, by decide +kernel, _, hmean, ?_, ?_⟩
  · exact ⟨0, by decide, huge, rfl, hconverted⟩
  · rintro _ ⟨place, hplace, x, hx, rfl⟩
    have hsame : valueAt rows k.field place = some (.number huge) := by
      rcases List.mem_pair.mp hplace with rfl | rfl <;> rfl
    obtain rfl : huge = x := Value.number.inj (Option.some.inj (hsame.symm.trans hx))
    exact hconverted.ge
  · exact @value_average _ (valuesOf rows [0, 1] k) _ hmean
  · rw [Decimal.value_roundTo _ (by decide)]
    norm_num [roundedAway, signed, Decimal.value]

end Grouping

end CampusQuery
