import Mathlib
import CampusQuery.Proofs.Text.Digits
import CampusQuery.Proofs.Time.Calendar

/-!
# Instants as text

The text of an instant that a clock can show is read as that instant, an inserted second and every
fraction of a second included.

* `Instant.toList_padded` — a number filled up with zeros, as digits.
* `Instant.readField_padded`, `Instant.readYear_yearText`, `Instant.readFraction_fractionText` — the
  parts of a text are read as they were written.
* `Instant.ofText_text` — and so is the whole.
-/

namespace CampusQuery

namespace Instant

/-! ## Digits -/

/-- The decimal digits of a number, at least `width` of them. -/
def paddedDigits (width n : Nat) : List Char :=
  List.replicate (width - (Nat.toDigits 10 n).length) '0' ++ Nat.toDigits 10 n

theorem toList_padded (width n : Nat) : (padded width n).toList = paddedDigits width n := by
  simp [padded, paddedDigits, toList_pushn, ← String.length_toList]

theorem isDigit_of_mem_paddedDigits {width n : Nat} {c : Char} (h : c ∈ paddedDigits width n) :
    c.isDigit = true := by
  rcases List.mem_append.mp h with hzero | hdigit
  · rw [List.eq_of_mem_replicate hzero]
    rfl
  · exact isDigit_of_mem_toDigits hdigit

theorem ofDigitChars_paddedDigits (width n : Nat) :
    Nat.ofDigitChars 10 (paddedDigits width n) 0 = n := by
  rw [paddedDigits, ofDigitChars_zeros_append, Nat.ofDigitChars_ten_toDigits]

theorem length_paddedDigits {width n : Nat} (hwidth : 0 < width) (h : n < 10 ^ width) :
    (paddedDigits width n).length = width := by
  have hlength := length_toDigits_le hwidth h
  rw [paddedDigits, List.length_append, List.length_replicate]
  omega

theorem paddedDigits_ne_nil (width n : Nat) : paddedDigits width n ≠ [] := by
  simp [paddedDigits]

/-- What comes next is no digit. -/
def EndsDigits (cs : List Char) : Prop :=
  ∀ c ∈ cs.head?, c.isDigit = false

theorem EndsDigits.take {cs : List Char} (h : EndsDigits cs) (n : Nat) : EndsDigits (cs.take n) := by
  intro c hc
  rw [List.head?_take] at hc
  split at hc
  · cases hc
  · exact h c hc

theorem takeWhile_isDigit {ds rest : List Char} (h : ∀ c ∈ ds, c.isDigit = true)
    (hrest : EndsDigits rest) : (ds ++ rest).takeWhile Char.isDigit = ds := by
  rw [List.takeWhile_append_of_pos h]
  cases rest with
  | nil => simp
  | cons c rest =>
    have hc : ¬ c.isDigit = true := by simpa using hrest c rfl
    rw [List.takeWhile_cons_of_neg hc, List.append_nil]

theorem readNumber_of_takeWhile {width : Option Nat} {ds rest : List Char} (hne : ds ≠ [])
    (h : (match width with
      | some n => (ds ++ rest).take n
      | none => ds ++ rest).takeWhile Char.isDigit = ds) :
    readNumber width (ds ++ rest) = .ok (Nat.ofDigitChars 10 ds 0, rest) := by
  have hempty : ds.isEmpty = false := by simpa using hne
  cases width <;> unfold readNumber <;>
    simp only [h, hempty, Bool.false_eq_true, if_false, digitsValue_eq, List.drop_left]

/-- As many digits as are asked for are read, whatever follows, -/
theorem readNumber_width {ds : List Char} (hne : ds ≠ []) (h : ∀ c ∈ ds, c.isDigit = true)
    (rest : List Char) :
    readNumber (some ds.length) (ds ++ rest) = .ok (Nat.ofDigitChars 10 ds 0, rest) := by
  refine readNumber_of_takeWhile hne ?_
  simpa using h

/-- fewer up to what is no digit, -/
theorem readNumber_le {width : Nat} {ds rest : List Char} (hne : ds ≠ [])
    (h : ∀ c ∈ ds, c.isDigit = true) (hlength : ds.length ≤ width) (hrest : EndsDigits rest) :
    readNumber (some width) (ds ++ rest) = .ok (Nat.ofDigitChars 10 ds 0, rest) := by
  refine readNumber_of_takeWhile hne ?_
  dsimp only
  rw [List.take_append, List.take_of_length_le hlength]
  exact takeWhile_isDigit h (hrest.take _)

/-- and all of them where no number is given. -/
theorem readNumber_none {ds rest : List Char} (hne : ds ≠ []) (h : ∀ c ∈ ds, c.isDigit = true)
    (hrest : EndsDigits rest) :
    readNumber none (ds ++ rest) = .ok (Nat.ofDigitChars 10 ds 0, rest) :=
  readNumber_of_takeWhile hne (takeWhile_isDigit h hrest)

/-! ## Blanks -/

theorem isBlank_of_isDigit {c : Char} (h : c.isDigit = true) : isBlank c = false := by
  have hc := toNat_of_isDigit h
  simp only [isBlank, Bool.or_eq_false_iff, Bool.and_eq_false_imp, decide_eq_true_eq,
    decide_eq_false_iff_not, beq_eq_false_iff_ne]
  omega

theorem skipBlanks_cons {c : Char} (h : isBlank c = false) (cs : List Char) :
    skipBlanks (c :: cs) = c :: cs := by
  simp [skipBlanks, h]

theorem skipBlanks_digits {ds : List Char} (hne : ds ≠ []) (h : ∀ c ∈ ds, c.isDigit = true)
    (rest : List Char) : skipBlanks (ds ++ rest) = ds ++ rest := by
  obtain ⟨c, cs, rfl⟩ := List.exists_cons_of_ne_nil hne
  exact skipBlanks_cons (isBlank_of_isDigit (h c List.mem_cons_self)) _

/-! ## The parts of a text -/

theorem readChar_cons (c : Char) (rest : List Char) : readChar c (c :: rest) = .ok rest := by
  simp [readChar]

/-- A number of two digits within its bounds. -/
theorem readField_paddedDigits {least greatest n : Nat} (hleast : least ≤ n) (hgreatest : n ≤ greatest)
    (h : n < 100) (rest : List Char) :
    readField least greatest (paddedDigits 2 n ++ rest) = .ok (n, rest) := by
  have hdigits : ∀ c ∈ paddedDigits 2 n, c.isDigit = true := fun c hc =>
    isDigit_of_mem_paddedDigits hc
  have hread := readNumber_width (paddedDigits_ne_nil 2 n) hdigits rest
  rw [length_paddedDigits (by decide) h, ofDigitChars_paddedDigits] at hread
  rw [readField, skipBlanks_digits (paddedDigits_ne_nil 2 n) hdigits, hread]
  simp [bind, Except.bind, hleast, hgreatest]

theorem endsDigits_cons {c : Char} (h : c.isDigit = false) (rest : List Char) :
    EndsDigits (c :: rest) := by
  rintro d ⟨⟩
  exact h

/-- A year, with its sign where it has one. -/
theorem readYear_yearText {year : Int} (hlow : firstYear ≤ year) (hhigh : year ≤ lastYear)
    (rest : List Char) :
    readYear ((yearText year).toList ++ '-' :: rest) = .ok (year, '-' :: rest) := by
  have hdigits : ∀ c ∈ paddedDigits 4 year.natAbs, c.isDigit = true := fun c hc =>
    isDigit_of_mem_paddedDigits hc
  have hne := paddedDigits_ne_nil 4 year.natAbs
  have hvalue := ofDigitChars_paddedDigits 4 year.natAbs
  have hbounds : -2147483648 ≤ year ∧ year ≤ 2147483647 := by
    unfold firstYear at hlow
    unfold lastYear at hhigh
    omega
  by_cases hplain : 0 ≤ year ∧ year ≤ 9999
  · have hlength := length_paddedDigits (by decide : 0 < 4) (by omega : year.natAbs < 10 ^ 4)
    have hread := readNumber_width hne hdigits ('-' :: rest)
    rw [hlength, hvalue] at hread
    have hskip := skipBlanks_digits hne hdigits ('-' :: rest)
    rw [yearText, if_pos hplain, toList_padded, readYear, hskip]
    obtain ⟨c, cs, hc⟩ := List.exists_cons_of_ne_nil hne
    rw [hc] at hread hdigits ⊢
    have hdigit := hdigits c List.mem_cons_self
    dsimp only [List.cons_append] at hread ⊢
    split
    · rename_i heq
      cases (List.cons_eq_cons.mp heq).1 ▸ hdigit
    · rename_i heq
      cases (List.cons_eq_cons.mp heq).1 ▸ hdigit
    · simp only [hread, bind, Except.bind]
      rw [if_pos (by omega)]
      congr 2
      omega
  · have hread := readNumber_none hne hdigits (endsDigits_cons (by decide : '-'.isDigit = false) rest)
    rw [hvalue] at hread
    rw [yearText, if_neg hplain, String.toList_append, toList_padded, List.append_assoc]
    by_cases hneg : year < 0
    · have hsign : "-".toList = ['-'] := by simp
      rw [if_pos hneg, hsign, List.singleton_append, readYear, skipBlanks_cons (by decide)]
      simp only [hread, bind, Except.bind]
      rw [if_pos (by omega)]
      congr 2
      omega
    · have hsign : "+".toList = ['+'] := by simp
      rw [if_neg hneg, hsign, List.singleton_append, readYear, skipBlanks_cons (by decide)]
      simp only [hread, bind, Except.bind]
      rw [if_pos (by omega)]
      congr 2
      omega

theorem readFraction_paddedDigits {width n : Nat} (hpos : 0 < width) (hle : width ≤ 9)
    (h : n < 10 ^ width) (rest : List Char) :
    readFraction ('.' :: (paddedDigits width n ++ 'Z' :: rest)) =
      .ok (n * 10 ^ (9 - width), 'Z' :: rest) := by
  have hdigits : ∀ c ∈ paddedDigits width n, c.isDigit = true := fun c hc =>
    isDigit_of_mem_paddedDigits hc
  have hlength := length_paddedDigits hpos h
  have hread := readNumber_le (paddedDigits_ne_nil width n) hdigits (hlength.trans_le hle)
    (endsDigits_cons (by decide : 'Z'.isDigit = false) rest)
  rw [ofDigitChars_paddedDigits] at hread
  have hkept : (paddedDigits width n ++ 'Z' :: rest).length - ('Z' :: rest).length = width := by
    rw [List.length_append, hlength]
    omega
  simp only [readFraction, hread, bind, Except.bind, hkept]
  rfl

/-- A fraction of a second of any of its lengths. -/
theorem readFraction_fractionText {nanosecond : Nat} (h : nanosecond < 1000000000)
    (rest : List Char) :
    readFraction ((fractionText nanosecond).toList ++ 'Z' :: rest) =
      .ok (nanosecond, 'Z' :: rest) := by
  have hpoint : ".".toList = ['.'] := by simp
  unfold fractionText
  split_ifs with hzero hmilli hmicro
  · rw [hzero]
    rfl
  · rw [String.toList_append, toList_padded, hpoint, List.append_assoc, List.singleton_append,
      readFraction_paddedDigits (by decide) (by decide) (by omega)]
    congr 2
    omega
  · rw [String.toList_append, toList_padded, hpoint, List.append_assoc, List.singleton_append,
      readFraction_paddedDigits (by decide) (by decide) (by omega)]
    congr 2
    omega
  · rw [String.toList_append, toList_padded, hpoint, List.append_assoc, List.singleton_append,
      readFraction_paddedDigits (by decide) (by decide) (by omega)]
    congr 2
    omega

/-! ## The whole text -/

theorem toList_text (t : Instant) :
    t.text.toList = (yearText (Date.ofDay t.day).year).toList ++ '-' ::
      (paddedDigits 2 (Date.ofDay t.day).month ++ '-' ::
      (paddedDigits 2 (Date.ofDay t.day).day ++ 'T' ::
      (paddedDigits 2 (t.second / 3600) ++ ':' ::
      (paddedDigits 2 (t.second / 60 % 60) ++ ':' ::
      (paddedDigits 2 (t.second % 60 + t.nanosecond / 1000000000) ++
      ((fractionText (t.nanosecond % 1000000000)).toList ++ 'Z' :: [])))))) := by
  simp [text, toString, toList_padded, List.append_assoc]

theorem isValid_iff {t : Instant} :
    t.isValid = true ↔ (firstYear ≤ (Date.ofDay t.day).year ∧ (Date.ofDay t.day).year ≤ lastYear) ∧
      t.second < 86400 ∧
        (t.nanosecond < 1000000000 ∨ t.second % 60 = 59 ∧ t.nanosecond < 2000000000) := by
  simp only [isValid, Bool.and_eq_true, Bool.or_eq_true, decide_eq_true_eq, beq_iff_eq, and_assoc]

theorem ofLocal_of_isValid {t : Instant} (h : t.isValid = true) :
    ofLocal (Date.ofDay t.day) t.second t.nanosecond 0 = .ok t := by
  obtain ⟨⟨hlow, hhigh⟩, hsecond, -⟩ := isValid_iff.mp h
  have huniversal : (t.second : Int) - 0 = t.second := Int.sub_zero _
  have hdiv : (t.second : Int).fdiv 86400 = 0 := by
    rw [Int.fdiv_eq_ediv_of_nonneg _ (by decide)]
    omega
  have hmod : (t.second : Int).fmod 86400 = t.second := by
    rw [Int.fmod_eq_emod_of_nonneg _ (by decide)]
    omega
  simp [ofLocal, Date.isValid_ofDay, hlow, hhigh, hdiv, hmod, Date.toDay_ofDay]

theorem date_bounds (n : Int) :
    (1 ≤ (Date.ofDay n).month ∧ (Date.ofDay n).month ≤ 12) ∧
      1 ≤ (Date.ofDay n).day ∧ (Date.ofDay n).day ≤ 31 := by
  have h := Date.isValid_ofDay n
  simp only [Date.isValid, Bool.and_eq_true, decide_eq_true_eq] at h
  have hmonth : Date.daysInMonth (Date.ofDay n).year (Date.ofDay n).month ≤ 31 := by
    unfold Date.daysInMonth
    split_ifs <;> decide
  omega

/-- The text of an instant that a clock can show is read as it. -/
theorem ofText_text {t : Instant} (h : t.isValid = true) : ofText t.text = .ok t := by
  obtain ⟨⟨hlow, hhigh⟩, hsecond, hnanosecond⟩ := isValid_iff.mp h
  obtain ⟨⟨hmonth, hmonth'⟩, hday, hday'⟩ := date_bounds t.day
  have hlocal := ofLocal_of_isValid h
  have hinserted : (t.second % 60 + t.nanosecond / 1000000000) / 60 =
      t.nanosecond / 1000000000 := by omega
  unfold ofText
  rw [toList_text, readYear_yearText hlow hhigh]
  have hmark : ∀ (c : Char) (cs : List Char), isBlank c = false →
      readChar c (skipBlanks (c :: cs)) = .ok cs := fun c cs hc => by
    rw [skipBlanks_cons hc, readChar_cons]
  have hzulu : readOffset (skipBlanks ['Z']) = .ok (0, []) := by decide
  simp only [bind, Except.bind, hmark '-' _ rfl, hmark ':' _ rfl, true_or, if_true,
    readField_paddedDigits hmonth hmonth' (by omega),
    readField_paddedDigits hday hday' (by omega),
    readField_paddedDigits (Nat.zero_le _) (by omega : t.second / 3600 ≤ 23) (by omega),
    readField_paddedDigits (Nat.zero_le _) (by omega : t.second / 60 % 60 ≤ 59) (by omega),
    readField_paddedDigits (Nat.zero_le _)
      (by omega : t.second % 60 + t.nanosecond / 1000000000 ≤ 60) (by omega),
    readFraction_fractionText (Nat.mod_lt t.nanosecond (by decide)) [], hzulu, hinserted]
  have hseconds : t.second / 3600 * 3600 + t.second / 60 % 60 * 60 +
      (t.second % 60 + t.nanosecond / 1000000000 - t.nanosecond / 1000000000) = t.second := by omega
  have hnanoseconds : t.nanosecond % 1000000000 + t.nanosecond / 1000000000 * 1000000000 =
      t.nanosecond := by omega
  rw [hseconds, hnanoseconds]
  exact hlocal

end Instant

end CampusQuery
