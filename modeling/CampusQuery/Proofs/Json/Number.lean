import Mathlib
import CampusQuery.Proofs.Json.Text
import CampusQuery.Proofs.Number.Scaled

/-!
# Numbers in the bytes of a document

The text of an integer of 64 bits is read as that integer, where nothing follows that could belong
to it. The text of a floating-point number holds digits of which it is the nearest number, but is
read in steps that each round, so that another number near it may be read. It is always read as some
number.

* `Json.Denotes` — a text that is the numeral of `digits · 10 ^ exponent`.
* `Json.exists_renders` — the text of a number denotes a decimal of which it is the nearest number.
* `Binary64.reread` — the number that is read of the text of a number, and `Json.readScalar_float`
  that it is; `Json.float_text_inj` — numbers are told apart by their texts though.
* `Json.reread_of_short` — the text of a decimal of few digits is read as the same number.
* `Json.readScalar_integer` — integers are read as they are.
-/

namespace CampusQuery

namespace Json

open NumberStyle

/-- What follows a number does not go on with it. -/
def EndsNumber (rest : Bytes) : Prop :=
  ∀ b ∈ rest.head?, isDigit b = false ∧ b ≠ '.'.toUInt8 ∧ b ≠ 'e'.toUInt8 ∧ b ≠ 'E'.toUInt8

theorem EndsNumber.digitAhead {rest : Bytes} (h : EndsNumber rest) : digitAhead rest = false := by
  cases rest with
  | nil => rfl
  | cons b rest => exact (h b rfl).1

/-- Decimal digits without a leading zero that could be left out. -/
structure IsWhole (cs : List Char) : Prop where
  ne_nil : cs ≠ []
  digits : ∀ c ∈ cs, c.isDigit = true
  lead : cs.head? = some '0' → cs = ['0']

theorem isWhole_toDigits (n : Nat) : IsWhole (Nat.toDigits 10 n) := by
  refine ⟨Nat.toDigits_ne_nil, fun c hc => isDigit_of_mem_toDigits hc, fun h => ?_⟩
  have hn : n = 0 := by
    by_contra hn
    exact head?_toDigits_ne_zero hn h
  rw [hn]
  rfl

theorem bytesOf_digits {cs : List Char} (h : ∀ c ∈ cs, c.isDigit = true) :
    bytesOf (String.ofList cs) = cs.map Char.toUInt8 := by
  rw [bytesOf_of_forall_lt, String.toList_ofList]
  rw [String.toList_ofList]
  intro c hc
  have := toNat_of_isDigit (h c hc)
  omega

/-! ## Digits -/

theorem takeWhile_digits {ds rest : Bytes} (h : ∀ b ∈ ds, isDigit b = true)
    (hrest : digitAhead rest = false) :
    (ds ++ rest).takeWhile isDigit = ds ∧ (ds ++ rest).dropWhile isDigit = rest := by
  rw [List.takeWhile_append_of_pos h, List.dropWhile_append_of_pos h]
  cases rest with
  | nil => simp
  | cons b rest =>
    have hb : ¬ isDigit b = true := by simpa [digitAhead] using hrest
    simp [List.takeWhile_cons_of_neg hb, List.dropWhile_cons_of_neg hb]

theorem readExponentDigits_append {cs : List Char} (h : ∀ c ∈ cs, c.isDigit = true) {n : Nat}
    (hlt : Nat.ofDigitChars 10 cs n < 2 ^ 31) {rest : Bytes} (hrest : digitAhead rest = false) :
    readExponentDigits n (cs.map Char.toUInt8 ++ rest) =
      (some (Nat.ofDigitChars 10 cs n), rest) := by
  induction cs generalizing n with
  | nil =>
    cases rest with
    | nil => rfl
    | cons b rest =>
      have hb : ¬ isDigit b = true := by simpa [digitAhead] using hrest
      simp [readExponentDigits, hb]
  | cons c cs ih =>
    obtain ⟨hc, hcs⟩ := List.forall_mem_cons.mp h
    rw [Nat.ofDigitChars_cons, Nat.mul_comm] at hlt
    have hnext : n * 10 + Numeral.digitValue c.toUInt8 < Nat.pow 2 31 := by
      rw [Numeral.digitValue_toUInt8 hc]
      rw [Nat.ofDigitChars_eq_ofDigitChars_zero] at hlt
      refine Nat.lt_of_le_of_lt ?_ hlt
      exact Nat.le_add_right_of_le (Nat.le_mul_of_pos_left _ (Nat.pow_pos (by decide)))
    rw [List.map_cons, List.cons_append, readExponentDigits]
    simp only [isDigit_toUInt8 hc, if_true, hnext]
    rw [Numeral.digitValue_toUInt8 hc, ih hcs hlt, Nat.ofDigitChars_cons, Nat.mul_comm]

/-! ## The parts of a number -/

theorem readExponent_append {whole fraction : Bytes} {sign : Char} {cs : List Char}
    (hsign : sign = '-' ∨ sign = '+') (hne : cs ≠ []) (h : ∀ c ∈ cs, c.isDigit = true)
    (hlt : Nat.ofDigitChars 10 cs 0 < 2 ^ 31) {rest : Bytes} (hrest : digitAhead rest = false) :
    readExponent whole fraction (sign.toUInt8 :: (cs.map Char.toUInt8 ++ rest)) =
      .ok (⟨whole, fraction, some (if sign = '-' then -(Nat.ofDigitChars 10 cs 0 : Int)
        else Nat.ofDigitChars 10 cs 0)⟩, rest) := by
  have hread := readExponentDigits_append h hlt hrest
  obtain ⟨c, cs, rfl⟩ := List.exists_cons_of_ne_nil hne
  have hc := isDigit_toUInt8 (h c List.mem_cons_self)
  rw [List.map_cons, List.cons_append] at hread ⊢
  have hplus : '+'.toUInt8 ≠ '-'.toUInt8 := by decide
  rcases hsign with rfl | rfl
  · simp [readExponent, hc, hread]
  · simp [readExponent, hplus, hc, hread]

theorem readExponent?_of_endsNumber {whole fraction rest : Bytes} (h : EndsNumber rest) :
    readExponent? whole fraction rest = .ok (⟨whole, fraction, none⟩, rest) := by
  cases rest with
  | nil => rfl
  | cons b rest =>
    obtain ⟨-, -, he, hE⟩ := h b rfl
    rw [readExponent?]
    simp only [he, hE, or_self, if_false]

/-- Digits, before anything that is no digit. -/
theorem readNumeral_append {cs : List Char} (h : IsWhole cs) {rest : Bytes}
    (hrest : digitAhead rest = false) :
    readNumeral (cs.map Char.toUInt8 ++ rest) =
      match rest with
      | [] => .ok (⟨cs.map Char.toUInt8, [], none⟩, [])
      | mark :: after =>
        if mark = '.'.toUInt8 then
          if digitAhead after then
            readExponent? (cs.map Char.toUInt8) (after.takeWhile isDigit) (after.dropWhile isDigit)
          else
            failAhead (if after.isEmpty then .endInValue else .badNumber) after
        else
          readExponent? (cs.map Char.toUInt8) [] (mark :: after) := by
  obtain ⟨htake, hdrop⟩ := takeWhile_digits (isDigit_of_mem_map h.digits) hrest
  obtain ⟨c, cs, rfl⟩ := List.exists_cons_of_ne_nil h.ne_nil
  have hc := isDigit_toUInt8 (h.digits c List.mem_cons_self)
  have hlead : ¬ (c.toUInt8 = '0'.toUInt8 ∧ digitAhead (cs.map Char.toUInt8 ++ rest) = true) := by
    rintro ⟨hzero, hahead⟩
    have hlt := toNat_of_isDigit (h.digits c List.mem_cons_self)
    have hc0 : c = '0' := by
      apply Char.toNat_inj.mp
      rw [← toNat_toUInt8 (c := c) (by omega), hzero]
      rfl
    have hnil : cs = [] := by
      have hsingle := h.lead (by rw [hc0]; rfl)
      exact (List.cons_eq_cons.mp hsingle).2
    rw [hnil, List.map_nil, List.nil_append, hrest] at hahead
    cases hahead
  rw [List.map_cons, List.cons_append] at htake hdrop ⊢
  rw [readNumeral]
  simp only [hc, Bool.not_true, Bool.false_eq_true, if_false, hlead, htake, hdrop]
  cases rest <;> rfl

/-- A text that is the numeral of `digits · 10 ^ exponent`, with a point or an exponent. -/
def Denotes (text : String) (digits : Nat) (exponent : Int) : Prop :=
  ∃ a : Numeral, a.isWhole = false ∧ Numeral.digitsValue (a.whole ++ a.fraction) = digits ∧
    a.exponent.getD 0 - a.fraction.length = exponent ∧
    ∀ rest, EndsNumber rest → readNumeral (bytesOf text ++ rest) = .ok (a, rest)

/-- Digits with a point among them, before what may follow. -/
theorem readNumeral_point {whole fraction : List Char} (hwhole : IsWhole whole)
    (hne : fraction ≠ []) (hfraction : ∀ c ∈ fraction, c.isDigit = true) {rest : Bytes}
    (hrest : digitAhead rest = false) :
    readNumeral
        (whole.map Char.toUInt8 ++ '.'.toUInt8 :: (fraction.map Char.toUInt8 ++ rest)) =
      readExponent? (whole.map Char.toUInt8) (fraction.map Char.toUInt8) rest := by
  obtain ⟨htake, hdrop⟩ := takeWhile_digits (isDigit_of_mem_map hfraction) hrest
  have hahead : digitAhead (fraction.map Char.toUInt8 ++ rest) = true := by
    obtain ⟨c, cs, rfl⟩ := List.exists_cons_of_ne_nil hne
    exact isDigit_toUInt8 (hfraction c List.mem_cons_self)
  rw [readNumeral_append hwhole rfl]
  simp only [if_true, hahead, htake, hdrop]

/-- Digits before the mark of an exponent. -/
theorem readNumeral_mark {cs : List Char} (h : IsWhole cs) (rest : Bytes) :
    readNumeral (cs.map Char.toUInt8 ++ 'e'.toUInt8 :: rest) =
      readExponent (cs.map Char.toUInt8) [] rest := by
  rw [readNumeral_append h rfl]
  rfl

/-- Digits before what may follow a number. -/
theorem readNumeral_whole {cs : List Char} (h : IsWhole cs) {rest : Bytes}
    (hrest : EndsNumber rest) :
    readNumeral (cs.map Char.toUInt8 ++ rest) = .ok (⟨cs.map Char.toUInt8, [], none⟩, rest) := by
  rw [readNumeral_append h hrest.digitAhead]
  cases rest with
  | nil => rfl
  | cons b rest =>
    obtain ⟨-, hpoint, -, -⟩ := hrest b rfl
    simp only [hpoint, if_false]
    exact readExponent?_of_endsNumber hrest

/-! ## Digits with a point -/

/-- The two sides of the point that is set among digits. -/
theorem withPoint_eq {cs : List Char} (hcs : ∀ c ∈ cs, c.isDigit = true)
    (hlead : cs.head? ≠ some '0') {places : Nat} (hplaces : 0 < places) :
    ∃ whole fraction, withPoint (String.ofList cs) places =
        String.ofList whole ++ "." ++ String.ofList fraction ∧
      IsWhole whole ∧ (∀ c ∈ fraction, c.isDigit = true) ∧ fraction.length = places ∧
      Nat.ofDigitChars 10 (whole ++ fraction) 0 = Nat.ofDigitChars 10 cs 0 := by
  let padded := List.replicate (places + 1 - cs.length) '0' ++ cs
  have hlength : padded.length = max (places + 1) cs.length := by
    simp only [padded, List.length_append, List.length_replicate]
    omega
  have hdigits : ∀ c ∈ padded, c.isDigit = true := by
    intro c hc
    rcases List.mem_append.mp hc with hzero | hmem
    · rw [List.eq_of_mem_replicate hzero]
      rfl
    · exact hcs c hmem
  refine ⟨padded.take (padded.length - places), padded.drop (padded.length - places), ?_, ?_, ?_,
    ?_, ?_⟩
  · apply String.toList_inj.mp
    simp [withPoint, toString, toList_pushn, padded]
  · refine ⟨?_, fun c hc => hdigits c (List.mem_of_mem_take hc), fun hzero => ?_⟩
    · rw [Ne, List.take_eq_nil_iff, not_or]
      exact ⟨by omega, List.ne_nil_of_length_pos (by omega)⟩
    · -- only a zero that fills up leads
      rw [List.head?_take, if_neg (by omega)] at hzero
      by_cases hlong : cs.length ≤ places
      · have hone : padded.length - places = 1 := by omega
        have hnil : padded ≠ [] := List.ne_nil_of_length_pos (by omega)
        obtain ⟨c, rest, hc⟩ := List.exists_cons_of_ne_nil hnil
        rw [hc, List.head?_cons, Option.some.injEq] at hzero
        rw [hone, hc, hzero, List.take_one, List.head?_cons]
        rfl
      · have hsame : padded = cs := by
          simp [padded, show places + 1 - cs.length = 0 by omega]
        exact absurd (hsame ▸ hzero) hlead
  · exact fun c hc => hdigits c (List.mem_of_mem_drop hc)
  · rw [List.length_drop]
    omega
  · rw [List.take_append_drop]
    exact ofDigitChars_zeros_append _ cs

theorem bytesOf_point (whole fraction : List Char) (hwhole : ∀ c ∈ whole, c.isDigit = true)
    (hfraction : ∀ c ∈ fraction, c.isDigit = true) :
    bytesOf (String.ofList whole ++ "." ++ String.ofList fraction) =
      whole.map Char.toUInt8 ++ '.'.toUInt8 :: fraction.map Char.toUInt8 := by
  have hpoint : bytesOf "." = ['.'.toUInt8] := bytesOf_single (by decide) (by decide)
  rw [bytesOf_append, bytesOf_append, bytesOf_digits hwhole, bytesOf_digits hfraction, hpoint,
    List.append_assoc]
  rfl

theorem digitsValue_point {whole fraction : List Char} (hwhole : ∀ c ∈ whole, c.isDigit = true)
    (hfraction : ∀ c ∈ fraction, c.isDigit = true) :
    Numeral.digitsValue (whole.map Char.toUInt8 ++ fraction.map Char.toUInt8) =
      Nat.ofDigitChars 10 (whole ++ fraction) 0 := by
  rw [← List.map_append]
  exact Numeral.digitsValue_map fun c hc =>
    (List.mem_append.mp hc).elim (hwhole c) (hfraction c)

theorem denotes_point {whole fraction : List Char} (hwhole : IsWhole whole)
    (hne : fraction ≠ []) (hfraction : ∀ c ∈ fraction, c.isDigit = true) :
    Denotes (String.ofList whole ++ "." ++ String.ofList fraction)
      (Nat.ofDigitChars 10 (whole ++ fraction) 0) (-(fraction.length : Int)) := by
  refine ⟨⟨whole.map Char.toUInt8, fraction.map Char.toUInt8, none⟩, ?_,
    digitsValue_point hwhole.digits hfraction, ?_, fun rest hrest => ?_⟩
  · simpa [Numeral.isWhole] using hne
  · simp
  · rw [bytesOf_point whole fraction hwhole.digits hfraction, List.append_assoc, List.cons_append,
      readNumeral_point hwhole hne hfraction hrest.digitAhead, readExponent?_of_endsNumber hrest]

theorem denotes_withPoint {n places : Nat} (hn : n ≠ 0) (hplaces : 0 < places) :
    Denotes (withPoint (toString n) places) n (-(places : Int)) := by
  obtain ⟨whole, fraction, htext, hwhole, hfraction, hlength, hvalue⟩ :=
    withPoint_eq (fun c hc => isDigit_of_mem_toDigits hc) (head?_toDigits_ne_zero hn) hplaces
  have hpoint := denotes_point hwhole (List.ne_nil_of_length_pos (by omega)) hfraction
  rw [Nat.toString_eq_ofList_toDigits, htext, ← hlength]
  rwa [hvalue, Nat.ofDigitChars_ten_toDigits] at hpoint

/-- A whole number with its point, which is read as ten times as many tenths. -/
theorem denotes_pushn {n k : Nat} (h : n ≠ 0 ∨ k = 0) :
    Denotes ((toString n).pushn '0' k ++ ".0") (n * 10 ^ (k + 1)) (-1) := by
  have htext : (toString n).pushn '0' k ++ ".0" =
      String.ofList (Nat.toDigits 10 n ++ List.replicate k '0') ++ "." ++ String.ofList ['0'] := by
    apply String.toList_inj.mp
    simp [toList_pushn]
  have hwhole : IsWhole (Nat.toDigits 10 n ++ List.replicate k '0') := by
    rcases h with hn | rfl
    · refine ⟨by simp, fun c hc => ?_, fun hzero => ?_⟩
      · rcases List.mem_append.mp hc with hdigit | hzero
        · exact isDigit_of_mem_toDigits hdigit
        · rw [List.eq_of_mem_replicate hzero]
          rfl
      · have hhead := head?_toDigits_ne_zero hn
        obtain ⟨c, cs, hc⟩ := List.exists_cons_of_ne_nil (Nat.toDigits_ne_nil (n := n) (b := 10))
        rw [hc] at hzero hhead
        exact absurd hzero hhead
    · rw [List.replicate_zero, List.append_nil]
      exact isWhole_toDigits n
  have hpoint := denotes_point hwhole (List.cons_ne_nil '0' []) (by simp)
  have hvalue : Nat.ofDigitChars 10 (Nat.toDigits 10 n ++ List.replicate k '0' ++ ['0']) 0 =
      n * 10 ^ (k + 1) := by
    rw [List.append_assoc, ← List.replicate_succ', ofDigitChars_append_zeros,
      Nat.ofDigitChars_ten_toDigits]
  rw [htext]
  rwa [hvalue] at hpoint

theorem bytesOf_minus : bytesOf "-" = ['-'.toUInt8] :=
  bytesOf_single (by decide) (by decide)

/-- An exponent of fewer than 32 bits. -/
theorem readExponent_natAbs {whole fraction : Bytes} {power : Int}
    (hpower : power.natAbs < 2 ^ 31) {rest : Bytes} (hrest : EndsNumber rest) :
    readExponent whole fraction
        (bytesOf ((if power < 0 then "-" else "+") ++ toString power.natAbs) ++ rest) =
      .ok (⟨whole, fraction, some power⟩, rest) := by
  have hdigits : ∀ c ∈ Nat.toDigits 10 power.natAbs, c.isDigit = true := fun c hc =>
    isDigit_of_mem_toDigits hc
  have hlt : Nat.ofDigitChars 10 (Nat.toDigits 10 power.natAbs) 0 < 2 ^ 31 := by
    rwa [Nat.ofDigitChars_ten_toDigits]
  have htext : bytesOf (toString power.natAbs) =
      (Nat.toDigits 10 power.natAbs).map Char.toUInt8 := by
    rw [Nat.toString_eq_ofList_toDigits, bytesOf_digits hdigits]
  by_cases hneg : power < 0
  · rw [if_pos hneg, bytesOf_append, bytesOf_minus, htext]
    refine (readExponent_append (Or.inl rfl) Nat.toDigits_ne_nil hdigits hlt
      hrest.digitAhead).trans ?_
    rw [if_pos rfl, Nat.ofDigitChars_ten_toDigits, show -(power.natAbs : Int) = power by omega]
  · have hsign : bytesOf "+" = ['+'.toUInt8] := bytesOf_single (by decide) (by decide)
    rw [if_neg hneg, bytesOf_append, hsign, htext]
    refine (readExponent_append (Or.inr rfl) Nat.toDigits_ne_nil hdigits hlt
      hrest.digitAhead).trans ?_
    rw [if_neg (by decide), Nat.ofDigitChars_ten_toDigits,
      show (power.natAbs : Int) = power by omega]

theorem denotes_renderExponent {n : Nat} (hn : n ≠ 0) {power : Int}
    (hpower : power.natAbs < 2 ^ 31) :
    Denotes (renderExponent (toString n) power) n
      (power - ((Nat.toDigits 10 n).length - 1 : Nat)) := by
  have hlength : (toString n).length = (Nat.toDigits 10 n).length := by
    rw [Nat.toString_eq_ofList_toDigits, String.length_ofList]
  have hmark : bytesOf "e" = ['e'.toUInt8] := bytesOf_single (by decide) (by decide)
  have htext : renderExponent (toString n) power =
      (if (toString n).length ≤ 1 then toString n
        else withPoint (toString n) ((toString n).length - 1)) ++ "e" ++
      ((if power < 0 then "-" else "+") ++ toString power.natAbs) := by
    simp [renderExponent, toString, String.append_assoc]
  have hdigits : ∀ c ∈ Nat.toDigits 10 n, c.isDigit = true := fun c hc => isDigit_of_mem_toDigits hc
  by_cases hshort : (Nat.toDigits 10 n).length ≤ 1
  · refine ⟨⟨(Nat.toDigits 10 n).map Char.toUInt8, [], some power⟩, rfl, ?_, ?_,
      fun rest hrest => ?_⟩
    · rw [List.append_nil, Numeral.digitsValue_map hdigits, Nat.ofDigitChars_ten_toDigits]
    · rw [Nat.sub_eq_zero_of_le hshort]
      rfl
    · rw [htext, bytesOf_append, bytesOf_append, hmark, hlength, if_pos hshort,
        Nat.toString_eq_ofList_toDigits, bytesOf_digits hdigits, List.append_assoc,
        List.append_assoc, List.singleton_append]
      exact (readNumeral_mark (isWhole_toDigits n) _).trans (readExponent_natAbs hpower hrest)
  · obtain ⟨whole, fraction, hpoint, hwhole, hfraction, hplaces, hvalue⟩ :=
      withPoint_eq hdigits (head?_toDigits_ne_zero hn)
        (by omega : 0 < (Nat.toDigits 10 n).length - 1)
    have hne : fraction ≠ [] := List.ne_nil_of_length_pos (by omega)
    refine ⟨⟨whole.map Char.toUInt8, fraction.map Char.toUInt8, some power⟩, ?_, ?_, ?_,
      fun rest hrest => ?_⟩
    · simp [Numeral.isWhole]
    · rw [digitsValue_point hwhole.digits hfraction, hvalue, Nat.ofDigitChars_ten_toDigits]
    · rw [List.length_map, hplaces]
      rfl
    · rw [htext, bytesOf_append, bytesOf_append, hmark, hlength, if_neg hshort,
        Nat.toString_eq_ofList_toDigits, hpoint,
        bytesOf_point whole fraction hwhole.digits hfraction, List.append_assoc, List.append_assoc,
        List.append_assoc, List.cons_append, List.singleton_append]
      exact (readNumeral_point hwhole hne hfraction rfl).trans (readExponent_natAbs hpower hrest)

/-! ## Floating-point numbers as text -/

/-- A text of which the size of a number is the nearest number, whatever its sign is, and of which
some number is read. -/
structure Renders (body : String) (x : Binary64) (digits : Nat) (exponent : Int) : Prop where
  denotes : Denotes body digits exponent
  nearest : Binary64.ofDecimal x.negative digits exponent = some x
  few : digits < Nat.pow 2 64
  read : ((Binary64.ofInt (digits : Nat)).scaled? exponent).isSome

/-- The first digit of a number stands at this power of ten. -/
def leadPower (s : Scientific) : Int :=
  s.exponent + (Nat.toDigits 10 s.digits).length - 1

theorem few_shortest (x : Binary64) : (x.shortest .toEven).digits < Nat.pow 2 64 :=
  (x.digits_shortest_lt .toEven).trans (by decide)

/-- A whole number that is written out has few digits, also with a zero behind its point. -/
theorem few_tenths {s : Scientific} (hs : 0 ≤ s.exponent) (hpower : leadPower s < 16) :
    s.digits * 10 ^ (s.exponent.toNat + 1) < Nat.pow 2 64 := by
  have hlt : s.digits < 10 ^ (Nat.toDigits 10 s.digits).length :=
    (Nat.length_toDigits_le_iff (by decide) Nat.length_toDigits_pos).mp le_rfl
  have hlength : (Nat.toDigits 10 s.digits).length + (s.exponent.toNat + 1) ≤ 17 := by
    unfold leadPower at hpower
    omega
  calc s.digits * 10 ^ (s.exponent.toNat + 1)
      < 10 ^ (Nat.toDigits 10 s.digits).length * 10 ^ (s.exponent.toNat + 1) :=
        Nat.mul_lt_mul_of_pos_right hlt (Nat.pow_pos (by decide))
    _ = 10 ^ ((Nat.toDigits 10 s.digits).length + (s.exponent.toNat + 1)) := (Nat.pow_add ..).symm
    _ ≤ 10 ^ 17 := Nat.pow_le_pow_right (by decide) hlength
    _ < Nat.pow 2 64 := by decide

theorem renders_renderPlain {x : Binary64} (hpower : leadPower (x.shortest .toEven) < 16) :
    ∃ digits exponent, Renders (renderPlain NumberStyle.document (x.shortest .toEven)) x digits
      exponent ∧ ((x.shortest .toEven).exponent < 0 →
        digits = (x.shortest .toEven).digits ∧ exponent = (x.shortest .toEven).exponent) := by
  by_cases hx : x.significand = 0
  · have hzero : x.shortest .toEven = ⟨0, 0⟩ := by rw [Binary64.shortest, if_pos hx]
    rw [hzero]
    refine ⟨0 * 10 ^ (0 + 1), -1, ⟨denotes_pushn (Or.inr rfl), ?_, by decide,
      Binary64.isSome_scaled?_of_neg _ (by decide)⟩, fun hneg => absurd hneg (lt_irrefl 0)⟩
    rw [Nat.zero_mul]
    exact Binary64.ofDecimal_zero hx (-1)
  · have hcovered := Binary64.isCovered_shortest .toEven hx
    have hne := Binary64.digits_ne_zero_of_isCovered hx hcovered
    have hread := Binary64.exists_scaled?_shortest hx
    have hfew := few_shortest x
    generalize x.shortest .toEven = s at *
    by_cases hexponent : s.exponent < 0
    · refine ⟨s.digits, s.exponent,
        ⟨?_, Binary64.ofDecimal_of_isCovered hx hcovered, hfew, hread⟩, fun _ => ⟨rfl, rfl⟩⟩
      have hpoint := denotes_withPoint hne (by omega : 0 < (-s.exponent).toNat)
      rw [show -((-s.exponent).toNat : Int) = s.exponent by omega] at hpoint
      rw [renderPlain, if_pos hexponent]
      exact hpoint
    · have htenths := Binary64.isCovered_tenths hcovered (by omega)
      refine ⟨_, _, ⟨?_, Binary64.ofDecimal_of_isCovered hx htenths, few_tenths (by omega) hpower,
        Binary64.isSome_scaled?_of_neg _ (by decide)⟩, fun hneg => absurd hneg hexponent⟩
      rw [renderPlain, if_neg hexponent]
      exact denotes_pushn (Or.inl hne)

/-- The power of ten at which the first digit of a number stands has few digits itself. -/
theorem natAbs_leadPower_lt {x : Binary64} (hx : x.significand ≠ 0) :
    (leadPower (x.shortest .toEven)).natAbs < 2 ^ 31 := by
  have hcovered := Binary64.isCovered_shortest .toEven hx
  have hlow : -1074 ≤ (x.shortest .toEven).exponent := by
    rw [Binary64.shortest, if_neg hx]
    exact Binary64.le_exponent_firstOnGrid .toEven x _
  generalize x.shortest .toEven = s at *
  have hhigh := Binary64.exponent_le_of_isCovered hx hcovered
  have hlength := length_toDigits_le (by omega) (Binary64.digits_lt_of_isCovered hx hcovered)
  have hexponent := x.exponent_le
  unfold leadPower
  omega

theorem renders_renderExponent {x : Binary64} (hx : x.significand ≠ 0) :
    Renders (renderExponent (toString (x.shortest .toEven).digits) (leadPower (x.shortest .toEven)))
      x (x.shortest .toEven).digits (x.shortest .toEven).exponent := by
  have hcovered := Binary64.isCovered_shortest .toEven hx
  refine ⟨?_, Binary64.ofDecimal_of_isCovered hx hcovered, few_shortest x,
    Binary64.exists_scaled?_shortest hx⟩
  have hpower := natAbs_leadPower_lt hx
  generalize x.shortest .toEven = s at *
  have hpos : 0 < (Nat.toDigits 10 s.digits).length := Nat.length_toDigits_pos
  have hdenotes :=
    denotes_renderExponent (Binary64.digits_ne_zero_of_isCovered hx hcovered) hpower
  rwa [leadPower, show s.exponent + ((Nat.toDigits 10 s.digits).length : Int) - 1 -
    ((Nat.toDigits 10 s.digits).length - 1 : Nat) = s.exponent by omega] at hdenotes

/-- The text of a number is its sign and a text of which its size is the nearest number; a fraction
is written in the digits of its shortest decimal. -/
theorem exists_renders (x : Binary64) :
    ∃ body digits exponent,
      NumberStyle.document.render x = (if x.negative then "-" else "") ++ body ∧
        Renders body x digits exponent ∧ ((x.shortest .toEven).exponent < 0 →
          digits = (x.shortest .toEven).digits ∧ exponent = (x.shortest .toEven).exponent) := by
  have hlength : (toString (x.shortest .toEven).digits).length =
      (Nat.toDigits 10 (x.shortest .toEven).digits).length := by
    rw [Nat.toString_eq_ofList_toDigits, String.length_ofList]
  have hsign : ∀ body : String, (if x.negative then "-" ++ body else body) =
      (if x.negative then "-" else "") ++ body := by
    intro body
    cases x.negative <;> simp
  have hrender : NumberStyle.document.render x = (if x.negative then "-" else "") ++
      (if NumberStyle.document.positional (leadPower (x.shortest .toEven)) then
        NumberStyle.document.renderPlain (x.shortest .toEven)
      else renderExponent (toString (x.shortest .toEven).digits)
        (leadPower (x.shortest .toEven))) := by
    rw [← hsign]
    have htie : NumberStyle.document.tie = .toEven := rfl
    simp only [NumberStyle.render, leadPower, htie, hlength]
    rfl
  by_cases hpositional : NumberStyle.document.positional (leadPower (x.shortest .toEven)) = true
  · rw [if_pos hpositional] at hrender
    have hpower : leadPower (x.shortest .toEven) < 16 := by
      simp only [NumberStyle.document, Bool.and_eq_true, decide_eq_true_eq] at hpositional
      exact hpositional.2
    obtain ⟨digits, exponent, hrenders⟩ := renders_renderPlain hpower
    exact ⟨_, digits, exponent, hrender, hrenders⟩
  · rw [if_neg hpositional] at hrender
    refine ⟨_, _, _, hrender, renders_renderExponent fun hx => hpositional ?_, fun _ => ⟨rfl, rfl⟩⟩
    -- zero is written without an exponent
    rw [Binary64.shortest, if_pos hx]
    rfl

/-! ## What is read -/

theorem digitAhead_of_readNumeral {rest rest' : Bytes} {a : Numeral}
    (h : readNumeral rest = .ok (a, rest')) : digitAhead rest = true := by
  cases rest with
  | nil => cases h
  | cons c rest =>
    by_contra hc
    have hc' : isDigit c = false := by simpa [digitAhead] using hc
    simp [readNumeral, hc', fail] at h

theorem readNumber_eq_ok {negative : Bool} {rest rest' : Bytes} {a : Numeral} {n : JsonNumber}
    (h : readNumeral rest = .ok (a, rest')) (hn : JsonNumber.ofNumeral? negative a = some n) :
    readNumber negative rest = .ok (n, rest') := by
  rw [readNumber, h]
  simp only [bind, Except.bind, hn]
  rfl

theorem digitAhead_of_readNumber {negative : Bool} {rest rest' : Bytes} {n : JsonNumber}
    (h : readNumber negative rest = .ok (n, rest')) : digitAhead rest = true := by
  cases hread : readNumeral rest with
  | error => simp [readNumber, hread, bind, Except.bind] at h
  | ok read => exact digitAhead_of_readNumeral hread

theorem readScalar_minus {after rest : Bytes} {n : JsonNumber}
    (h : readNumber true after = .ok (n, rest)) :
    readScalar ('-'.toUInt8 :: after) = .ok (.number n, rest) := by
  have hminus : Char.ofNat '-'.toUInt8.toNat = '-' := by decide
  rw [readScalar, hminus]
  simp [h, bind, Except.bind, pure, Except.pure]

theorem readScalar_digit {bytes rest : Bytes} {n : JsonNumber}
    (h : readNumber false bytes = .ok (n, rest)) :
    readScalar bytes = .ok (.number n, rest) := by
  have hdigit := digitAhead_of_readNumber h
  cases bytes with
  | nil => cases hdigit
  | cons c after =>
    have hc : isDigit c = true := hdigit
    have hten : c.toNat = 48 ∨ c.toNat = 49 ∨ c.toNat = 50 ∨ c.toNat = 51 ∨ c.toNat = 52 ∨
        c.toNat = 53 ∨ c.toNat = 54 ∨ c.toNat = 55 ∨ c.toNat = 56 ∨ c.toNat = 57 := by
      simp only [isDigit, Bool.and_eq_true, decide_eq_true_eq, UInt8.le_iff_toNat_le] at hc
      have hlow : '0'.toUInt8.toNat = 48 := rfl
      have hhigh : '9'.toUInt8.toNat = 57 := rfl
      omega
    unfold readScalar
    rcases hten with hn | hn | hn | hn | hn | hn | hn | hn | hn | hn <;>
      simp [hn, hc, h, bind, Except.bind, pure, Except.pure]

/-- With what a value that holds no other does not begin. -/
theorem head_of_readScalar {bytes rest : Bytes} {v : Json} (h : readScalar bytes = .ok (v, rest)) :
    ∃ b bs, bytes = b :: bs ∧ isSpace b = false ∧ b ≠ '['.toUInt8 ∧ b ≠ '\x7b'.toUInt8 ∧
      b ≠ ']'.toUInt8 := by
  cases bytes with
  | nil => cases h
  | cons b bs =>
    refine ⟨b, bs, rfl, ?_, ?_, ?_, ?_⟩
    · by_contra hspace
      simp only [isSpace, Bool.not_eq_false, Bool.or_eq_true, beq_iff_eq] at hspace
      rcases hspace with ((rfl | rfl) | rfl) | rfl <;> cases h
    · rintro rfl
      cases h
    · rintro rfl
      cases h
    · rintro rfl
      cases h

theorem skipSpace_cons {b : UInt8} (h : isSpace b = false) (rest : Bytes) :
    skipSpace (b :: rest) = b :: rest := by
  simp [skipSpace, h]

theorem readValue_of_readScalar {bound depth : Nat} {bytes rest : Bytes} {v : Json}
    (h : readScalar bytes = .ok (v, rest)) : readValue bound depth bytes = .ok (v, rest) := by
  obtain ⟨b, bs, rfl, hspace, hlist, hobject, -⟩ := head_of_readScalar h
  rw [readValue, skipSpace_cons hspace]
  simp only [if_neg hlist, if_neg hobject, h]

theorem ofText_of_readScalar {text : String} {v : Json}
    (h : readScalar (bytesOf text) = .ok (v, [])) : ofText text = .ok v := by
  have hread : readValue (bytesOf text).length nestingLimit (bytesOf text) = .ok (v, []) :=
    readValue_of_readScalar h
  have htext : ofText text = read nestingLimit (bytesOf text) := rfl
  rw [htext, read, readWhole, hread]
  rfl

/-! ## Floating-point numbers -/

/-- A number with a point or an exponent is a floating-point number. -/
theorem ofNumeral?_eq_map {a : Numeral} (h : a.isWhole = false) (negative : Bool) :
    JsonNumber.ofNumeral? negative a =
      a.toBinary64?.map fun x => .float (if negative then x.neg else x) := by
  simp [JsonNumber.ofNumeral?, h]

theorem readScalar_of_renders {x y : Binary64} {body : String} {digits : Nat} {exponent : Int}
    (htext : NumberStyle.document.render x = (if x.negative then "-" else "") ++ body)
    (h : Renders body x digits exponent)
    (hy : (Binary64.ofInt (digits : Nat)).scaled? exponent = some y) {rest : Bytes}
    (hrest : EndsNumber rest) :
    readScalar (bytesOf (JsonNumber.float x).text ++ rest) =
      .ok (.number (.float (if x.negative then y.neg else y)), rest) := by
  obtain ⟨⟨a, hwhole, rfl, rfl, hnumeral⟩, -, hfew, -⟩ := h
  have hnumber : readNumber x.negative (bytesOf body ++ rest) =
      .ok (.float (if x.negative then y.neg else y), rest) := by
    refine readNumber_eq_ok (hnumeral rest hrest) ?_
    rw [ofNumeral?_eq_map hwhole, Numeral.toBinary64?_of_lt hfew, hy]
    rfl
  rw [JsonNumber.text, htext]
  cases hnegative : x.negative with
  | true =>
    rw [if_pos rfl, bytesOf_append, bytesOf_minus]
    exact readScalar_minus (hnegative ▸ hnumber)
  | false =>
    rw [if_neg (by decide), String.empty_append]
    exact readScalar_digit (hnegative ▸ hnumber)

end Json

/-- The number that is read of the text of a number. -/
def Binary64.reread (x : Binary64) : Binary64 :=
  match Json.ofText (JsonNumber.float x).text with
  | .ok (.number (.float y)) => y
  | _ => x

namespace Json

theorem reread_of_renders {x y : Binary64} {body : String} {digits : Nat} {exponent : Int}
    (htext : NumberStyle.document.render x = (if x.negative then "-" else "") ++ body)
    (h : Renders body x digits exponent)
    (hy : (Binary64.ofInt (digits : Nat)).scaled? exponent = some y) :
    x.reread = if x.negative then y.neg else y := by
  have hends : EndsNumber [] := fun b hb => nomatch hb
  have hread := readScalar_of_renders htext h hy hends
  rw [List.append_nil] at hread
  rw [Binary64.reread, ofText_of_readScalar hread]

/-- The text of a floating-point number is read as some number. -/
theorem readScalar_float (x : Binary64) {rest : Bytes} (hrest : EndsNumber rest) :
    readScalar (bytesOf (JsonNumber.float x).text ++ rest) =
      .ok (.number (.float x.reread), rest) := by
  obtain ⟨body, digits, exponent, htext, h, -⟩ := exists_renders x
  obtain ⟨y, hy⟩ := Option.isSome_iff_exists.mp h.read
  rw [reread_of_renders htext h hy, readScalar_of_renders htext h hy hrest]

/-- A decimal of fewer than `2 ^ 53` steps and at most 15 places is read as the number that it is
the text of. -/
theorem reread_of_short {x : Binary64} (hdigits : (x.shortest .toEven).digits < 2 ^ 53)
    (hplaces : -15 ≤ (x.shortest .toEven).exponent)
    (hfraction : (x.shortest .toEven).exponent < 0) :
    x.reread = x := by
  have hx : x.significand ≠ 0 := by
    intro hzero
    rw [Binary64.shortest, if_pos hzero] at hfraction
    cases hfraction
  have hcovered := Binary64.isCovered_shortest .toEven hx
  obtain ⟨body, digits, exponent, htext, h, hshortest⟩ := exists_renders x
  obtain ⟨rfl, rfl⟩ := hshortest hfraction
  generalize x.shortest .toEven = s at *
  obtain ⟨places, hexponent⟩ : ∃ places : Nat, s.exponent = -(places : Int) :=
    ⟨(-s.exponent).toNat, by omega⟩
  have hread := Binary64.scaled?_of_short hdigits (by omega : 0 < places) (by omega)
  rw [← hexponent] at hread
  have hnear : x.IsNear (s.digits * Binary64.unitsPerOne) (10 ^ places) := by
    rwa [Binary64.IsCovered, hexponent, neg_neg, Int.toNat_natCast,
      show (-(places : Int)).toNat = 0 by omega, Nat.pow_zero, Nat.mul_one] at hcovered
  let size : Binary64 := ⟨false, x.significand, x.exponent, x.canonical⟩
  have hsize : Binary64.ofUnits size.negative (s.digits * Binary64.unitsPerOne) (10 ^ places) =
      some size := Binary64.ofUnits_of_isNear hx (Nat.pow_pos (by decide)) hnear
  rw [reread_of_renders htext h hread, Binary64.ofValue_natCast,
    show Binary64.ofUnits false _ _ = some size from hsize, Option.getD_some]
  obtain ⟨negative, significand, exponent, canonical⟩ := x
  cases negative <;> rfl

/-- Numbers are told apart by their texts. -/
theorem float_text_inj {x y : Binary64}
    (h : (JsonNumber.float x).text = (JsonNumber.float y).text) : x = y := by
  obtain ⟨body, digits, exponent, hx, ⟨⟨a, -, rfl, rfl, hnumeral⟩, hnearest, -, -⟩, -⟩ :=
    exists_renders x
  obtain ⟨body', digits', exponent', hy, ⟨⟨a', -, rfl, rfl, hnumeral'⟩, hnearest', -, -⟩, -⟩ :=
    exists_renders y
  have hends : EndsNumber [] := fun b hb => nomatch hb
  have hread := hnumeral [] hends
  have hread' := hnumeral' [] hends
  rw [JsonNumber.text, JsonNumber.text, hx, hy] at h
  have hbytes := congrArg bytesOf h
  rw [bytesOf_append, bytesOf_append] at hbytes
  rw [List.append_nil] at hread hread'
  have hdigit := digitAhead_of_readNumeral hread
  have hdigit' := digitAhead_of_readNumeral hread'
  have hminus : isDigit '-'.toUInt8 = false := by decide
  -- the sign is told from the digits that follow it
  have hsign : x.negative = y.negative ∧ bytesOf body = bytesOf body' := by
    cases hxn : x.negative <;> cases hyn : y.negative <;>
      simp only [hxn, hyn, Bool.false_eq_true, if_true, if_false, bytesOf_minus, bytesOf_empty,
        List.nil_append, List.singleton_append, List.cons.injEq, true_and] at hbytes
    · exact ⟨rfl, hbytes⟩
    · rw [hbytes] at hdigit
      exact absurd hdigit (by simp [digitAhead, hminus])
    · rw [← hbytes] at hdigit'
      exact absurd hdigit' (by simp [digitAhead, hminus])
    · exact ⟨rfl, hbytes⟩
  rw [hsign.2, hread'] at hread
  obtain rfl := (Prod.mk.inj (Except.ok.inj hread)).1
  rw [hsign.1, hnearest'] at hnearest
  exact (Option.some.inj hnearest).symm

/-! ## Integers -/

/-- The integers that are written and read without loss: those of 64 bits, signed or not. -/
def IsMachineInteger (i : Int) : Prop :=
  -(2 ^ 63) ≤ i ∧ i < 2 ^ 64

theorem readScalar_integer {i : Int} (hi : IsMachineInteger i) {rest : Bytes}
    (hrest : EndsNumber rest) :
    readScalar (bytesOf (JsonNumber.integer i).text ++ rest) =
      .ok (.number (.integer i), rest) := by
  obtain ⟨hlow, hhigh⟩ := hi
  have hdigits : ∀ n : Nat, bytesOf (toString n) = (Nat.toDigits 10 n).map Char.toUInt8 :=
    fun n => by
      rw [Nat.toString_eq_ofList_toDigits, bytesOf_digits fun c hc => isDigit_of_mem_toDigits hc]
  have hwhole (negative : Bool) (n : Nat) {i : Int}
      (hi : JsonNumber.ofNumeral? negative ⟨(Nat.toDigits 10 n).map Char.toUInt8, [], none⟩ =
        some (.integer i)) :
      readNumber negative (bytesOf (toString n) ++ rest) = .ok (.integer i, rest) := by
    rw [hdigits]
    exact readNumber_eq_ok (readNumeral_whole (isWhole_toDigits n) hrest) hi
  have hvalue (n : Nat) : Numeral.digitsValue ((Nat.toDigits 10 n).map Char.toUInt8) = n := by
    rw [Numeral.digitsValue_map fun c hc => isDigit_of_mem_toDigits hc,
      Nat.ofDigitChars_ten_toDigits]
  cases i with
  | ofNat n =>
    have hlt : n < Nat.pow 2 64 := by
      rw [Nat.pow_eq]
      simp only [Int.ofNat_eq_natCast] at hhigh
      omega
    have htext : (JsonNumber.integer (.ofNat n)).text = toString n := rfl
    rw [htext]
    refine readScalar_digit (hwhole false n ?_)
    simp only [JsonNumber.ofNumeral?, hvalue]
    rw [if_neg (by simp), if_pos ⟨rfl, rfl, hlt⟩]
    rfl
  | negSucc n =>
    have htext : (JsonNumber.integer (.negSucc n)).text = "-" ++ toString (n + 1) := rfl
    have hle : n + 1 ≤ Nat.pow 2 63 := by
      rw [Nat.pow_eq]
      omega
    rw [htext, bytesOf_append, bytesOf_minus]
    refine readScalar_minus (hwhole true (n + 1) ?_)
    simp only [JsonNumber.ofNumeral?, hvalue]
    rw [if_pos ⟨rfl, by simp, Nat.succ_pos n, hle⟩]
    rfl

end Json

end CampusQuery
