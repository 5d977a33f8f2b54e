import CampusQuery.Number.Text

/-!
# Decimal numbers of 96 bits

A `Decimal` is `coefficient / 10 ^ scale` with a coefficient of at most 96 bits and at most 28
decimal places. Sums are taken in it, so that adding prices or grades is free of binary noise.

* `Decimal.ofBinary64?` reads the shortest written form of a number, keeping as many places as fit,
  and leaves a number that is too large for that to a `Converter`.
* `Decimal.add` is exact where the exact sum fits, and else drops places, a half to even.
* `Decimal.divNat?` is exact where it can be, and else keeps as many places as fit, a half to even.
* `Decimal.roundTo` keeps a number of places, a half away from zero.
-/

namespace CampusQuery

/-- The decimal number `coefficient / 10 ^ scale`. -/
structure Decimal where
  coefficient : Int
  scale : Nat
  coefficient_lt : coefficient.natAbs < Nat.pow 2 96
  scale_le : scale ≤ 28
  deriving DecidableEq

namespace Decimal

/-- The number zero. -/
def zero : Decimal := ⟨0, 0, by decide, by decide⟩

/-- The largest size, with the given sign. -/
def extreme (negative : Bool) : Decimal :=
  if negative then ⟨-((Nat.pow 2 96 - 1 : Nat) : Int), 0, by decide, by decide⟩
  else ⟨(Nat.pow 2 96 - 1 : Nat), 0, by decide, by decide⟩

instance : Inhabited Decimal := ⟨zero⟩

instance : Repr Decimal :=
  ⟨fun d _ => s!"{d.coefficient}e-{d.scale}"⟩

/-- The decimal `±size / 10 ^ scale`, if it is one. -/
def ofParts? (negative : Bool) (size scale : Nat) : Option Decimal :=
  if h : size < Nat.pow 2 96 ∧ scale ≤ 28 then
    some ⟨if negative then -(size : Int) else size, scale,
      by cases negative <;> simpa using h.1, h.2⟩
  else
    none

/-- The quotient `num / den` at the most places up to `scale` that fit, a half going where `tie`
says; `none` when not even its whole part fits. -/
def fit? (tie : Tie) (negative : Bool) (num den : Nat) : Nat → Option Decimal
  | 0 => ofParts? negative (divRound tie num den) 0
  | scale + 1 =>
    (ofParts? negative (divRound tie (num * Nat.pow 10 (scale + 1)) den) (scale + 1)).or
      (fit? tie negative num den scale)

/-! ## Reading a number -/

/-- How many of the `places` decimal places of `digits` can be kept: at most 28, and no more than
fit beside the whole part. -/
def keptPlaces (digits places : Nat) : Nat → Nat
  | 0 => 0
  | scale + 1 =>
    if scale + 1 ≤ places ∧ digits / Nat.pow 10 (places - (scale + 1)) < Nat.pow 2 96 then scale + 1
    else keptPlaces digits places scale

/-- The decimal `±digits / 10 ^ places`. Places beyond those that can be kept are cut, and the
first of them rounds the rest, up from five; a size that rounds out of range loses one place more.
A whole part that does not fit has no decimal. -/
def ofDigits? (negative : Bool) (digits places : Nat) : Option Decimal :=
  let scale := keptPlaces digits places 28
  let kept := digits / Nat.pow 10 (places - scale)
  let next := if scale < places then digits / Nat.pow 10 (places - scale - 1) % 10 else 0
  if kept < Nat.pow 2 96 then
    let rounded := if 5 ≤ next then kept + 1 else kept
    if rounded < Nat.pow 2 96 then ofParts? negative rounded scale
    else if scale = 0 then none
    else ofParts? negative ((rounded + 4) / 10) (scale - 1)
  else
    none

/-- The decimal that the plain written form of a number denotes, if its whole part fits. -/
def ofWritten? (x : Binary64) : Option Decimal :=
  let s := x.shortest NumberStyle.plain.tie
  if s.exponent < 0 then ofDigits? x.negative s.digits (-s.exponent).toNat
  else ofDigits? x.negative (s.digits * Nat.pow 10 s.exponent.toNat) 0

end Decimal

/-- A conversion of numbers to decimals by their bits, `from_f64` of the library of decimals. It is
asked only for numbers whose written form is no decimal. These are whole, and so is what it finds. -/
class Converter where
  /-- The decimal that is found for a number, if any. -/
  ofBits? : Binary64 → Option Decimal
  /-- A decimal that is found has no places. -/
  whole : ∀ {x d}, Decimal.ofWritten? x = none → ofBits? x = some d → d.scale = 0

namespace Decimal

/-- The decimal that a number is converted to: by its written form, or else by its bits. -/
def ofBinary64? [Converter] (x : Binary64) : Option Decimal :=
  (ofWritten? x).or (Converter.ofBits? x)

/-- The decimal that a number is converted to, or the extreme of its sign where there is none
(`to_decimal`). -/
def ofBinary64 [Converter] (x : Binary64) : Decimal :=
  (ofBinary64? x).getD (extreme x.negative)

/-- Whether a number is beyond all decimals. -/
def isBeyond [Converter] (x : Binary64) : Bool :=
  (ofBinary64? x).isNone

/-! ## Arithmetic -/

/-- The sum at the larger number of places, or at fewer if it does not fit; `none` out of range. -/
def add? (a b : Decimal) : Option Decimal :=
  if a.coefficient = 0 then some b
  else if b.coefficient = 0 then some a
  else
    let scale := Nat.max a.scale b.scale
    let sum :=
      a.coefficient * (Nat.pow 10 (scale - a.scale) : Nat) +
        b.coefficient * (Nat.pow 10 (scale - b.scale) : Nat)
    fit? .toEven (sum < 0) sum.natAbs (Nat.pow 10 scale) scale

/-- The sum, or the extreme of its sign when it is out of range. -/
def add (a b : Decimal) : Decimal :=
  (add? a b).getD (extreme (b.coefficient < 0))

/-- The decimal `±size / 10 ^ scale` without the zeros at its end. -/
def ofPartsTrimmed? (negative : Bool) (size : Nat) : Nat → Option Decimal
  | 0 => ofParts? negative size 0
  | scale + 1 =>
    if size % 10 = 0 then ofPartsTrimmed? negative (size / 10) scale
    else ofParts? negative size (scale + 1)

/-- The same decimal without the zeros at its end. -/
def trimmed (a : Decimal) : Decimal :=
  (ofPartsTrimmed? (a.coefficient < 0) a.coefficient.natAbs a.scale).getD a

/-- The quotient by a natural number, `none` for zero: at the places of the decimal if it is exact
at these, and else at the most places that fit and without zeros at its end. -/
def divNat? (a : Decimal) (n : Nat) : Option Decimal :=
  let size := a.coefficient.natAbs
  if n = 0 then none
  else if size % n = 0 then ofParts? (a.coefficient < 0) (size / n) a.scale
  else (fit? .toEven (a.coefficient < 0) size (Nat.pow 10 a.scale * n) 28).map trimmed

/-- The decimal at no more than the given number of places, a half going away from zero. -/
def roundTo (places : Nat) (a : Decimal) : Decimal :=
  if a.scale ≤ places then a
  else
    let size := divRound .up a.coefficient.natAbs (Nat.pow 10 (a.scale - places))
    (ofParts? (a.coefficient < 0) size places).getD a

/-- The number nearest to a decimal, found as whole part plus fraction and cleaned of the noise of
that sum by rounding it to the decimal's places. -/
def toBinary64 (a : Decimal) : Binary64 :=
  if a.scale = 0 then Binary64.ofInt a.coefficient
  else
    let power := Nat.pow 10 a.scale
    let whole := Binary64.ofInt (a.coefficient.natAbs / power : Nat)
    let rest := Binary64.ofInt (a.coefficient.natAbs % power : Nat)
    let power := Binary64.ofInt (power : Nat)
    let fraction := rest.div power
    let size :=
      if fraction.magnitude = 0 then whole
      else ((whole.add fraction).mul power).roundHalfAway.div power
    if a.coefficient < 0 then size.neg else size

end Decimal

end CampusQuery
