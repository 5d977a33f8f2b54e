import CampusQuery.Number.Rounding

/-!
# Finite binary floating-point numbers

A `Binary64` is a finite number of the 64-bit binary format, held exactly: a sign and a multiple
of `2⁻¹⁰⁷⁴`, the smallest positive number of the format. Numbers compare by `Binary64.value`, that
multiple as an integer, so `0` and `-0` are equal in value and differ only in sign.

* `Binary64.ofUnits` rounds a quotient of units to the nearest number, a tie to the even
  significand, and has no answer beyond the largest number.
* `Binary64.ofDecimal` reads `digits · 10 ^ exponent`.
* `Binary64.integer?` gives back a whole number.
* `add`, `mul`, `div` and `roundHalfAway` are the exact result, rounded once.
-/

namespace CampusQuery

/-- A finite number `± significand · 2 ^ exponent` in units of `2⁻¹⁰⁷⁴`. The bounds are those of the
format, and all but the smallest numbers use the full 53 bits, so each number has one form. -/
structure Binary64 where
  negative : Bool
  significand : Nat
  exponent : Nat
  canonical : significand < Nat.pow 2 53 ∧ exponent ≤ 2045 ∧ (exponent = 0 ∨ Nat.pow 2 52 ≤ significand)
  deriving DecidableEq

namespace Binary64

/-- The size of a number in units of `2⁻¹⁰⁷⁴`. -/
def magnitude (x : Binary64) : Nat :=
  x.significand <<< x.exponent

/-- A number in units of `2⁻¹⁰⁷⁴`. -/
def value (x : Binary64) : Int :=
  if x.negative then -(x.magnitude : Int) else x.magnitude

/-- How many units make one. -/
def unitsPerOne : Nat := 1 <<< 1074

/-- The number zero. -/
def zero : Binary64 := ⟨false, 0, 0, by decide⟩

instance : Inhabited Binary64 := ⟨zero⟩

/-- The largest number of the given sign. -/
def largest (negative : Bool) : Binary64 :=
  ⟨negative, Nat.pow 2 53 - 1, 2045, by decide⟩

instance : Repr Binary64 :=
  ⟨fun x _ => s!"{x.value} units"⟩

/-- The order of two numbers by value. -/
def order (x y : Binary64) : Ordering :=
  compare x.value y.value

/-- The number with the sign of zero forgotten: two numbers are equal in value iff these are one. -/
def unsignedZero (x : Binary64) : Binary64 :=
  if x.significand = 0 then zero else x

/-- The same size with the other sign. -/
def neg (x : Binary64) : Binary64 :=
  ⟨!x.negative, x.significand, x.exponent, x.canonical⟩

/-- The larger of two numbers. -/
def max (x y : Binary64) : Binary64 :=
  if x.value < y.value then y else x

/-- The smaller of two numbers. -/
def min (x y : Binary64) : Binary64 :=
  if y.value < x.value then y else x

instance : Hashable Binary64 :=
  ⟨fun x => mixHash (hash x.negative) (mixHash (hash x.significand) (hash x.exponent))⟩

/-! ## Rounding into the format -/

/-- The number of the given sign nearest to `num / den` units, a tie going to the even significand;
`none` beyond the largest number. -/
def ofUnits (negative : Bool) (num den : Nat) : Option Binary64 :=
  let exponent := (num / den).log2 + 1 - 53
  let rounded := divRound .toEven num (den <<< exponent)
  let significand := if rounded = Nat.pow 2 53 then Nat.pow 2 52 else rounded
  let exponent := if rounded = Nat.pow 2 53 then exponent + 1 else exponent
  if h : significand < Nat.pow 2 53 ∧ exponent ≤ 2045 ∧
      (exponent = 0 ∨ Nat.pow 2 52 ≤ significand) then
    some ⟨negative, significand, exponent, h⟩
  else
    none

/-- The number nearest to `num / den` units, beyond the largest number that one. -/
def ofValue (num : Int) (den : Nat) : Binary64 :=
  (ofUnits (num < 0) num.natAbs den).getD (largest (num < 0))

/-- The number nearest to an integer. -/
def ofInt (i : Int) : Binary64 :=
  ofValue (i * unitsPerOne) 1

/-- The number nearest to `digits · 10 ^ exponent`; `none` beyond the largest number. Exponents so
large or so small that the digits cannot matter are settled without the power of ten. -/
def ofDecimal (negative : Bool) (digits : Nat) (exponent : Int) : Option Binary64 :=
  if digits = 0 then ofUnits negative 0 1
  else if 400 < exponent then none
  else if 0 ≤ exponent then ofUnits negative (digits * Nat.pow 10 exponent.toNat * unitsPerOne) 1
  else
    let places := (-exponent).toNat
    if digits.log2 + 1100 < 3 * places then ofUnits negative 0 1
    else ofUnits negative (digits * unitsPerOne) (Nat.pow 10 places)

/-! ## Whole numbers and arithmetic -/

/-- The integer that the number is, if it is one. -/
def integer? (x : Binary64) : Option Int :=
  if x.magnitude % unitsPerOne = 0 then
    let size : Int := (x.magnitude / unitsPerOne : Nat)
    some (if x.negative then -size else size)
  else
    none

/-- The sum, rounded once. -/
def add (x y : Binary64) : Binary64 :=
  ofValue (x.value + y.value) 1

/-- The product, rounded once. -/
def mul (x y : Binary64) : Binary64 :=
  ofValue (x.value * y.value) unitsPerOne

/-- The quotient, rounded once; division by zero gives the largest number. -/
def div (x y : Binary64) : Binary64 :=
  if y.magnitude = 0 then largest x.negative
  else
    let quotient := ofValue ((x.magnitude * unitsPerOne : Nat) : Int) y.magnitude
    if x.negative == y.negative then quotient else quotient.neg

/-- The nearest whole number, a half going away from zero. -/
def roundHalfAway (x : Binary64) : Binary64 :=
  let size : Int := (divRound .up x.magnitude unitsPerOne : Nat)
  ofInt (if x.negative then -size else size)

end Binary64

end CampusQuery
