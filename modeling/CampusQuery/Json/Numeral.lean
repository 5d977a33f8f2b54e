import CampusQuery.Json.Value

/-!
# Numbers as documents write them

A `Numeral` is the text of a number without its sign. A whole number without an exponent is an
integer if 64 bits hold it. Any other number becomes a floating-point number in steps that round one
after the other: of its digits those count that 64 bits hold, as the number nearest to them, and
this is multiplied by a power of ten or divided by one. So what is read of a document is near the
number that is written there, but not always the nearest.

* `Numeral.significand`, `Numeral.power` — the digits that count and the power of ten that is left.
* `Binary64.scaled?` — a number times a power of ten, rounded at each step.
* `JsonNumber.ofNumeral?` — the number that is read.
-/

namespace CampusQuery

namespace Binary64

/-- The product, rounded once; `none` beyond the largest number. -/
def mul? (x y : Binary64) : Option Binary64 :=
  ofUnits (x.negative != y.negative) (x.magnitude * y.magnitude) unitsPerOne

/-- The number nearest to a power of ten. -/
def tenTo (n : Nat) : Binary64 :=
  ofInt ((Nat.pow 10 n : Nat) : Int)

/-- A number divided some times by the greatest power of ten of the format, but no more once it is
zero. -/
def divTens : Nat → Binary64 → Binary64
  | 0, x => x
  | times + 1, x => if x.magnitude = 0 then x else divTens times (x.div (tenTo 308))

/-- A number times a power of ten, each product and quotient rounded; `none` beyond the largest
number. A power that the format does not hold is divided by in steps of the greatest that it
does. -/
def scaled? (x : Binary64) (power : Int) : Option Binary64 :=
  if 308 < power then
    if x.magnitude = 0 then some x else none
  else if 0 ≤ power then x.mul? (tenTo power.toNat)
  else
    let places := (-power).toNat
    let times := (places - 1) / 308
    some ((divTens times x).div (tenTo (places - 308 * times)))

end Binary64

/-- The text of a number without its sign: the digits before and after its point, and its exponent
if it has one. -/
structure Numeral where
  whole : List UInt8
  fraction : List UInt8
  exponent : Option Int
  deriving DecidableEq, Repr

namespace Numeral

/-- The number zero, as a number with an exponent. -/
def zero : Numeral := ⟨[], [], some 0⟩

/-- What a digit stands for. -/
def digitValue (c : UInt8) : Nat :=
  c.toNat - '0'.toNat

/-- The number that digits denote. -/
def digitsValue (digits : List UInt8) : Nat :=
  digits.foldl (fun n c => n * 10 + digitValue c) 0

/-- A number with digits put behind it as long as 64 bits hold it, and the digits from the first on
that makes it too large. -/
def takeDigits (n : Nat) : List UInt8 → Nat × List UInt8
  | [] => (n, [])
  | c :: rest =>
    if n * 10 + digitValue c < Nat.pow 2 64 then takeDigits (n * 10 + digitValue c) rest
    else (n, c :: rest)

/-- The digits that count. -/
def significand (a : Numeral) : Nat :=
  (takeDigits (takeDigits 0 a.whole).1 a.fraction).1

/-- The power of ten by which the digits that count are multiplied: the exponent, one more for each
digit before the point that does not count and one less for each after it that does. -/
def power (a : Numeral) : Int :=
  let (n, left) := takeDigits 0 a.whole
  let (_, left') := takeDigits n a.fraction
  a.exponent.getD 0 + left.length - (a.fraction.length - left'.length : Nat)

/-- The size that is read as a floating-point number; `none` beyond the largest number. -/
def toBinary64? (a : Numeral) : Option Binary64 :=
  (Binary64.ofInt a.significand).scaled? a.power

/-- Whether there is neither a point nor an exponent. -/
def isWhole (a : Numeral) : Bool :=
  a.fraction.isEmpty && a.exponent.isNone

end Numeral

/-- The number that is read: an integer of 64 bits, signed or not, and else a floating-point number;
`none` beyond the largest. Minus zero is no integer. -/
def JsonNumber.ofNumeral? (negative : Bool) (a : Numeral) : Option JsonNumber :=
  let n := Numeral.digitsValue a.whole
  if a.isWhole ∧ negative ∧ 0 < n ∧ n ≤ Nat.pow 2 63 then some (.integer (-(n : Int)))
  else if a.isWhole ∧ !negative ∧ n < Nat.pow 2 64 then some (.integer n)
  else a.toBinary64?.map fun x => .float (if negative then x.neg else x)

end CampusQuery
