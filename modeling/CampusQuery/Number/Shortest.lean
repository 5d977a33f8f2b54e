import CampusQuery.Number.Binary64

/-!
# The fewest digits that read back

Every real number nearer to a `Binary64` than to its neighbours reads back as it. These reals form
an interval, `Binary64.interval`, with its ends included when the significand is even. Of the
decimals `digits · 10 ^ exponent` in the interval, `Binary64.shortest` takes one of the largest
exponent, which is one of the fewest digits, and of two such the nearer to the number.

Exponents are counted down from one that is certainly too large. The grid of `10 ^ (-1074)` holds
every `Binary64`, so the count ends there at the latest, with the number itself.
-/

namespace CampusQuery

/-- The decimal number `digits · 10 ^ exponent`. -/
structure Scientific where
  digits : Nat
  exponent : Int
  deriving DecidableEq, Repr

namespace Binary64

/-- The reals that round to a number, in quarter units: from `low` to `high`, ends included or
not. -/
structure Interval where
  low : Nat
  high : Nat
  closed : Bool

/-- The interval of the sizes that round to the size of a number. The gap below a power of two is
half the gap above it, except among the smallest numbers. -/
def interval (x : Binary64) : Interval :=
  let centre := 4 * x.magnitude
  let above := 2 <<< x.exponent
  let below := if x.significand = Nat.pow 2 52 ∧ x.exponent ≠ 0 then 1 <<< x.exponent else above
  ⟨centre - below, centre + above, x.significand % 2 == 0⟩

/-- Whether `num / den` quarter units lie in the interval. -/
def Interval.holds (i : Interval) (num den : Nat) : Bool :=
  if i.closed then i.low * den ≤ num && num ≤ i.high * den
  else i.low * den < num && num < i.high * den

/-- The step of the decimal grid numbered `n`, which is `10 ^ (n - 1074)`, in quarter units, as a
quotient. -/
def gridStep (n : Nat) : Nat × Nat :=
  if 1074 ≤ n then (Nat.pow 10 (n - 1074) * (4 * unitsPerOne), 1)
  else (4 * unitsPerOne, Nat.pow 10 (1074 - n))

/-- The point of the decimal grid numbered `n` that lies in the interval of `x`: of two, the one
nearer to `x`, and of two equally near the one that `tie` says. -/
def onGrid? (tie : Tie) (x : Binary64) (n : Nat) : Option Nat :=
  let i := x.interval
  let (step, den) := gridStep n
  let exact := 4 * x.magnitude * den
  let lower := exact / step
  let holdsLower := i.holds (lower * step) den
  let holdsUpper := i.holds ((lower + 1) * step) den
  match holdsLower, holdsUpper with
  | true, true => some (divRound tie exact step)
  | true, false => some lower
  | false, true => some (lower + 1)
  | false, false => none

/-- The first grid, counting down from the one numbered `n`, with a point in the interval. -/
def firstOnGrid (tie : Tie) (x : Binary64) : Nat → Scientific
  | 0 => ⟨x.magnitude * Nat.pow 5 1074, -1074⟩
  | n + 1 =>
    match onGrid? tie x n with
    | some digits => ⟨digits, (n : Int) - 1074⟩
    | none => firstOnGrid tie x n

/-- The number of a grid too coarse for `x`: its step is above twice the size of `x`. -/
def coarseGrid (x : Binary64) : Nat :=
  (((x.magnitude.log2 + 4 : Nat) : Int) - 1074) * 30103 / 100000 + 1076 |>.toNat

/-- The decimal of fewest digits that reads back as the size of `x`, and of those the nearest. -/
def shortest (tie : Tie) (x : Binary64) : Scientific :=
  if x.significand = 0 then ⟨0, 0⟩ else firstOnGrid tie x x.coarseGrid

end Binary64

end CampusQuery
