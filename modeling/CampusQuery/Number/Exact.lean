import CampusQuery.Number.Decimal

/-!
# Exact conversion of whole numbers

`Converter.exact` finds the decimal that a whole number is, if it is one, and none for any other
number. So a number that is beyond the range of decimals, `2 ^ 96` or more, stays without one.
-/

namespace CampusQuery

namespace Decimal

theorem scale_of_ofParts? {negative : Bool} {size scale : Nat} {d : Decimal}
    (h : ofParts? negative size scale = some d) : d.scale = scale := by
  unfold ofParts? at h
  split at h
  · exact Option.some.inj h ▸ rfl
  · cases h

end Decimal

/-- The whole number `±significand · 2 ^ twos`, if it is a decimal. -/
def Decimal.ofWhole? (x : Binary64) : Option Decimal :=
  if x.exponent < 1074 then none
  else ofParts? x.negative (x.significand * Nat.pow 2 (x.exponent - 1074)) 0

/-- The converter that is exact. -/
instance Converter.exact : Converter where
  ofBits? := Decimal.ofWhole?
  whole := by
    intro x d _ h
    unfold Decimal.ofWhole? at h
    split at h
    · cases h
    · exact Decimal.scale_of_ofParts? h

end CampusQuery
