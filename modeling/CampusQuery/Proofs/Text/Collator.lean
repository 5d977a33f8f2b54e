import Mathlib
import CampusQuery.Proofs.Text.ByteOrder
import CampusQuery.Text.Collator

/-!
# The order of texts is consistent

Texts compare by a collator and then by code point. Each of the two is a total preorder, so the
comparison of texts is one. As no two texts have the same code points, it is a total order.

* `Collation.OrdersAll` — a comparison orders all texts and keeps the order of a collator.
* `Collation.ordersAll_collateBy` — so does the comparison by any collator that is a total preorder.
-/

namespace CampusQuery

namespace Collation

/-- A comparison is a total order of all texts. Those that a collator tells apart stand in its
order, and the others in that of their code points. -/
structure OrdersAll (collator cmp : String → String → Ordering) : Prop where
  eq_iff : ∀ a b, cmp a b = .eq ↔ a = b
  swap : ∀ a b, cmp b a = (cmp a b).swap
  trans : ∀ a b c, cmp a b ≠ .gt → cmp b c ≠ .gt → cmp a c ≠ .gt
  distinguished : ∀ a b, collator a b ≠ .eq → cmp a b = collator a b
  undistinguished : ∀ a b, collator a b = .eq → cmp a b = compare (codePoints a) (codePoints b)
  refines : ∀ a b, cmp a b ≠ .gt → collator a b ≠ .gt

variable {collator : String → String → Ordering}

theorem collateBy_of_ne {a b : String} (h : collator a b ≠ .eq) :
    collateBy collator a b = collator a b := by
  unfold collateBy
  cases hab : collator a b with
  | lt => rfl
  | eq => exact absurd hab h
  | gt => rfl

theorem collateBy_of_eq {a b : String} (h : collator a b = .eq) :
    collateBy collator a b = compare a b := by
  rw [collateBy, h, Ordering.eq_then]

theorem collateBy_eq_eq_iff [Std.TransCmp collator] {a b : String} :
    collateBy collator a b = .eq ↔ a = b := by
  rw [collateBy, Ordering.then_eq_eq, compare_eq_iff_eq]
  refine ⟨fun h => h.2, ?_⟩
  rintro rfl
  exact ⟨Std.ReflCmp.compare_self, rfl⟩

instance [Std.TransCmp collator] : Std.TransCmp (collateBy collator) :=
  inferInstanceAs (Std.TransCmp (compareLex collator (compareOn id)))

theorem ordersAll_collateBy (collator : String → String → Ordering) [Std.TransCmp collator] :
    OrdersAll collator (collateBy collator) where
  eq_iff _ _ := collateBy_eq_eq_iff
  swap _ _ := Std.OrientedCmp.eq_swap
  trans a b c hab hbc := by
    have hab' : (collateBy collator a b).isLE := Ordering.isLE_iff_ne_gt.mpr hab
    have hbc' : (collateBy collator b c).isLE := Ordering.isLE_iff_ne_gt.mpr hbc
    exact Ordering.isLE_iff_ne_gt.mp (Std.TransCmp.isLE_trans hab' hbc')
  distinguished _ _ := collateBy_of_ne
  undistinguished a b h := by
    rw [collateBy_of_eq h, compare_codePoints]
  refines a b hab hgt := by
    have hne : collator a b ≠ .eq := by simp [hgt]
    exact hab ((collateBy_of_ne hne).trans hgt)

end Collation

/-! ## The collator at hand -/

section

variable [Collator]

instance : Std.TransCmp collate :=
  inferInstanceAs (Std.TransCmp (collateBy Collator.order))

theorem collate_eq_iff {a b : String} : collate a b = .eq ↔ a = b :=
  Collation.collateBy_eq_eq_iff

theorem collate_eq_lt_iff {a b : String} :
    collate a b = .lt ↔ Collator.order a b = .lt ∨ Collator.order a b = .eq ∧ a < b := by
  rw [collate, collateBy, Ordering.then_eq_lt, compare_lt_iff_lt]

end

end CampusQuery
