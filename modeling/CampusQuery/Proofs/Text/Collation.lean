import Mathlib
import CampusQuery.Proofs.Text.Collator
import CampusQuery.Text.Collation

/-!
# The order of the tables is consistent

Keys compare by three lists of weights, one after the other, and texts by their keys and then by
code point. So the tables order all texts, as any consistent collator does.

* `Collation.collate_ordersAll` — the order of texts keeps the order of the collator, be it that of
  the tables or any other.
-/

namespace CampusQuery

namespace Collation

/-- The comparison of texts is a total order that keeps the order of the tables, which is a total
preorder. So is the comparison by whatever collator, as long as that is a total preorder. -/
theorem collate_ordersAll :
    Std.TransCmp order ∧ OrdersAll order collate ∧ collate = collateBy order ∧
      ∀ (collator : String → String → Ordering) [Std.TransCmp collator],
        OrdersAll collator (collateBy collator) :=
  ⟨inferInstance, ordersAll_collateBy order, rfl, fun collator _ => ordersAll_collateBy collator⟩

end Collation

end CampusQuery
