/-!
# Order of texts for readers

A reader finds a text by its letters first and by accents and case later, in an order that is kept
in large tables. A `Collator` is such a comparison of texts. All that is used of it is that it is
consistent, a total preorder; texts that it does not tell apart are ordered by their code points.

* `collateBy` — the order of texts by some comparison and then by code point.
* `collate` — that order by the collator at hand, `collate` of the program.
-/

namespace CampusQuery

/-- A consistent comparison of texts, such as that of the root collation. -/
class Collator where
  /-- How a text stands to another. -/
  order : String → String → Ordering
  /-- The comparison is a total preorder. -/
  consistent : Std.TransCmp order

attribute [instance] Collator.consistent

/-- The order of two texts by a comparison, and by code point where that does not tell them
apart. -/
def collateBy (collator : String → String → Ordering) (a b : String) : Ordering :=
  (collator a b).then (compare a b)

/-- The order of two texts for a reader. -/
def collate [Collator] (a b : String) : Ordering :=
  collateBy Collator.order a b

end CampusQuery
