import Mathlib

/-!
# Stable sorts

A list is sorted by a comparison that may leave items tied with one another: its items stand in
order, and those that are tied as they stood. There is one such list.

* `lexicographic` — the comparison by the first of some ways in which items differ.
* `IsStableSort` — a list in order, with tied items as they were.
* `IsStableSort.unique`, `isStableSort_mergeSort` — there is one, and merge sort finds it.
-/

namespace CampusQuery

/-! ## Comparisons made of others -/

section Lexicographic

variable {α β ι : Type} {cmp : ι → α → α → Ordering} {cmp' : ι → β → β → Ordering}
  {ways : List ι}

/-- Items are compared in one way after the other, until they differ. -/
def lexicographic (cmp : ι → α → α → Ordering) (ways : List ι) (x y : α) : Ordering :=
  ways.foldr (fun way rest => (cmp way x y).then rest) .eq

theorem transCmp_lexicographic (h : ∀ way, Std.TransCmp (cmp way)) (ways : List ι) :
    Std.TransCmp (lexicographic cmp ways) := by
  induction ways with
  | nil => exact { eq_swap := rfl, isLE_trans := fun _ _ => rfl }
  | cons way ways ih =>
    exact inferInstanceAs (Std.TransCmp (compareLex (cmp way) (lexicographic cmp ways)))

theorem lexicographic_congr {x y : α} {x' y' : β} (h : ∀ way ∈ ways, cmp way x y = cmp' way x' y') :
    lexicographic cmp ways x y = lexicographic cmp' ways x' y' := by
  induction ways with
  | nil => rfl
  | cons way ways ih =>
    show (cmp way x y).then (lexicographic cmp ways x y) =
      (cmp' way x' y').then (lexicographic cmp' ways x' y')
    rw [h way List.mem_cons_self, ih fun way hway => h way (List.mem_cons_of_mem _ hway)]

end Lexicographic

/-! ## Lists in order -/

variable {α : Type} {cmp : α → α → Ordering} {xs ys : List α} {x y z : α}

/-- A list of the same items in order, in which items that are tied with one another stand as they
stood. -/
structure IsStableSort (cmp : α → α → Ordering) (xs ys : List α) : Prop where
  perm : ys.Perm xs
  ordered : ys.Pairwise fun x y => cmp x y ≠ .gt
  stable : ∀ x, (ys.filter fun y => cmp x y = .eq) = xs.filter fun y => cmp x y = .eq

theorem filter_cons_of_tied (h : cmp z x = .eq) (xs : List α) :
    ((x :: xs).filter fun y => cmp z y = .eq) = x :: xs.filter fun y => cmp z y = .eq :=
  List.filter_cons_of_pos (decide_eq_true h)

theorem filter_cons_of_not_tied (h : cmp z x ≠ .eq) (xs : List α) :
    ((x :: xs).filter fun y => cmp z y = .eq) = xs.filter fun y => cmp z y = .eq :=
  List.filter_cons_of_neg fun h' => h (of_decide_eq_true h')

/-- A list in order is its own sort. -/
theorem IsStableSort.self (h : IsStableSort cmp xs ys) : IsStableSort cmp ys ys :=
  ⟨.refl _, h.ordered, fun _ => rfl⟩

variable [Std.TransCmp cmp]

theorem cmp_eq_of_ne_gt (hxy : cmp x y ≠ .gt) (hyx : cmp y x ≠ .gt) : cmp x y = .eq := by
  cases h : cmp x y with
  | eq => rfl
  | gt => exact absurd h hxy
  | lt => exact absurd (Std.OrientedCmp.gt_iff_lt.mpr h) hyx

/-- The first item of a list is in every list that has the same items tied with it. -/
theorem mem_of_filter_eq
    (h : ((x :: xs).filter fun y => cmp x y = .eq) = ys.filter fun y => cmp x y = .eq) :
    x ∈ ys := by
  have hx : x ∈ ys.filter fun y => cmp x y = .eq := by
    rw [← h, filter_cons_of_tied Std.ReflCmp.compare_self]
    exact List.mem_cons_self
  exact (List.mem_filter.mp hx).1

/-- The first item of a list in order comes after none of its items. -/
theorem cmp_ne_gt_of_mem (h : (x :: xs).Pairwise fun x y => cmp x y ≠ .gt) (hy : y ∈ x :: xs) :
    cmp x y ≠ .gt := by
  rcases List.mem_cons.mp hy with rfl | hy
  · have hrefl : cmp y y = .eq := Std.ReflCmp.compare_self
    rw [hrefl]
    exact Ordering.noConfusion
  · exact List.rel_of_pairwise_cons h hy

/-- Lists in order are the same if the items tied with any one are. -/
theorem eq_of_filter_eq (hxs : xs.Pairwise fun x y => cmp x y ≠ .gt)
    (hys : ys.Pairwise fun x y => cmp x y ≠ .gt)
    (h : ∀ x, (xs.filter fun y => cmp x y = .eq) = ys.filter fun y => cmp x y = .eq) :
    xs = ys := by
  induction xs generalizing ys with
  | nil =>
    cases ys with
    | nil => rfl
    | cons y ys => exact absurd (mem_of_filter_eq (h y).symm) List.not_mem_nil
  | cons x xs ih =>
    cases ys with
    | nil => exact absurd (mem_of_filter_eq (h x)) List.not_mem_nil
    | cons y ys =>
      -- neither first item is before the other, and as the first of those tied with them they are one
      have htied : cmp x y = .eq :=
        cmp_eq_of_ne_gt (cmp_ne_gt_of_mem hxs (mem_of_filter_eq (h y).symm))
          (cmp_ne_gt_of_mem hys (mem_of_filter_eq (h x)))
      have hx := h x
      rw [filter_cons_of_tied Std.ReflCmp.compare_self, filter_cons_of_tied htied] at hx
      obtain rfl := (List.cons.inj hx).1
      refine congrArg (x :: ·) (ih hxs.of_cons hys.of_cons fun z => ?_)
      have hz := h z
      by_cases hzx : cmp z x = .eq
      · rw [filter_cons_of_tied hzx, filter_cons_of_tied hzx] at hz
        exact (List.cons.inj hz).2
      · rwa [filter_cons_of_not_tied hzx, filter_cons_of_not_tied hzx] at hz

namespace IsStableSort

theorem unique (hy : IsStableSort cmp xs ys) {zs : List α} (hz : IsStableSort cmp xs zs) :
    ys = zs :=
  eq_of_filter_eq hy.ordered hz.ordered fun x => (hy.stable x).trans (hz.stable x).symm

/-- The other way round the sort is that of the reversed list, reversed. -/
theorem reverse (h : IsStableSort cmp xs.reverse ys) :
    IsStableSort (fun x y => cmp y x) xs ys.reverse where
  perm := (List.reverse_perm ys).trans (h.perm.trans (List.reverse_perm xs))
  ordered := List.pairwise_reverse.mpr h.ordered
  stable x := by
    have hsymm : (fun y => decide (cmp y x = .eq)) = fun y => decide (cmp x y = .eq) := by
      funext y
      rw [decide_eq_decide]
      exact Std.OrientedCmp.eq_comm
    rw [hsymm, List.filter_reverse, h.stable, List.filter_reverse, List.reverse_reverse]

end IsStableSort

/-- Merge sort is stable. -/
theorem isStableSort_mergeSort (cmp : α → α → Ordering) [Std.TransCmp cmp] (xs : List α) :
    IsStableSort cmp xs (xs.mergeSort fun x y => cmp x y != .gt) := by
  have hle (x y : α) : (cmp x y != .gt) = (cmp x y).isLE := by cases cmp x y <;> rfl
  have htrans (x y z : α) (hxy : (cmp x y != .gt) = true) (hyz : (cmp y z != .gt) = true) :
      (cmp x z != .gt) = true := by
    rw [hle] at hxy hyz ⊢
    exact Std.TransCmp.isLE_trans hxy hyz
  have htotal (x y : α) : ((cmp x y != .gt) || (cmp y x != .gt)) = true := by
    have hswap : cmp y x = (cmp x y).swap := Std.OrientedCmp.eq_swap
    rw [hswap]
    cases cmp x y <;> rfl
  have hperm := List.mergeSort_perm xs fun x y => cmp x y != .gt
  refine ⟨hperm, ?_, fun x => ?_⟩
  · exact (List.pairwise_mergeSort htrans htotal xs).imp fun h => by simpa using h
  · -- the items tied with one another are in order as they stand, so they stay as they are
    have htied : (xs.filter fun y => cmp x y = .eq).Pairwise fun y z => (cmp y z != .gt) = true := by
      refine List.pairwise_of_forall_mem_list fun y hy z hz => ?_
      have hy := of_decide_eq_true (List.mem_filter.mp hy).2
      have hz := of_decide_eq_true (List.mem_filter.mp hz).2
      rw [Std.TransCmp.eq_trans (Std.OrientedCmp.eq_symm hy) hz]
      rfl
    have hsublist := (List.sublist_mergeSort htrans htotal htied List.filter_sublist).filter
      fun y => cmp x y = .eq
    rw [List.filter_filter] at hsublist
    simp only [Bool.and_self] at hsublist
    exact (hsublist.eq_of_length (hperm.filter _).length_eq.symm).symm

end CampusQuery
