import Mathlib
import CampusQuery.Json.Value

/-!
# Lists of entries

What is found in a list of entries after some are left out, changed or given again.

* `lookup_filter`, `lookup_map_snd` — what is found after entries are left out or changed.
* `lookup_eq_of_perm` — what is found where entries stand in another order.
* `exists_of_mem_forall₂` — the partner of a member.
* `eraseDups_concat`, `nodup_eraseDups`, `pairwise_idxOf_eraseDups` — the items of a list, each where
  it is met first.
* `Json.keys_insertAll`, `Json.mem_of_mem_insertAll` — the keys of an object stand in the order in
  which they are given first, and its values are values that are given.
* `Json.lookup_insertAll` — what is found under a key that is given one value.
-/

namespace CampusQuery

/-! ## Finding -/

section Lookup

variable {α β : Type} [BEq α] [LawfulBEq α]

theorem lookup_filter (p : α → Bool) (a : α) (l : List (α × β)) :
    (l.filter fun entry => p entry.1).lookup a = if p a then l.lookup a else none := by
  induction l with
  | nil => simp
  | cons entry l ih =>
    obtain ⟨b, x⟩ := entry
    by_cases hp : p b = true
    · rw [List.filter_cons_of_pos (by exact hp), List.lookup_cons, List.lookup_cons, ih]
      by_cases ha : a = b
      · subst ha
        simp [hp]
      · simp only [beq_eq_false_iff_ne.mpr ha]
    · rw [List.filter_cons_of_neg (by exact hp), List.lookup_cons, ih]
      by_cases ha : a = b
      · subst ha
        simp [hp]
      · simp only [beq_eq_false_iff_ne.mpr ha]

theorem lookup_filter_ne (a b : α) (l : List (α × β)) :
    (l.filter fun entry => entry.1 != a).lookup b = if b == a then none else l.lookup b := by
  rw [lookup_filter (· != a)]
  by_cases h : b = a <;> simp [h]

theorem lookup_map_snd {γ : Type} (f : α → β → γ) (l : List (α × β)) (a : α) :
    (l.map fun entry => (entry.1, f entry.1 entry.2)).lookup a = (l.lookup a).map (f a) := by
  induction l with
  | nil => rfl
  | cons entry l ih =>
    obtain ⟨b, x⟩ := entry
    by_cases h : a = b
    · subst h
      simp
    · have hbeq : (a == b) = false := beq_eq_false_iff_ne.mpr h
      simp only [List.map_cons, List.lookup_cons, hbeq, ih]

theorem mem_of_lookup_eq_some {l : List (α × β)} {a : α} {x : β} (h : l.lookup a = some x) :
    (a, x) ∈ l := by
  obtain ⟨before, after, rfl, -⟩ := List.lookup_eq_some_iff.mp h
  simp

theorem exists_lookup_eq_some {l : List (α × β)} {a : α} (h : a ∈ l.map Prod.fst) :
    ∃ x, l.lookup a = some x := by
  obtain ⟨entry, hentry, rfl⟩ := List.mem_map.mp h
  exact Option.isSome_iff_exists.mp (List.lookup_isSome_iff.mpr ⟨entry, hentry, by simp⟩)

/-- Where no key stands twice, an entry is found just if it is there. -/
theorem lookup_eq_some_iff_mem {l : List (α × β)} (h : (l.map Prod.fst).Nodup) {a : α} {x : β} :
    l.lookup a = some x ↔ (a, x) ∈ l := by
  refine ⟨mem_of_lookup_eq_some, fun hmem => ?_⟩
  obtain ⟨y, hy⟩ := exists_lookup_eq_some (List.mem_map_of_mem hmem : a ∈ l.map Prod.fst)
  have heq := List.inj_on_of_nodup_map h (mem_of_lookup_eq_some hy) hmem rfl
  rw [hy, (Prod.mk.inj heq).2]

/-- Where no key stands twice, what is found does not depend on the order of the entries. -/
theorem lookup_eq_of_perm {l l' : List (α × β)} (h : (l.map Prod.fst).Nodup) (hperm : l.Perm l')
    (a : α) : l'.lookup a = l.lookup a := by
  have h' : (l'.map Prod.fst).Nodup := (hperm.map Prod.fst).nodup_iff.mp h
  refine Option.ext fun x => ?_
  rw [lookup_eq_some_iff_mem h, lookup_eq_some_iff_mem h', hperm.mem_iff]

end Lookup

/-! ## Partners -/

theorem exists_of_mem_forall₂ {α β : Type} {R : α → β → Prop} {as : List α} {bs : List β}
    (h : List.Forall₂ R as bs) {b : β} (hb : b ∈ bs) : ∃ a ∈ as, R a b := by
  induction h with
  | nil => cases hb
  | cons hab _ ih =>
    rcases List.mem_cons.mp hb with rfl | hb
    · exact ⟨_, List.mem_cons_self, hab⟩
    · obtain ⟨a, ha, hR⟩ := ih hb
      exact ⟨a, List.mem_cons_of_mem _ ha, hR⟩

/-! ## First occurrences -/

theorem eraseDups_concat {α : Type} [BEq α] [LawfulBEq α] (xs : List α) (x : α) :
    (xs ++ [x]).eraseDups = if x ∈ xs then xs.eraseDups else xs.eraseDups ++ [x] := by
  rw [List.eraseDups_append]
  split_ifs with h <;> simp [List.removeAll, h, List.eraseDups_cons]

theorem nodup_eraseDups {α : Type} [BEq α] [LawfulBEq α] (xs : List α) :
    xs.eraseDups.Nodup := by
  induction xs using List.reverseRecOn with
  | nil => simp
  | append_singleton xs x ih =>
    rw [eraseDups_concat]
    split_ifs with h
    · exact ih
    · have hnew : ∀ y ∈ xs, y ≠ x := fun y hy heq => h (heq ▸ hy)
      simpa [List.nodup_append, ih] using hnew

/-- The items of a list stand in the order in which they are met first. -/
theorem pairwise_idxOf_eraseDups {α : Type} [BEq α] [LawfulBEq α] (xs : List α) :
    xs.eraseDups.Pairwise fun x y => xs.idxOf x < xs.idxOf y := by
  induction xs using List.reverseRecOn with
  | nil => simp
  | append_singleton xs x ih =>
    have hold {y : α} (hy : y ∈ xs) : (xs ++ [x]).idxOf y = xs.idxOf y := by
      rw [List.idxOf_append, if_pos hy]
    have hfirst : xs.eraseDups.Pairwise fun y z => (xs ++ [x]).idxOf y < (xs ++ [x]).idxOf z := by
      refine ih.imp_of_mem fun hy hz hlt => ?_
      rwa [hold (List.mem_eraseDups.mp hy), hold (List.mem_eraseDups.mp hz)]
    rw [eraseDups_concat]
    split_ifs with h
    · exact hfirst
    · refine List.pairwise_append.mpr ⟨hfirst, List.pairwise_singleton _ _, fun y hy z hz => ?_⟩
      obtain rfl := List.mem_singleton.mp hz
      have hy := List.mem_eraseDups.mp hy
      rw [hold hy, List.idxOf_append, if_neg h]
      have := List.idxOf_lt_length_of_mem hy
      omega

/-! ## Objects -/

namespace Json

theorem insertAll_concat (entries : List (String × Json)) (entry : String × Json) :
    insertAll (entries ++ [entry]) = insert entry.1 entry.2 (insertAll entries) := by
  rw [insertAll, List.foldl_concat]
  rfl

/-- The keys of an object are those given, each where it is given first. -/
theorem keys_insertAll (entries : List (String × Json)) :
    (insertAll entries).map Prod.fst = (entries.map Prod.fst).eraseDups := by
  induction entries using List.reverseRecOn with
  | nil => rfl
  | append_singleton entries entry ih =>
    rw [insertAll_concat, keys_insert, ih, List.map_append, List.map_singleton, eraseDups_concat]
    simp only [List.mem_eraseDups]

theorem mem_of_mem_insert {key : String} {value : Json} {entries : List (String × Json)}
    {entry : String × Json} (h : entry ∈ insert key value entries) :
    entry = (key, value) ∨ entry ∈ entries := by
  induction entries with
  | nil => simpa [insert] using h
  | cons first rest ih =>
    rw [insert] at h
    split_ifs at h
    · exact (List.mem_cons.mp h).imp_right (List.mem_cons_of_mem _)
    · rcases List.mem_cons.mp h with rfl | h
      · exact .inr List.mem_cons_self
      · exact (ih h).imp_right (List.mem_cons_of_mem _)

/-- The entries of an object are some of those given. -/
theorem mem_of_mem_insertAll {entries : List (String × Json)} {entry : String × Json}
    (h : entry ∈ insertAll entries) : entry ∈ entries := by
  induction entries using List.reverseRecOn with
  | nil => cases h
  | append_singleton entries last ih =>
    rw [insertAll_concat] at h
    rw [List.mem_append, List.mem_singleton]
    exact (mem_of_mem_insert h).symm.imp_left ih

/-- Under a key with one value, however often it is given, an object has that value. -/
theorem lookup_insertAll {entries : List (String × Json)} {key : String} {value : Json}
    (hkey : key ∈ entries.map Prod.fst) (h : ∀ entry ∈ entries, entry.1 = key → entry.2 = value) :
    (insertAll entries).lookup key = some value := by
  obtain ⟨v, hv⟩ := exists_lookup_eq_some (l := insertAll entries) (a := key) (by
    rwa [keys_insertAll, List.mem_eraseDups])
  rw [hv, ← h _ (mem_of_mem_insertAll (mem_of_lookup_eq_some hv)) rfl]

end Json

end CampusQuery
