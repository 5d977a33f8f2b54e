import Mathlib
import CampusQuery.Proofs.Registry.Registry

/-!
# Histories of a registry

A registry changes by one dataset at a time, which is added or removed; a dataset is replaced by
removing it and adding another one under its id.

* `Registry.Changes` — a change about the dataset of an id.
* `Registry.Reaches` — any number of changes one after the other.
* `get?_of_add`, `get?_of_remove` — the datasets by their ids after a change.
* `Reaches.get?_eq` — what is not changed stays.
-/

namespace CampusQuery

namespace Registry

/-- A change about the dataset of an id. -/
inductive Changes (id : String) : Registry → Registry → Prop
  | added {r r' : Registry} {d : Dataset} : d.id = id → r.add d = .ok r' → Changes id r r'
  | removed {r r' : Registry} {d : Dataset} : r.remove id = .ok (d, r') → Changes id r r'

/-- What a registry becomes by changes about the datasets of some ids. -/
def Reaches (ids : String → Prop) : Registry → Registry → Prop :=
  Relation.ReflTransGen fun r r' => ∃ id, ids id ∧ Changes id r r'

theorem find?_insert_of_ne {d : Dataset} {id : String} (h : d.id ≠ id) (ds : List Dataset) :
    (insert d ds).find? (fun x => x.id == id) = ds.find? fun x => x.id == id := by
  have hd : (d.id == id) = false := by simpa using h
  induction ds with
  | nil => simp [insert, hd]
  | cons x ds ih =>
    rw [insert]
    split_ifs
    · rw [List.find?_cons, hd]
    · rw [List.find?_cons, List.find?_cons, ih]

theorem Changes.get?_eq {r r' : Registry} {id other : String} (h : Changes id r r')
    (hne : other ≠ id) : r'.get? other = r.get? other := by
  cases h with
  | added hid hadd =>
    obtain ⟨-, -, rfl⟩ := add_eq_ok_iff.mp hadd
    exact find?_insert_of_ne (hid ▸ hne.symm) _
  | removed hremove =>
    obtain ⟨-, -, rfl⟩ := remove_eq_ok_iff.mp hremove
    rw [get?, List.find?_filter]
    refine List.find?_congr fun x _ => ?_
    by_cases hx : x.id = other
    · simp [hx, hne]
    · simp [hx]

theorem find?_insert_self {d : Dataset} {ds : List Dataset} (h : ∀ x ∈ ds, x.id ≠ d.id) :
    (insert d ds).find? (fun x => x.id == d.id) = some d := by
  induction ds with
  | nil => simp [insert]
  | cons x ds ih =>
    obtain ⟨hx, hds⟩ := List.forall_mem_cons.mp h
    rw [insert]
    split_ifs
    · simp
    · rw [List.find?_cons_of_neg (by simpa using hx), ih hds]

theorem get?_of_add {r r' : Registry} {d : Dataset} (h : r.add d = .ok r') :
    r'.get? = fun id => if id = d.id then some d else r.get? id := by
  funext id
  by_cases hid : id = d.id
  · obtain ⟨-, hnew, rfl⟩ := add_eq_ok_iff.mp h
    rw [hid, if_pos rfl]
    exact find?_insert_self hnew
  · rw [if_neg hid, Changes.get?_eq (.added rfl h) hid]

theorem get?_of_remove {r r' : Registry} {id : String} {d : Dataset}
    (h : r.remove id = .ok (d, r')) :
    r'.get? = fun other => if other = id then none else r.get? other := by
  funext other
  by_cases hid : other = id
  · obtain ⟨-, -, rfl⟩ := remove_eq_ok_iff.mp h
    rw [hid, if_pos rfl]
    exact get?_eq_none_iff.mpr fun x hx => by simpa using (List.mem_filter.mp hx).2
  · rw [if_neg hid, Changes.get?_eq (.removed h) hid]

theorem Reaches.get?_eq {ids : String → Prop} {r r' : Registry} (h : Reaches ids r r')
    {id : String} (hid : ¬ ids id) : r'.get? id = r.get? id := by
  induction h with
  | refl => rfl
  | tail _ hchange ih =>
    obtain ⟨other, hother, hchange⟩ := hchange
    have hne : id ≠ other := by rintro rfl; exact hid hother
    rw [hchange.get?_eq hne, ih]

theorem Reaches.change {ids : String → Prop} {r r' r'' : Registry} (h : Reaches ids r r')
    {id : String} (hid : ids id) (hchange : Changes id r' r'') : Reaches ids r r'' :=
  h.tail ⟨id, hid, hchange⟩

end Registry

end CampusQuery
