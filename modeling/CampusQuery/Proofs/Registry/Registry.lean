import Mathlib
import CampusQuery.Engine
import CampusQuery.Proofs.Registry.Dataset

/-!
# The order of the registry

The datasets of a registry stand in the order of their ids, and no two have the same id. Whatever
the order in which datasets are registered, the registry in the end is the same.

* `Registry.Sorted` — the order, kept by `Registry.add` and `Registry.remove`.
* `registerAll_eq_ok` — the datasets of a sorted registry make it up again, in any order.
-/

namespace CampusQuery

namespace Registry

/-- The datasets are in the order of their ids. -/
def Sorted (r : Registry) : Prop :=
  r.datasets.Pairwise fun x y => x.id < y.id

theorem sorted_empty : empty.Sorted :=
  List.Pairwise.nil

theorem get?_eq_none_iff {r : Registry} {id : String} :
    r.get? id = none ↔ ∀ x ∈ r.datasets, x.id ≠ id := by
  simp [get?]

theorem contains_eq_false_iff {r : Registry} {id : String} :
    r.contains id = false ↔ ∀ x ∈ r.datasets, x.id ≠ id := by
  rw [contains, ← get?_eq_none_iff]
  cases r.get? id <;> simp

theorem contains_iff {r : Registry} {id : String} :
    r.contains id = true ↔ ∃ x ∈ r.datasets, x.id = id := by
  simp [contains, get?]

theorem Sorted.nodup {r : Registry} (h : r.Sorted) : (r.datasets.map Dataset.id).Nodup :=
  List.pairwise_map.mpr (h.imp fun hlt => ne_of_lt hlt)

theorem Sorted.eq_of_id {r : Registry} (h : r.Sorted) {x y : Dataset} (hx : x ∈ r.datasets)
    (hy : y ∈ r.datasets) (hid : x.id = y.id) : x = y :=
  List.inj_on_of_nodup_map h.nodup hx hy hid

theorem Sorted.get?_eq_some_iff {r : Registry} (h : r.Sorted) {id : String} {d : Dataset} :
    r.get? id = some d ↔ d ∈ r.datasets ∧ d.id = id := by
  constructor
  · intro hget
    exact ⟨List.mem_of_find?_eq_some hget, by simpa using List.find?_some hget⟩
  · rintro ⟨hd, rfl⟩
    cases hget : r.get? d.id with
    | none => exact absurd rfl (get?_eq_none_iff.mp hget d hd)
    | some x =>
      have hx : x.id = d.id := by simpa using List.find?_some hget
      rw [h.eq_of_id (List.mem_of_find?_eq_some hget) hd hx]

/-! ## Adding -/

theorem insert_perm (d : Dataset) (ds : List Dataset) : (insert d ds).Perm (d :: ds) := by
  induction ds with
  | nil => exact .refl _
  | cons x ds ih =>
    rw [insert]
    split_ifs
    · exact .refl _
    · exact (ih.cons x).trans (.swap d x ds)

theorem mem_insert {d x : Dataset} {ds : List Dataset} : x ∈ insert d ds ↔ x = d ∨ x ∈ ds := by
  rw [(insert_perm d ds).mem_iff, List.mem_cons]

theorem pairwise_insert {d : Dataset} {ds : List Dataset}
    (hds : ds.Pairwise fun x y => x.id < y.id) (hd : ∀ x ∈ ds, x.id ≠ d.id) :
    (insert d ds).Pairwise fun x y => x.id < y.id := by
  induction ds with
  | nil => simp [insert]
  | cons x ds ih =>
    obtain ⟨hx, hds⟩ := List.pairwise_cons.mp hds
    obtain ⟨hdx, hd⟩ := List.forall_mem_cons.mp hd
    rw [insert]
    split_ifs with hlt
    · refine List.pairwise_cons.mpr ⟨?_, List.pairwise_cons.mpr ⟨hx, hds⟩⟩
      exact List.forall_mem_cons.mpr ⟨hlt, fun y hy => hlt.trans (hx y hy)⟩
    · refine List.pairwise_cons.mpr ⟨fun y hy => ?_, ih hds hd⟩
      rcases mem_insert.mp hy with rfl | hy
      · exact lt_of_le_of_ne (not_lt.mp hlt) hdx
      · exact hx y hy

theorem add_eq_ok_iff {r r' : Registry} {d : Dataset} :
    r.add d = .ok r' ↔
      d.IsRegistrable ∧ (∀ x ∈ r.datasets, x.id ≠ d.id) ∧ r' = ⟨insert d r.datasets⟩ := by
  have hregistrable : d.IsRegistrable ↔ Dataset.isValidId d.id = true ∧ d.rows.isEmpty = false :=
    ⟨fun h => ⟨h.valid, h.nonempty⟩, fun h => ⟨h.1, h.2⟩⟩
  rw [hregistrable, ← contains_eq_false_iff]
  unfold add Dataset.checkId
  cases Dataset.isValidId d.id <;> cases d.rows.isEmpty <;> cases r.contains d.id <;>
    simp [bind, Except.bind, pure, Except.pure, throw, throwThe, MonadExceptOf.throw, eq_comm]

theorem Sorted.add {r r' : Registry} {d : Dataset} (h : r.Sorted) (hadd : r.add d = .ok r') :
    r'.Sorted := by
  obtain ⟨-, hnew, rfl⟩ := add_eq_ok_iff.mp hadd
  exact pairwise_insert h hnew

/-! ## Removing -/

theorem remove_eq_ok_iff {r r' : Registry} {id : String} {d : Dataset} :
    r.remove id = .ok (d, r') ↔
      Dataset.isValidId id = true ∧ r.get? id = some d ∧
        r' = ⟨r.datasets.filter fun x => x.id != id⟩ := by
  unfold remove Dataset.checkId
  cases Dataset.isValidId id <;> cases r.get? id <;>
    simp [bind, Except.bind, pure, Except.pure, throw, throwThe, MonadExceptOf.throw, eq_comm]

theorem Sorted.remove {r r' : Registry} {id : String} {d : Dataset} (h : r.Sorted)
    (hremove : r.remove id = .ok (d, r')) : r'.Sorted := by
  obtain ⟨-, -, rfl⟩ := remove_eq_ok_iff.mp hremove
  exact h.sublist List.filter_sublist

/-! ## Registering one after the other -/

/-- Two sorted registries of the same datasets are the same. -/
theorem Sorted.eq_of_perm {r r' : Registry} (h : r.Sorted) (h' : r'.Sorted)
    (hperm : r.datasets.Perm r'.datasets) : r = r' := by
  have : r.datasets = r'.datasets :=
    hperm.eq_of_pairwise (fun x y _ _ hxy hyx => absurd (hxy.trans hyx) (lt_irrefl _)) h h'
  cases r; cases r'; exact congrArg _ this

end Registry

namespace Engine

theorem registerAll_perm {ds : List Dataset} {r : Registry} (hr : r.Sorted)
    (hds : ∀ d ∈ ds, d.IsRegistrable) (hnodup : ((r.datasets ++ ds).map Dataset.id).Nodup) :
    ∃ r', registerAll r ds = .ok r' ∧ r'.Sorted ∧ r'.datasets.Perm (r.datasets ++ ds) := by
  induction ds generalizing r with
  | nil => exact ⟨r, rfl, hr, by simp⟩
  | cons d ds ih =>
    obtain ⟨hd, hds⟩ := List.forall_mem_cons.mp hds
    have hperm : (r.datasets ++ d :: ds).Perm (Registry.insert d r.datasets ++ ds) :=
      List.perm_middle.trans ((Registry.insert_perm d r.datasets).symm.append_right ds)
    have hnew : ∀ x ∈ r.datasets, x.id ≠ d.id := by
      intro x hx heq
      rw [List.map_append, List.map_cons] at hnodup
      refine (List.nodup_append.mp hnodup).2.2 x.id (List.mem_map_of_mem hx) d.id ?_ heq
      exact List.mem_cons_self
    have hadd := Registry.add_eq_ok_iff.mpr ⟨hd, hnew, rfl⟩
    obtain ⟨r', hr', hsorted, hperm'⟩ :=
      ih (hr.add hadd) hds (((hperm.map Dataset.id).nodup_iff).mp hnodup)
    refine ⟨r', ?_, hsorted, hperm'.trans hperm.symm⟩
    rw [registerAll, List.foldlM_cons, hadd]
    exact hr'

/-- Datasets that have been registered one after the other are in the registry, and have passed
what is checked. -/
theorem registerAll_eq_ok_perm {ds : List Dataset} {r r' : Registry} (hr : r.Sorted)
    (h : registerAll r ds = .ok r') :
    r'.Sorted ∧ r'.datasets.Perm (r.datasets ++ ds) ∧ ∀ d ∈ ds, d.IsRegistrable := by
  induction ds generalizing r with
  | nil =>
    obtain rfl := Except.ok.inj h
    exact ⟨hr, by simp, by simp⟩
  | cons d ds ih =>
    rw [registerAll, List.foldlM_cons] at h
    cases hadd : r.add d with
    | error => simp [hadd, bind, Except.bind] at h
    | ok r₁ =>
      rw [hadd] at h
      obtain ⟨hsorted, hperm, hds⟩ := ih (hr.add hadd) h
      obtain ⟨hd, -, rfl⟩ := Registry.add_eq_ok_iff.mp hadd
      refine ⟨hsorted, hperm.trans ?_, List.forall_mem_cons.mpr ⟨hd, hds⟩⟩
      exact ((Registry.insert_perm d r.datasets).append_right ds).trans List.perm_middle.symm

/-- The datasets of a sorted registry, in any order, make it up again. -/
theorem registerAll_eq_ok {r : Registry} {ds : List Dataset} (hr : r.Sorted)
    (hregistrable : ∀ d ∈ r.datasets, d.IsRegistrable) (hperm : ds.Perm r.datasets) :
    registerAll .empty ds = .ok r := by
  obtain ⟨r', hr', hsorted, hperm'⟩ := registerAll_perm Registry.sorted_empty
    (fun d hd => hregistrable d (hperm.mem_iff.mp hd))
    (((hperm.map Dataset.id).nodup_iff).mpr hr.nodup)
  rw [hr', hsorted.eq_of_perm hr (hperm'.trans hperm)]

end Engine

end CampusQuery
