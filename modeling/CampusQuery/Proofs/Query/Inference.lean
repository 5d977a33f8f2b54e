import Mathlib
import CampusQuery.Proofs.Answer.Dependence
import CampusQuery.Proofs.Query.WellFormed

/-!
# Kinds known and kinds inferred

The kind of the dataset of a query is known from the catalog or inferred from the first field. Both
ways lead to the same plan: since no two kinds share a field, the kind inferred is the only one
under which the keys have a meaning, and a catalog can only agree with it or have the query refused.

* `ofJson_iff_of_empty` — what a catalog adds to a reading without one.
* `Plan.exists_mem_keys` — there is a key in every query, so a kind other than that of the plan is
  one under which some key has no meaning.
* `Registry.ofJson_known_iff_inferred` — the plans with a catalog, and what becomes of the queries
  when a dataset is added.
-/

namespace CampusQuery

variable {known : String → Option Kind} {v : Json} {p : Plan}

/-- The catalog that knows no dataset speaks against no plan. -/
theorem ofJson_empty (h : Plan.ofJson known v = .ok p) : Plan.ofJson (fun _ => none) v = .ok p := by
  obtain ⟨hadmits, hmeans⟩ := ofJson_eq_ok_iff.mp h
  exact ofJson_eq_ok_iff.mpr ⟨hadmits.of_unopposed (.inl rfl), hmeans⟩

/-- A query has the plan that it has without a catalog, unless the catalog gives its dataset the
other kind. -/
theorem ofJson_iff_of_empty :
    Plan.ofJson known v = .ok p ↔
      Plan.ofJson (fun _ => none) v = .ok p ∧
        (known p.dataset = none ∨ known p.dataset = some p.kind) := by
  constructor
  · intro h
    exact ⟨ofJson_empty h, (ofJson_eq_ok_iff.mp h).1.unopposed⟩
  · rintro ⟨h, hunopposed⟩
    obtain ⟨hadmits, hmeans⟩ := ofJson_eq_ok_iff.mp h
    exact ofJson_eq_ok_iff.mpr ⟨hadmits.of_unopposed hunopposed, hmeans⟩

namespace Plan

/-- A query has a key: it shows a column, which is a field, or else rows are grouped by one. -/
theorem WellFormed.exists_mem_keys (h : p.WellFormed) : ∃ k, k ∈ p.keys := by
  unfold Plan.keys
  cases hg : p.grouping with
  | none =>
    obtain ⟨c, hc⟩ := List.exists_mem_of_ne_nil _ h.columns_ne
    obtain ⟨k, rfl⟩ := h.ungrouped hg c hc
    refine ⟨k, List.mem_append_left _ (List.mem_append_right _ ?_)⟩
    exact List.mem_filterMap.mpr ⟨_, hc, rfl⟩
  | some g =>
    obtain ⟨k, hk⟩ := List.exists_mem_of_ne_nil _ (h.grouping g hg).nonempty
    refine ⟨k, ?_⟩
    simp [Grouping.allKeys, hk]

/-- A plan is for the kind whose fields all its keys name. -/
theorem WellFormed.kind_eq_iff (h : p.WellFormed) {kind : Kind} :
    p.kind = kind ↔ ∀ k ∈ p.keys, k.field.kind = kind := by
  have hkinds : ∀ k ∈ p.keys, k.field.kind = p.kind := fun k hk =>
    Kind.mem_fields.mp (h.keys k hk).declared
  constructor
  · rintro rfl
    exact hkinds
  · intro hall
    obtain ⟨k, hk⟩ := h.exists_mem_keys
    rw [← hkinds k hk, hall k hk]

end Plan

namespace Registry

variable {r r' : Registry} {d : Dataset}

/-- After a dataset has been added its kind is known, and no other is known that was not. -/
theorem kindOf_of_add (h : r.add d = .ok r') (id : String) :
    r'.kindOf id = if id = d.id then some d.kind else r.kindOf id := by
  simp only [kindOf, get?_of_add h]
  split_ifs <;> rfl

theorem kindOf_eq_none_of_add (h : r.add d = .ok r') : r.kindOf d.id = none := by
  obtain ⟨-, hnew, -⟩ := add_eq_ok_iff.mp h
  rw [kindOf, get?_eq_none_iff.mpr hnew]
  rfl

/-- Once its dataset has been added a query has the plan that it had before, if it is for that
kind. -/
theorem ofJson_iff_of_add (h : r.add d = .ok r') :
    Plan.ofJson r'.kindOf v = .ok p ↔
      Plan.ofJson r.kindOf v = .ok p ∧ (p.dataset = d.id → p.kind = d.kind) := by
  rw [@ofJson_iff_of_empty r'.kindOf, @ofJson_iff_of_empty r.kindOf, and_assoc, kindOf_of_add h]
  refine and_congr_right fun _ => ?_
  by_cases hid : p.dataset = d.id
  · simp [hid, kindOf_eq_none_of_add h, eq_comm]
  · simp [hid]

/-- A query is read with a catalog as the plan that it has with none, where the kind of its dataset
is inferred, just when the catalog has no kind for the dataset or that one. So adding a dataset
leaves every query as it was, malformed or with its plan, but for those about this dataset of which
a key names a field of the other kind: these are malformed from then on. -/
theorem ofJson_known_iff_inferred (v : Json) :
    (∀ (known : String → Option Kind) (p : Plan),
      Plan.ofJson known v = .ok p ↔
        Plan.ofJson (fun _ => none) v = .ok p ∧
          (known p.dataset = none ∨ known p.dataset = some p.kind)) ∧
    ∀ (r r' : Registry) (d : Dataset), r.add d = .ok r' → ∀ p : Plan,
      Plan.ofJson r'.kindOf v = .ok p ↔
        Plan.ofJson r.kindOf v = .ok p ∧
          (p.dataset = d.id → ∀ k ∈ p.keys, k.field.kind = d.kind) := by
  refine ⟨fun known p => ofJson_iff_of_empty, fun r r' d hadd p => ?_⟩
  rw [ofJson_iff_of_add hadd]
  refine and_congr_right fun hread => imp_congr_right fun _ => ?_
  exact (Plan.wellFormed_of_ofJson hread).kind_eq_iff

/-- A query for the seats of rooms has a plan while nothing is known of its dataset, keeps it when
rooms are added under the id, and is malformed when sections are. -/
theorem ofJson_known_iff_inferred_seats :
    let raw := seatsQuery ["a_seats"]
    let p : Plan := ⟨"a", .rooms, .all, none, [.field ⟨"a_seats", .seats⟩], none⟩
    let rooms : Dataset := ⟨"a", .rooms, #[blankRoom], ⟨0, 0, 0⟩⟩
    let sections : Dataset := ⟨"a", .courses, #[Filter.blankSection "cs"], ⟨0, 0, 0⟩⟩
    empty.add rooms = .ok ⟨[rooms]⟩ ∧ empty.add sections = .ok ⟨[sections]⟩ ∧
      Plan.ofJson empty.kindOf raw = .ok p ∧
      Plan.ofJson (⟨[rooms]⟩ : Registry).kindOf raw = .ok p ∧
      ∀ p', Plan.ofJson (⟨[sections]⟩ : Registry).kindOf raw ≠ .ok p' := by
  intro raw p rooms sections
  have hrooms : empty.add rooms = .ok ⟨[rooms]⟩ :=
    add_eq_ok_iff.mpr ⟨⟨by decide +kernel, rfl⟩, by simp [empty], rfl⟩
  have hsections : empty.add sections = .ok ⟨[sections]⟩ :=
    add_eq_ok_iff.mpr ⟨⟨by decide +kernel, rfl⟩, by simp [empty], rfl⟩
  have hread : Plan.ofJson empty.kindOf raw = .ok p := rfl
  have hkeys : p.keys = [⟨"a_seats", .seats⟩] := by
    simp [p, Plan.keys, Filter.keys, Column.key?]
  obtain ⟨-, hadded⟩ := ofJson_known_iff_inferred raw
  refine ⟨hrooms, hsections, hread, ?_, fun p' hp' => ?_⟩
  · refine (hadded _ _ rooms hrooms p).mpr ⟨hread, fun _ k hk => ?_⟩
    rw [hkeys] at hk
    rw [List.mem_singleton.mp hk]
    rfl
  · obtain ⟨hread', hkinds⟩ := (hadded _ _ sections hsections p').mp hp'
    obtain rfl : p = p' := Except.ok.inj (hread.symm.trans hread')
    have hseats := hkinds rfl ⟨"a_seats", .seats⟩ (by rw [hkeys]; exact List.mem_cons_self)
    cases hseats

end Registry

end CampusQuery
