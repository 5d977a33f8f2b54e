import Mathlib
import CampusQuery.Proofs.Answer.Aggregate
import CampusQuery.Proofs.Answer.Partition
import CampusQuery.Proofs.Answer.Permutation

/-!
# The greatest, the least and how many

The greatest and the least number of a group are values of rows of the group, with none beyond them.
How many different values a group has is counted by the equality by which rows are grouped, so it is
how many groups the rows would make under the field alone.

* `Grouping.exists_best` — the best number of a group is that of one of its rows.
* `Grouping.different` — how many different values the rows of a group have.
* `Grouping.extremes_and_count` — what the answer shows of them.
-/

namespace CampusQuery

namespace Grouping

open Aggregate

variable {rows : Array Record} {k : FieldKey} {group : List Nat}

/-! ## The best number -/

theorem mem_numbers_valuesOf {x : Binary64} :
    x ∈ numbers (valuesOf rows group k) ↔
      ∃ place ∈ group, valueAt rows k.field place = some (.number x) := by
  rw [numbers, valuesOf, List.mem_filterMap]
  simp only [List.mem_map, exists_exists_and_eq_and]
  exact exists_congr fun place => and_congr_right fun _ => Value.bind_number?_eq_some_iff

/-- The rows of a group have a number each in a numeric field. -/
theorem exists_number {kind : Kind} (hrows : ∀ r ∈ rows, r.kind = kind) (hk : k.field.kind = kind)
    (htype : k.type = .numeric) {place : Nat} (hplace : place < rows.size) :
    ∃ x, valueAt rows k.field place = some (.number x) := by
  obtain ⟨v, hv, hvtype⟩ := exists_valueAt hrows hplace hk
  cases v with
  | number x => exact ⟨x, hv⟩
  | text s => exact absurd (hvtype.trans htype) (by simp [Value.type])

/-- The best number of a group is that of one of its rows, and no row has a better one. -/
theorem exists_best {better : Binary64 → Binary64 → Binary64} {key : Binary64 → Int}
    (hchoice : ∀ x y, better x y = x ∨ better x y = y)
    (hkey : ∀ x y, key x ≤ key (better x y) ∧ key y ≤ key (better x y)) (hne : group ≠ [])
    (hnumbers : ∀ place ∈ group, ∃ x, valueAt rows k.field place = some (.number x)) :
    ∃ x, best better (numbers (valuesOf rows group k)) = some x ∧
      (∃ place ∈ group, valueAt rows k.field place = some (.number x)) ∧
      ∀ place ∈ group, ∃ y, valueAt rows k.field place = some (.number y) ∧ key y ≤ key x := by
  obtain ⟨first, hfirst⟩ := List.exists_mem_of_ne_nil group hne
  obtain ⟨y, hy⟩ := hnumbers first hfirst
  have hmem : y ∈ numbers (valuesOf rows group k) := mem_numbers_valuesOf.mpr ⟨first, hfirst, hy⟩
  obtain ⟨x, hx⟩ := Option.ne_none_iff_exists'.mp
    (mt best_eq_none_iff.mp (List.ne_nil_of_mem hmem) : best better _ ≠ none)
  obtain ⟨hxmem, hle⟩ := best_spec hchoice hkey hx
  refine ⟨x, hx, mem_numbers_valuesOf.mp hxmem, fun place hplace => ?_⟩
  obtain ⟨z, hz⟩ := hnumbers place hplace
  exact ⟨z, hz, hle z (mem_numbers_valuesOf.mpr ⟨place, hplace, hz⟩)⟩

/-! ## How many different values -/

/-- How many different values of a field the rows of a group have: numbers are told apart by what
they are, so that zeros of either sign are one, and texts character by character. -/
def different (rows : Array Record) (k : FieldKey) (group : List Nat) : Nat :=
  (group.map fun place => (valueAt rows k.field place).map Value.denoted).toFinset.card

/-- They are as many as the groups that the rows make under the field alone. -/
theorem length_partition_eq_different (rows : Array Record) (k : FieldKey) (group : List Nat) :
    (partition rows [k] group).length = different rows k group := by
  refine ((areClasses_partition rows [k] group).congr fun x _ y _ => ?_).length_eq
  simp [tupleAt]

theorem count_eq_different [Converter] (rows : Array Record) (k : FieldKey) (group : List Nat) :
    Aggregate.count.value (valuesOf rows group k) = Json.ofNat (different rows k group) := by
  have hclasses := AreClasses.partsBy (classAt rows k.field) group
  have hsame : AreClasses (fun place => (valueAt rows k.field place).map Value.denoted) group
      (partsBy (classAt rows k.field) group) :=
    hclasses.congr fun x _ y _ => map_unsignedZero_eq_iff
  have hcard : (group.map (classAt rows k.field)).toFinset.card = different rows k group :=
    hclasses.length_eq.symm.trans hsame.length_eq
  rw [Aggregate.value, ← hcard]
  simp only [size_ofList, valuesOf, List.map_map]
  rfl

theorem different_le_length (rows : Array Record) (k : FieldKey) (group : List Nat) :
    different rows k group ≤ group.length :=
  (List.toFinset_card_le _).trans_eq (List.length_map _)

theorem different_pos (rows : Array Record) (k : FieldKey) (hne : group ≠ []) :
    0 < different rows k group := by
  rw [different, Finset.card_pos, List.toFinset_nonempty_iff]
  simpa using hne

theorem different_eq_of_perm {group' : List Nat} (h : group.Perm group') :
    different rows k group = different rows k group' :=
  congrArg Finset.card (List.toFinset_eq_of_perm _ _ (h.map _))

/-- Parts of a group have no fewer values between them than the group. -/
theorem different_flatten_le (rows : Array Record) (k : FieldKey) (parts : List (List Nat)) :
    different rows k parts.flatten ≤ (parts.map (different rows k)).sum := by
  induction parts with
  | nil => rfl
  | cons part parts ih =>
    rw [List.flatten_cons, different, List.map_append, List.toFinset_append, List.map_cons,
      List.sum_cons]
    exact (Finset.card_union_le _ _).trans (Nat.add_le_add_left ih _)

/-- The rows of a group have one value of each field by which they are grouped. -/
theorem different_of_mem_partition {keys : List FieldKey} {places : List Nat}
    (hgroup : group ∈ partition rows keys places) (hk : k.field ∈ keys.map FieldKey.field) :
    different rows k group = 1 := by
  obtain ⟨k', hk', hfield⟩ := List.mem_map.mp hk
  obtain ⟨first, hfirst, hitems⟩ := (areClasses_partition rows keys places).exists_head? hgroup
  refine Finset.card_eq_one.mpr ⟨(valueAt rows k.field first).map Value.denoted, ?_⟩
  ext said
  rw [List.mem_toFinset, List.mem_map, Finset.mem_singleton]
  constructor
  · rintro ⟨place, hplace, rfl⟩
    rw [← hfield]
    exact tupleAt_eq_iff.mp (hitems place hplace).2 k' hk'
  · rintro rfl
    exact ⟨first, List.mem_of_head? hfirst, rfl⟩

/-! ## What the answer shows -/

/-- Of a group of rows the answer shows, for a numeric field, as the greatest (least) value that of
one of the rows, and every row has a number that is not greater (less). For any field it shows how
many different values there are, by the equality by which rows are grouped: there is at least one,
there are no more than rows, there is one in a group that is made by the field, and parts of the
group have no fewer between them. -/
theorem extremes_and_count [Converter] {kind : Kind} (hrows : ∀ r ∈ rows, r.kind = kind)
    (hk : k.field.kind = kind) (hne : group ≠ []) (hplaces : ∀ place ∈ group, place < rows.size) :
    (k.type = .numeric →
      (∃ x, Aggregate.max.value (valuesOf rows group k) = .number (.ofBinary64 x) ∧
        (∃ place ∈ group, valueAt rows k.field place = some (.number x)) ∧
        ∀ place ∈ group, ∃ y, valueAt rows k.field place = some (.number y) ∧
          y.value ≤ x.value) ∧
      ∃ x, Aggregate.min.value (valuesOf rows group k) = .number (.ofBinary64 x) ∧
        (∃ place ∈ group, valueAt rows k.field place = some (.number x)) ∧
        ∀ place ∈ group, ∃ y, valueAt rows k.field place = some (.number y) ∧
          x.value ≤ y.value) ∧
    (∀ part, Aggregate.count.value (valuesOf rows part k) = Json.ofNat (different rows k part) ∧
      different rows k part = (partition rows [k] part).length) ∧
    1 ≤ different rows k group ∧ different rows k group ≤ group.length ∧
    (∀ keys places, group ∈ partition rows keys places → k.field ∈ keys.map FieldKey.field →
      different rows k group = 1) ∧
    ∀ parts : List (List Nat), parts.flatten.Perm group →
      different rows k group ≤ (parts.map (different rows k)).sum := by
  refine ⟨fun htype => ⟨?max, ?min⟩, fun part => ⟨count_eq_different rows k part,
    (length_partition_eq_different rows k part).symm⟩, different_pos rows k hne,
    different_le_length rows k group, fun _ _ => different_of_mem_partition, fun parts hparts => ?_⟩
  case max =>
    obtain ⟨x, hx, hfound, hle⟩ := exists_best max_eq_or le_value_max hne fun place hplace =>
      exists_number hrows hk htype (hplaces place hplace)
    exact ⟨x, congrArg Json.ofNumber? hx, hfound, hle⟩
  case min =>
    obtain ⟨x, hx, hfound, hle⟩ := exists_best min_eq_or value_min_le hne fun place hplace =>
      exists_number hrows hk htype (hplaces place hplace)
    refine ⟨x, congrArg Json.ofNumber? hx, hfound, fun place hplace => ?_⟩
    obtain ⟨y, hy, hyx⟩ := hle place hplace
    exact ⟨y, hy, neg_le_neg_iff.mp hyx⟩
  · rw [← different_eq_of_perm hparts]
    exact different_flatten_le rows k parts

/-- Zeros of either sign are one value, and the quarter is another, which is the greatest. -/
theorem extremes_and_count_zeros :
    let rows := #[numberedSection "cs" "310" .zero, numberedSection "cs" "320" Registry.quarter,
      numberedSection "cs" "330" Binary64.zero.neg]
    let k : FieldKey := ⟨"a_avg", .avg⟩
    (∀ r ∈ rows, r.kind = .courses) ∧ k.field.kind = .courses ∧
      (∀ place ∈ [2, 1, 0], place < rows.size) ∧
      (∃ x, Aggregate.max.value (valuesOf rows [2, 1, 0] k) = .number (.ofBinary64 x) ∧
        Registry.quarter.value ≤ x.value) ∧
      Aggregate.count.value (valuesOf rows [2, 1, 0] k) = Json.ofNat 2 ∧
      different rows k [2, 1, 0] ≤ different rows k [2] + (different rows k [0, 1] + 0) := by
  intro rows k
  have hrows : ∀ r ∈ rows, r.kind = .courses := by decide
  have hplaces : ∀ place ∈ [2, 1, 0], place < rows.size := by decide
  obtain ⟨hextremes, hcount, -, -, -, hparts⟩ :=
    extremes_and_count (k := k) hrows rfl (by decide) hplaces
  obtain ⟨⟨x, hx, -, hle⟩, -⟩ := hextremes rfl
  obtain ⟨y, hy, hyx⟩ := hle 1 (by decide)
  have hquarter : valueAt rows k.field 1 = some (.number Registry.quarter) := rfl
  obtain rfl : Registry.quarter = y := Value.number.inj (Option.some.inj (hquarter.symm.trans hy))
  have hdifferent : different rows k [2, 1, 0] = 2 := by decide +kernel
  refine ⟨hrows, rfl, hplaces, ⟨x, hx, hyx⟩, ?_, hparts [[2], [0, 1]] (by decide)⟩
  rw [(hcount _).1, hdifferent]

end Grouping

end CampusQuery
