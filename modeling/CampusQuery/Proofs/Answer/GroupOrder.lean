import Mathlib
import CampusQuery.Proofs.Answer.Partition

/-!
# The order of groups

`partition` splits groups key by key, and puts the parts of each where the group was, in the order in
which their values are met in it. So of two groups the first is the one whose value under the first
key on which they differ is met first among the rows that agree with both on the keys before. That
need not be the one whose first row is met first.

* `partition_cons` — to group by one key more is to group each of the parts by that key.
* `ComesFirst` — the order in which the rows at two places are grouped.
* `pairwise_partition` — groups stand in this order.
* `Grouping.lt_iff_met_first` — which of two groups, and of the rows made of them, comes first.
-/

namespace CampusQuery

/-! ## Splitting key by key -/

section Refinement

variable (rows : Array Record)

/-- Each of some groups is split on its own. -/
theorem foldl_flatMap_partsBy (keys : List FieldKey) (groups : List (List Nat)) :
    keys.foldl (fun groups key => groups.flatMap (partsBy (classAt rows key.field))) groups =
      groups.flatMap fun group =>
        keys.foldl (fun groups key => groups.flatMap (partsBy (classAt rows key.field))) [group] := by
  induction keys generalizing groups with
  | nil => simp
  | cons key keys ih =>
    simp only [List.foldl_cons, List.flatMap_singleton]
    rw [ih, List.flatMap_assoc]
    congr 1
    funext group
    exact (ih _).symm

theorem partition_of_ne_nil (keys : List FieldKey) {places : List Nat} (h : places ≠ []) :
    partition rows keys places =
      keys.foldl (fun groups key => groups.flatMap (partsBy (classAt rows key.field))) [places] := by
  rw [partition, if_neg (by simpa using h)]

/-- The groups by some keys are those, by all keys but the first, of each part by the first. -/
theorem partition_cons (key : FieldKey) (keys : List FieldKey) (places : List Nat) :
    partition rows (key :: keys) places =
      (partsBy (classAt rows key.field) places).flatMap (partition rows keys) := by
  have hparts := AreClasses.partsBy (classAt rows key.field) places
  have hstart : partition rows (key :: keys) places =
      keys.foldl (fun groups key => groups.flatMap (partsBy (classAt rows key.field)))
        (partsBy (classAt rows key.field) places) := by
    by_cases h : places = []
    · subst h
      rfl
    · rw [partition_of_ne_nil rows _ h, List.foldl_cons, List.flatMap_singleton]
  rw [hstart, foldl_flatMap_partsBy]
  refine List.flatMap_congr fun part hpart => ?_
  obtain ⟨x, hx, -⟩ := hparts.exists_head? hpart
  exact (partition_of_ne_nil rows keys (List.ne_nil_of_mem (List.mem_of_head? hx))).symm

end Refinement

/-! ## Which value is met first -/

section Order

variable (rows : Array Record)

/-- Of some places those at which the rows say the same as the row at `x` under some keys. -/
def agreeing (keys : List FieldKey) (x : Nat) (places : List Nat) : List Nat :=
  places.filter fun z => ∀ k ∈ keys, AgreeOn rows k z x

/-- Where among some places what the row at `x` says under a key is met first. -/
def metAt (k : FieldKey) (x : Nat) (places : List Nat) : Nat :=
  places.findIdx fun z => AgreeOn rows k z x

/-- The row at `x` is grouped before the one at `y`: under the first key on which they differ what it
says is met first, among the rows that agree with both on the keys before. -/
def ComesFirst (keys : List FieldKey) (places : List Nat) (x y : Nat) : Prop :=
  ∃ before key after, keys = before ++ key :: after ∧ (∀ k ∈ before, AgreeOn rows k x y) ∧
    ¬ AgreeOn rows key x y ∧
    metAt rows key x (agreeing rows before x places) <
      metAt rows key y (agreeing rows before x places)

variable {rows} {k : FieldKey} {keys : List FieldKey} {places : List Nat} {x y z : Nat}

theorem agreeOn_iff : AgreeOn rows k x y ↔ classAt rows k.field x = classAt rows k.field y :=
  map_unsignedZero_eq_iff.symm

theorem AgreeOn.symm (h : AgreeOn rows k x y) : AgreeOn rows k y x :=
  Eq.symm h

theorem AgreeOn.congr_right (h : AgreeOn rows k x y) : AgreeOn rows k z x ↔ AgreeOn rows k z y :=
  ⟨fun hz => Eq.trans hz h, fun hz => Eq.trans hz h.symm⟩

theorem agreeing_congr (h : ∀ k ∈ keys, AgreeOn rows k x y) :
    agreeing rows keys x places = agreeing rows keys y places := by
  refine List.filter_congr fun z _ => decide_eq_decide.mpr ?_
  exact forall₂_congr fun k hk => (h k hk).congr_right

theorem agreeing_nil : agreeing rows [] x places = places := by
  simp [agreeing]

theorem mem_agreeing : z ∈ agreeing rows keys x places ↔
    z ∈ places ∧ ∀ k ∈ keys, AgreeOn rows k z x := by
  simp [agreeing]

theorem metAt_eq_idxOf : metAt rows k x places =
    (places.map (classAt rows k.field)).idxOf (classAt rows k.field x) := by
  rw [metAt, List.idxOf, List.findIdx_map]
  congr 1
  funext z
  simp [agreeOn_iff, Bool.beq_eq_decide_eq]

/-- The items of a group are of the list that is grouped. -/
theorem mem_of_mem_partition {group : List Nat} (hgroup : group ∈ partition rows keys places)
    (hx : x ∈ group) : x ∈ places := by
  obtain ⟨_, -, hitems⟩ := (areClasses_partition rows keys places).exists_head? hgroup
  exact (hitems x hx).1

/-- The order within a part is that within all rows, the key by which it is a part being one of
those before. -/
theorem comesFirst_of_part {key : FieldKey} {part : List Nat}
    (hpart : part ∈ partsBy (classAt rows key.field) places) (hx : x ∈ part) (hy : y ∈ part)
    (h : ComesFirst rows keys part x y) : ComesFirst rows (key :: keys) places x y := by
  obtain ⟨z, -, rfl⟩ := (AreClasses.partsBy (classAt rows key.field) places).mem_iff.mp hpart
  simp only [List.mem_filter, decide_eq_true_eq] at hx hy
  obtain ⟨before, key', after, rfl, hbefore, hkey', hlt⟩ := h
  refine ⟨key :: before, key', after, rfl, ?_, hkey', ?_⟩
  · rw [List.forall_mem_cons]
    exact ⟨agreeOn_iff.mpr (hx.2.trans hy.2.symm), hbefore⟩
  · have hsame : agreeing rows before x (places.filter fun w =>
        classAt rows key.field w = classAt rows key.field z) =
          agreeing rows (key :: before) x places := by
      rw [agreeing, agreeing, List.filter_filter]
      refine List.filter_congr fun w _ => ?_
      rw [Bool.eq_iff_iff]
      simp only [Bool.and_eq_true, decide_eq_true_eq, List.forall_mem_cons, agreeOn_iff, hx.2]
      exact and_comm
    rwa [← hsame]

/-- Of two parts the first is the one whose value is met first. -/
theorem comesFirst_of_parts {key : FieldKey} (keys : List FieldKey) {c d : Option Value}
    (hlt : (places.map (classAt rows key.field)).idxOf c <
      (places.map (classAt rows key.field)).idxOf d)
    (hx : classAt rows key.field x = c) (hy : classAt rows key.field y = d) :
    ComesFirst rows (key :: keys) places x y := by
  subst hx hy
  refine ⟨[], key, keys, rfl, by simp, fun hagree => ?_, ?_⟩
  · rw [agreeOn_iff.mp hagree] at hlt
    exact lt_irrefl _ hlt
  · rwa [agreeing_nil, metAt_eq_idxOf, metAt_eq_idxOf]

/-- Groups stand in the order in which their rows are grouped. -/
theorem pairwise_partition (rows : Array Record) (keys : List FieldKey) (places : List Nat) :
    (partition rows keys places).Pairwise fun group group' =>
      ∀ x ∈ group, ∀ y ∈ group', ComesFirst rows keys places x y := by
  -- on the keys: within a part the groups are in order by induction, and parts are in order of the
  -- values that make them
  induction keys generalizing places with
  | nil =>
    rw [partition, List.foldl_nil]
    split_ifs
    · exact List.Pairwise.nil
    · exact List.pairwise_singleton _ _
  | cons key keys ih =>
    rw [partition_cons, List.pairwise_flatMap]
    constructor
    · intro part hpart
      refine (ih part).imp_of_mem fun hgroup hgroup' horder x hx y hy => ?_
      exact comesFirst_of_part hpart (mem_of_mem_partition hgroup hx)
        (mem_of_mem_partition hgroup' hy) (horder x hx y hy)
    · rw [partsBy_eq, List.pairwise_map]
      refine (pairwise_idxOf_eraseDups _).imp fun hlt group hgroup group' hgroup' x hx y hy => ?_
      have hx := (List.mem_filter.mp (mem_of_mem_partition hgroup hx)).2
      have hy := (List.mem_filter.mp (mem_of_mem_partition hgroup' hy)).2
      exact comesFirst_of_parts keys hlt (of_decide_eq_true hx) (of_decide_eq_true hy)

/-- Which of two groups comes first says where on the first key on which they differ their values are
met. -/
theorem exists_key_of_ne {a b : Nat} {group group' : List Nat}
    (ha : (partition rows keys places)[a]? = some group)
    (hb : (partition rows keys places)[b]? = some group') (hne : a ≠ b) (hx : x ∈ group)
    (hy : y ∈ group') :
    ∃ before key after, keys = before ++ key :: after ∧ (∀ k ∈ before, AgreeOn rows k x y) ∧
      ¬ AgreeOn rows key x y ∧
      (a < b ↔ metAt rows key x (agreeing rows before x places) <
        metAt rows key y (agreeing rows before x places)) := by
  obtain ⟨hlta, rfl⟩ := List.getElem?_eq_some_iff.mp ha
  obtain ⟨hltb, rfl⟩ := List.getElem?_eq_some_iff.mp hb
  have horder := List.pairwise_iff_getElem.mp (pairwise_partition rows keys places)
  rcases Nat.lt_or_gt_of_ne hne with hlt | hlt
  · obtain ⟨before, key, after, hkeys, hbefore, hkey, hmet⟩ := horder a b hlta hltb hlt x hx y hy
    exact ⟨before, key, after, hkeys, hbefore, hkey, iff_of_true hlt hmet⟩
  · obtain ⟨before, key, after, hkeys, hbefore, hkey, hmet⟩ := horder b a hltb hlta hlt y hy x hx
    refine ⟨before, key, after, hkeys, fun k hk => (hbefore k hk).symm, fun h => hkey h.symm, ?_⟩
    rw [← agreeing_congr hbefore]
    exact iff_of_false (by omega) (by omega)

end Order

namespace Grouping

/-- Of two groups, and of the two rows made of them, let `key` be the first key on which they differ.
The first is the one whose value under it is met first among the rows that say the same as both under
the keys before. If there is one key only, groups stand in the order in which their values are met
among all rows. -/
theorem lt_iff_met_first [Converter] {g : Grouping} {rows : Array Record} {places : List Nat}
    {a b : Nat} {group group' : List Nat} (ha : (partition rows g.keys places)[a]? = some group)
    (hb : (partition rows g.keys places)[b]? = some group') (hne : a ≠ b) :
    (g.summaries rows places)[a]? = some (g.summary rows group) ∧
    (g.summaries rows places)[b]? = some (g.summary rows group') ∧
    group ≠ [] ∧ group' ≠ [] ∧
    ∀ x ∈ group, ∀ y ∈ group',
      (∃ before key after, g.keys = before ++ key :: after ∧
        (∀ k ∈ before, AgreeOn rows k x y) ∧ ¬ AgreeOn rows key x y ∧
        x ∈ agreeing rows before x places ∧ y ∈ agreeing rows before x places ∧
        (a < b ↔ metAt rows key x (agreeing rows before x places) <
          metAt rows key y (agreeing rows before x places))) ∧
      ∀ key, g.keys = [key] → (a < b ↔ metAt rows key x places < metAt rows key y places) := by
  have hshares := (areClasses_partition rows g.keys places).sharesOut
  have hgroup := List.mem_of_getElem? ha
  have hgroup' := List.mem_of_getElem? hb
  refine ⟨?_, ?_, hshares.ne_nil _ hgroup, hshares.ne_nil _ hgroup', fun x hx y hy => ?_⟩
  · rw [summaries, List.getElem?_map, ha, Option.map_some]
  · rw [summaries, List.getElem?_map, hb, Option.map_some]
  obtain ⟨before, key, after, hkeys, hbefore, hkey, hlt⟩ := exists_key_of_ne ha hb hne hx hy
  constructor
  · refine ⟨before, key, after, hkeys, hbefore, hkey, ?_, ?_, hlt⟩
    · exact mem_agreeing.mpr ⟨mem_of_mem_partition hgroup hx, fun k _ => rfl⟩
    · exact mem_agreeing.mpr
        ⟨mem_of_mem_partition hgroup' hy, fun k hk => (hbefore k hk).symm⟩
  · intro only honly
    -- the one key is the first, and no rows are left out before it
    obtain ⟨rfl, rfl⟩ : before = [] ∧ key = only := by
      cases before with
      | nil => exact ⟨rfl, (List.cons.inj (hkeys.symm.trans honly)).1⟩
      | cons k before =>
        have := congrArg List.length (hkeys.symm.trans honly)
        simp at this
    rwa [agreeing_nil] at hlt

/-- The section 210 of `ee` is met before the section 320 of `cs`, but not its department. -/
theorem lt_iff_met_first_departments :
    let rows := #[numberedSection "cs" "310" .zero, numberedSection "ee" "210" .zero,
      numberedSection "cs" "320" .zero, numberedSection "cs" "310" .zero]
    let dept : FieldKey := ⟨"a_dept", .dept⟩
    let number : FieldKey := ⟨"a_id", .id⟩
    let groups := partition rows [dept, number] [0, 1, 2, 3]
    groups = [[0, 3], [2], [1]] ∧
      ∃ before key after, [dept, number] = before ++ key :: after ∧
        (∀ k ∈ before, AgreeOn rows k 2 1) ∧ ¬ AgreeOn rows key 2 1 ∧
        (1 < 2 ↔ metAt rows key 2 (agreeing rows before 2 [0, 1, 2, 3]) <
          metAt rows key 1 (agreeing rows before 2 [0, 1, 2, 3])) := by
  intro rows dept number groups
  have hgroups : groups = [[0, 3], [2], [1]] := by
    simp only [groups, partition, List.foldl, funext (partsBy_eq _)]
    decide +kernel
  have ha : groups[1]? = some [2] := by rw [hgroups]; rfl
  have hb : groups[2]? = some [1] := by rw [hgroups]; rfl
  obtain ⟨-, -, -, -, horder⟩ :=
    lt_iff_met_first (g := ⟨[dept, number], []⟩) ha hb (by decide)
  obtain ⟨⟨before, key, after, hkeys, hbefore, hkey, -, -, hlt⟩, -⟩ :=
    horder 2 (by decide) 1 (by decide)
  exact ⟨hgroups, before, key, after, hkeys, hbefore, hkey, hlt⟩

end Grouping

end CampusQuery
