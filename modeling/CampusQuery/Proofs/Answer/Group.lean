import Mathlib
import CampusQuery.Answer.Group
import CampusQuery.Proofs.Entries
import CampusQuery.Proofs.Number.Value

/-!
# Groups are classes

`partsBy` finds its parts through a table of positions, and `partition` splits every group it has by
one key more. In the end the groups are the classes of rows that agree on all keys, each class once:
there are as many of them as there are tuples of values.

* `Value.unsignedZero_eq_iff` — values are in one class just when they say the same.
* `partsBy_eq` — the parts are the items of each class, in the order of their first items.
* `AreClasses` — a list of lists is that of the classes of a list.
* `areClasses_partition` — the groups of rows are the classes of the rows that agree on the keys.
-/

namespace CampusQuery

/-! ## Equal values -/

/-- What a value says: a number, which zeros of either sign say alike, or a text. -/
def Value.denoted : Value → Int ⊕ String
  | .number x => .inl x.value
  | .text s => .inr s

theorem Value.unsignedZero_eq_iff {x y : Value} :
    x.unsignedZero = y.unsignedZero ↔ x.denoted = y.denoted := by
  cases x <;> cases y <;> simp [unsignedZero, denoted, Binary64.unsignedZero_eq_iff]

theorem map_unsignedZero_eq_iff {x y : Option Value} :
    x.map Value.unsignedZero = y.map Value.unsignedZero ↔
      x.map Value.denoted = y.map Value.denoted := by
  cases x <;> cases y <;> simp [Value.unsignedZero_eq_iff]

/-! ## Parts -/

section Parts

variable {α κ : Type} [DecidableEq κ] {classOf : α → κ}

theorem filter_class_concat (xs : List α) (x : α) (c : κ) :
    (xs ++ [x]).filter (fun y => classOf y = c) =
      xs.filter (fun y => classOf y = c) ++ if classOf x = c then [x] else [] := by
  rw [List.filter_append]
  split_ifs with hc <;> simp [hc]

variable [BEq κ] [Hashable κ]

/-- The parts of a list: where the table has a class, and the items of each class. -/
structure Parts.Holds (classOf : α → κ) (xs : List α) (p : Parts α κ) : Prop where
  index : ∀ (c : κ) (i : Nat), p.index[c]? = some i ↔ (xs.map classOf).eraseDups[i]? = some c
  parts : p.parts.toList.map List.reverse =
    (xs.map classOf).eraseDups.map fun c => xs.filter fun x => classOf x = c

theorem Parts.holds_empty : Parts.Holds classOf [] (⟨{}, #[]⟩ : Parts α κ) :=
  ⟨by simp, rfl⟩

namespace Parts.Holds

variable {xs : List α} {p : Parts α κ}

/-- An item of a class that has been met goes to the part of its class; the others stay. -/
theorem parts_modify (h : p.Holds classOf xs) {x : α} {i : Nat}
    (hindex : p.index[classOf x]? = some i) :
    (p.parts.modify i (x :: ·)).toList.map List.reverse =
      (xs.map classOf).eraseDups.map fun c => (xs ++ [x]).filter fun y => classOf y = c := by
  refine List.ext_getElem? fun j => ?_
  have hj := congrArg (·[j]?) h.parts
  simp only [List.getElem?_map] at hj
  simp only [Array.toList_modify, List.getElem?_map, List.getElem?_modify, filter_class_concat]
  cases hc : (xs.map classOf).eraseDups[j]? with
  | none =>
    rw [hc, Option.map_none, Option.map_eq_none_iff] at hj
    simp [hj]
  | some c =>
    rw [hc] at hj
    obtain ⟨part, hpart, hreverse⟩ := Option.map_eq_some_iff.mp hj
    by_cases hij : i = j
    · obtain rfl : classOf x = c :=
        Option.some.inj (((h.index _ _).mp hindex).symm.trans (hij ▸ hc))
      simp [hpart, hij, ← hreverse]
    · have hne : classOf x ≠ c := by
        rintro rfl
        exact hij (Option.some.inj (hindex.symm.trans ((h.index _ _).mpr hc)))
      simp [hpart, hij, hne, ← hreverse]

variable [LawfulBEq κ]

theorem notMem_of_index (h : p.Holds classOf xs) {x : α} (hindex : p.index[classOf x]? = none) :
    classOf x ∉ xs.map classOf := by
  intro hmem
  obtain ⟨i, hi⟩ := List.mem_iff_getElem?.mp (List.mem_eraseDups.mpr hmem)
  rw [(h.index _ _).mpr hi] at hindex
  cases hindex

/-- The position of a class that is met for the first time is the next one. -/
theorem index_insert (h : p.Holds classOf xs) {x : α} (hnew : classOf x ∉ xs.map classOf) (c : κ)
    (i : Nat) :
    (p.index.insert (classOf x) p.parts.size)[c]? = some i ↔
      ((xs.map classOf).eraseDups ++ [classOf x])[i]? = some c := by
  have hlength : p.parts.size = (xs.map classOf).eraseDups.length := by
    simpa using congrArg List.length h.parts
  have hnew' : classOf x ∉ (xs.map classOf).eraseDups := mt List.mem_eraseDups.mp hnew
  rw [Std.HashMap.getElem?_insert, hlength, List.getElem?_append]
  by_cases hc : classOf x = c
  · subst hc
    simp only [beq_self_eq_true, if_true, Option.some.injEq]
    split_ifs with hi
    · exact iff_of_false (by omega) fun hmem => hnew' (List.mem_of_getElem? hmem)
    · rw [List.getElem?_eq_some_iff]
      simp
      omega
  · simp only [beq_eq_false_iff_ne.mpr hc, Bool.false_eq_true, if_false, h.index]
    split_ifs with hi
    · rfl
    · refine iff_of_false (fun hmem => hi (List.getElem?_eq_some_iff.mp hmem).1) fun hlast => ?_
      exact hc (List.mem_singleton.mp (List.mem_of_getElem? hlast)).symm

/-- The part of a class that is met for the first time holds the new item alone. -/
theorem parts_push (h : p.Holds classOf xs) {x : α} (hnew : classOf x ∉ xs.map classOf) :
    (p.parts.push [x]).toList.map List.reverse =
      ((xs.map classOf).eraseDups ++ [classOf x]).map fun c =>
        (xs ++ [x]).filter fun y => classOf y = c := by
  have hold (c : κ) (hc : c ∈ (xs.map classOf).eraseDups) :
      xs.filter (fun y => classOf y = c) = (xs ++ [x]).filter fun y => classOf y = c := by
    have hne : classOf x ≠ c := by
      rintro rfl
      exact hnew (List.mem_eraseDups.mp hc)
    rw [filter_class_concat, if_neg hne, List.append_nil]
  have hnone : xs.filter (fun y => classOf y = classOf x) = [] := by
    rw [List.filter_eq_nil_iff]
    intro y hy heq
    exact hnew (of_decide_eq_true heq ▸ List.mem_map_of_mem hy)
  rw [Array.toList_push, List.map_append, h.parts, List.map_append, List.map_congr_left hold,
    List.map_singleton, List.map_singleton, filter_class_concat, hnone, if_pos rfl]
  rfl

theorem push (h : p.Holds classOf xs) (x : α) : (p.push classOf x).Holds classOf (xs ++ [x]) := by
  unfold Parts.push
  cases hindex : p.index[classOf x]? with
  | some i =>
    have hmem : classOf x ∈ xs.map classOf :=
      List.mem_eraseDups.mp (List.mem_of_getElem? ((h.index _ _).mp hindex))
    have hsame : ((xs ++ [x]).map classOf).eraseDups = (xs.map classOf).eraseDups := by
      rw [List.map_append, List.map_singleton, eraseDups_concat, if_pos hmem]
    exact ⟨hsame ▸ h.index, hsame ▸ h.parts_modify hindex⟩
  | none =>
    have hnew := h.notMem_of_index hindex
    have hmore : ((xs ++ [x]).map classOf).eraseDups =
        (xs.map classOf).eraseDups ++ [classOf x] := by
      rw [List.map_append, List.map_singleton, eraseDups_concat, if_neg hnew]
    exact ⟨hmore ▸ h.index_insert hnew, hmore ▸ h.parts_push hnew⟩

theorem foldl (h : p.Holds classOf xs) (ys : List α) :
    (ys.foldl (Parts.push classOf) p).Holds classOf (xs ++ ys) := by
  induction ys generalizing xs p with
  | nil => simpa using h
  | cons y ys ih =>
    rw [List.foldl_cons, List.append_cons]
    exact ih (h.push y)

end Parts.Holds

/-- The parts of a list are the items of each class, in the order in which the classes are met. -/
theorem partsBy_eq [LawfulBEq κ] (classOf : α → κ) (xs : List α) :
    partsBy classOf xs =
      (xs.map classOf).eraseDups.map fun c => xs.filter fun x => classOf x = c := by
  simpa only [partsBy, List.nil_append] using (Parts.holds_empty.foldl xs).parts

end Parts

/-! ## Classes -/

section Classes

variable {α τ κ : Type} [DecidableEq τ] [DecidableEq κ]

/-- Some lists are the classes of a list: of each item, those that agree with it in what
`propertyOf` says, in their order, and each class once. -/
structure AreClasses (propertyOf : α → τ) (xs : List α) (classes : List (List α)) : Prop where
  mem_iff : ∀ {ys}, ys ∈ classes ↔ ∃ x ∈ xs, ys = xs.filter fun y => propertyOf y = propertyOf x
  nodup : classes.Nodup

namespace AreClasses

variable {propertyOf : α → τ} {xs : List α} {classes : List (List α)}

/-- The items of a class are some of the list, there is a first one, and all agree. -/
theorem exists_head? (h : AreClasses propertyOf xs classes) {ys : List α} (hys : ys ∈ classes) :
    ∃ x, ys.head? = some x ∧ ∀ y ∈ ys, y ∈ xs ∧ propertyOf y = propertyOf x := by
  obtain ⟨x, hx, rfl⟩ := h.mem_iff.mp hys
  have hmem : x ∈ xs.filter fun y => propertyOf y = propertyOf x := by simpa using hx
  obtain ⟨z, zs, hzs⟩ := List.exists_cons_of_ne_nil (List.ne_nil_of_mem hmem)
  have hz : z ∈ xs.filter fun y => propertyOf y = propertyOf x := by
    rw [hzs]
    exact List.mem_cons_self
  refine ⟨z, by rw [hzs]; rfl, fun y hy => ?_⟩
  simp only [List.mem_filter, decide_eq_true_eq] at hz hy
  exact ⟨hy.1, hy.2.trans hz.2.symm⟩

/-- A class is that of each of its items, -/
theorem eq_filter (h : AreClasses propertyOf xs classes) {ys : List α} (hys : ys ∈ classes) {y : α}
    (hy : y ∈ ys) : ys = xs.filter fun z => propertyOf z = propertyOf y := by
  obtain ⟨x, -, rfl⟩ := h.mem_iff.mp hys
  have hsame : propertyOf y = propertyOf x := by simpa using (List.mem_filter.mp hy).2
  rw [hsame]

/-- so classes are one if items of them agree. -/
theorem eq_of_mem (h : AreClasses propertyOf xs classes) {ys zs : List α} (hys : ys ∈ classes)
    (hzs : zs ∈ classes) {y z : α} (hy : y ∈ ys) (hz : z ∈ zs)
    (hsame : propertyOf y = propertyOf z) : ys = zs := by
  rw [h.eq_filter hys hy, h.eq_filter hzs hz, hsame]

/-- Of what is said of the items only matters of which it is said alike. -/
theorem congr (h : AreClasses propertyOf xs classes) {other : α → κ}
    (hother : ∀ x ∈ xs, ∀ y ∈ xs, propertyOf x = propertyOf y ↔ other x = other y) :
    AreClasses other xs classes := by
  refine ⟨fun {ys} => ?_, h.nodup⟩
  rw [h.mem_iff]
  refine exists_congr fun x => and_congr_right fun hx => ?_
  rw [List.filter_congr fun y hy => decide_eq_decide.mpr (hother y hy x hx)]

theorem partsBy [BEq κ] [LawfulBEq κ] [Hashable κ] (classOf : α → κ) (xs : List α) :
    AreClasses classOf xs (partsBy classOf xs) := by
  rw [partsBy_eq]
  refine ⟨fun {ys} => ?_, (nodup_eraseDups _).map_on fun c hc c' _ heq => ?_⟩
  · simp only [List.mem_map, List.mem_eraseDups]
    constructor
    · rintro ⟨_, ⟨x, hx, rfl⟩, rfl⟩
      exact ⟨x, hx, rfl⟩
    · rintro ⟨x, hx, rfl⟩
      exact ⟨_, ⟨x, hx, rfl⟩, rfl⟩
  · obtain ⟨x, hx, rfl⟩ := List.mem_map.mp (List.mem_eraseDups.mp hc)
    have hmem : x ∈ xs.filter fun y => classOf y = classOf x := by simpa using hx
    rw [heq] at hmem
    simpa using (List.mem_filter.mp hmem).2

/-- The classes of each class are the classes of those that agree in one thing more. -/
theorem flatMap_partsBy [BEq κ] [LawfulBEq κ] [Hashable κ] (h : AreClasses propertyOf xs classes)
    (classOf : α → κ) :
    AreClasses (fun x => (propertyOf x, classOf x)) xs
      (classes.flatMap (CampusQuery.partsBy classOf)) := by
  refine ⟨fun {ys} => ?_, ?_⟩
  · rw [List.mem_flatMap]
    constructor
    · rintro ⟨zs, hzs, hys⟩
      obtain ⟨x, hx, rfl⟩ := h.mem_iff.mp hzs
      obtain ⟨y, hy, rfl⟩ := (AreClasses.partsBy classOf _).mem_iff.mp hys
      simp only [List.mem_filter, decide_eq_true_eq] at hy
      refine ⟨y, hy.1, ?_⟩
      rw [List.filter_filter]
      refine List.filter_congr fun z _ => ?_
      simp only [Prod.mk.injEq, Bool.decide_and, hy.2]
      exact Bool.and_comm _ _
    · rintro ⟨x, hx, rfl⟩
      refine ⟨_, h.mem_iff.mpr ⟨x, hx, rfl⟩, (AreClasses.partsBy classOf _).mem_iff.mpr ⟨x, ?_, ?_⟩⟩
      · simpa using hx
      · rw [List.filter_filter]
        refine List.filter_congr fun z _ => ?_
        simp only [Prod.mk.injEq, Bool.decide_and]
        exact Bool.and_comm _ _
  · rw [List.nodup_flatMap]
    refine ⟨fun ys _ => (AreClasses.partsBy classOf ys).nodup, h.nodup.imp_of_mem ?_⟩
    intro ys zs hys hzs hne part hpart hpart'
    -- a part of two classes would have an item of both
    obtain ⟨x, hx, hitems⟩ := (AreClasses.partsBy classOf ys).exists_head? hpart
    have hmem := List.mem_of_head? hx
    obtain ⟨x', -, hitems'⟩ := (AreClasses.partsBy classOf zs).exists_head? hpart'
    exact hne (h.eq_of_mem hys hzs (hitems x hmem).1 (hitems' x hmem).1 rfl)

/-- The classes are those of the things said of the items, each thing taken once. -/
theorem exists_said (h : AreClasses propertyOf xs classes) :
    ∃ said : List τ, said.Nodup ∧ (∀ t, t ∈ said ↔ t ∈ xs.map propertyOf) ∧
      classes = said.map fun t => xs.filter fun y => propertyOf y = t := by
  obtain ⟨ts, hts⟩ : classes ∈ Set.range (List.map fun t : { t // t ∈ xs.map propertyOf } =>
      xs.filter fun y => propertyOf y = t.1) := by
    rw [Set.range_list_map]
    intro ys hys
    obtain ⟨x, hx, rfl⟩ := h.mem_iff.mp hys
    exact ⟨⟨propertyOf x, List.mem_map_of_mem hx⟩, rfl⟩
  have hclasses : classes =
      (ts.map Subtype.val).map fun t => xs.filter fun y => propertyOf y = t := by
    rw [← hts, List.map_map]
    rfl
  refine ⟨ts.map Subtype.val, (hclasses ▸ h.nodup).of_map _, fun t => ⟨fun ht => ?_, fun ht => ?_⟩,
    hclasses⟩
  · obtain ⟨t, -, rfl⟩ := List.mem_map.mp ht
    exact t.2
  · obtain ⟨x, hx, rfl⟩ := List.mem_map.mp ht
    have hclass := h.mem_iff.mpr ⟨x, hx, rfl⟩
    rw [hclasses] at hclass
    obtain ⟨t, ht, heq⟩ := List.mem_map.mp hclass
    -- the item is in its class, which is that of something said
    have hmem : x ∈ xs.filter fun y => propertyOf y = propertyOf x := by simpa using hx
    rw [← heq] at hmem
    have hsame : propertyOf x = t := by simpa using (List.mem_filter.mp hmem).2
    exact hsame ▸ ht

/-- There are as many classes as there are different things said of the items. -/
theorem length_eq (h : AreClasses propertyOf xs classes) :
    classes.length = (xs.map propertyOf).toFinset.card := by
  obtain ⟨said, hnodup, hmem, rfl⟩ := h.exists_said
  have hsaid : said.toFinset = (xs.map propertyOf).toFinset := by
    ext t
    rw [List.mem_toFinset, List.mem_toFinset, hmem]
  rw [List.length_map, ← List.toFinset_card_of_nodup hnodup, hsaid]

end AreClasses

end Classes

/-! ## Groups -/

section Groups

variable (rows : Array Record)

/-- What the row at a place says under some keys. -/
def tupleAt (keys : List FieldKey) (place : Nat) : List (Option (Int ⊕ String)) :=
  keys.map fun k => (valueAt rows k.field place).map Value.denoted

theorem areClasses_foldl {keys met : List FieldKey} {places : List Nat} {groups : List (List Nat)}
    (h : AreClasses (tupleAt rows met) places groups) :
    AreClasses (tupleAt rows (met ++ keys)) places
      (keys.foldl (fun groups key => groups.flatMap (partsBy (classAt rows key.field)))
        groups) := by
  -- on the keys to come: the groups are the classes for the keys met, and one key more splits each
  induction keys generalizing met groups with
  | nil => simpa using h
  | cons key keys ih =>
    rw [List.foldl_cons, List.append_cons]
    refine ih ((h.flatMap_partsBy (classAt rows key.field)).congr fun x _ y _ => ?_)
    simp [tupleAt, classAt, map_unsignedZero_eq_iff]

/-- The groups of the rows at some places are the classes of those that say the same under all
keys. -/
theorem areClasses_partition (keys : List FieldKey) (places : List Nat) :
    AreClasses (tupleAt rows keys) places (partition rows keys places) := by
  have hstart : AreClasses (tupleAt rows []) places (if places.isEmpty then [] else [places]) := by
    cases places with
    | nil => exact ⟨by simp, by simp⟩
    | cons place places => exact ⟨by simp [tupleAt], by simp⟩
  exact areClasses_foldl rows hstart

theorem head?_of_mem_partition {keys : List FieldKey} {places group : List Nat}
    (h : group ∈ partition rows keys places) : group.head? = some (group.headD 0) := by
  obtain ⟨first, hfirst, -⟩ := (areClasses_partition rows keys places).exists_head? h
  rw [List.headD_eq_head?_getD, hfirst, Option.getD_some]

end Groups

end CampusQuery
