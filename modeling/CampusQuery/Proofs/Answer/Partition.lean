import Mathlib
import CampusQuery.Proofs.Answer.Columns
import CampusQuery.Proofs.Number.Whole

/-!
# Groups share out the rows

`partition` takes the places of some rows, in whatever order and as often as they are given, and
shares them out: every place given goes to one group, no group is empty, and two places are in one
group just when their rows say the same under all keys. So there is one row of an answer for each
tuple of values, and as long as names do not clash no two of these rows show the same values.

* `AgreeOn` — rows that say the same under a key.
* `SharesOut` — some lists are made of the items of a list, those that agree in one.
* `AreClasses.sharesOut` — the classes of a list share it out.
* `Grouping.NamesApart` — the keys of a grouping and its rules have names of their own, which is so
  for every grouping that has been read.
* `Grouping.sharesOut_partition` — groups, and the rows that are made of them.
-/

namespace CampusQuery

/-! ## Sharing out a list -/

section SharesOut

variable {α τ : Type} [DecidableEq τ] {propertyOf : α → τ} {xs : List α} {classes : List (List α)}

/-- Some lists are made of the items of a list: each position of the list is of one of them, which
holds the items at its positions in their order, and two positions are of one just when their items
agree. -/
structure SharesOut (agree : α → α → Prop) (xs : List α) (groups : List (List α)) : Prop where
  ne_nil : ∀ group ∈ groups, group ≠ []
  sublist : ∀ group ∈ groups, group.Sublist xs
  perm : groups.flatten.Perm xs
  positions : ∃ home : Fin xs.length → Fin groups.length,
    (∀ i : Fin groups.length,
      groups[i] = ((List.finRange xs.length).filter fun j => home j = i).map xs.get) ∧
    ∀ j j' : Fin xs.length, home j = home j' ↔ agree xs[j] xs[j']

/-- The items of each of some classes make up the items of all of them. -/
theorem flatMap_filter_perm (propertyOf : α → τ) (xs : List α) {said : List τ} (h : said.Nodup) :
    (said.flatMap fun t => xs.filter fun x => propertyOf x = t).Perm
      (xs.filter fun x => propertyOf x ∈ said) := by
  induction said with
  | nil => simp
  | cons t said ih =>
    obtain ⟨hnew, hsaid⟩ := List.nodup_cons.mp h
    have hsplit := List.filter_append_perm (fun x => decide (propertyOf x = t))
      (xs.filter fun x => propertyOf x ∈ t :: said)
    have hclass : (xs.filter fun x => propertyOf x ∈ t :: said).filter
        (fun x => propertyOf x = t) = xs.filter fun x => propertyOf x = t := by
      rw [List.filter_filter]
      refine List.filter_congr fun x _ => ?_
      by_cases hx : propertyOf x = t <;> simp [hx]
    have hrest : (xs.filter fun x => propertyOf x ∈ t :: said).filter
        (fun x => !decide (propertyOf x = t)) = xs.filter fun x => propertyOf x ∈ said := by
      rw [List.filter_filter]
      refine List.filter_congr fun x _ => ?_
      by_cases hx : propertyOf x = t <;> simp [hx, hnew]
    rw [hclass, hrest] at hsplit
    rw [List.flatMap_cons]
    exact ((ih hsaid).append_left _).trans hsplit

/-- A selection by what an item is, as a selection of positions. -/
theorem filter_eq_map_get (xs : List α) (p : α → Bool) :
    xs.filter p = ((List.finRange xs.length).filter fun j => p xs[j]).map xs.get := by
  conv_lhs => rw [← List.map_get_finRange xs]
  exact List.filter_map

namespace AreClasses

/-- The classes of a list share it out. -/
theorem sharesOut (h : AreClasses propertyOf xs classes) :
    SharesOut (fun x y => propertyOf x = propertyOf y) xs classes := by
  obtain ⟨said, hnodup, hmem, rfl⟩ := h.exists_said
  have hsaid (j : Fin xs.length) : propertyOf xs[j] ∈ said :=
    (hmem _).mpr (List.mem_map_of_mem (List.getElem_mem _))
  refine ⟨fun group hgroup => ?_, fun group hgroup => ?_, ?_, ?_⟩
  · obtain ⟨x, hx, -⟩ := h.exists_head? hgroup
    exact List.ne_nil_of_mem (List.mem_of_head? hx)
  · obtain ⟨t, -, rfl⟩ := List.mem_map.mp hgroup
    exact List.filter_sublist
  · have hall : xs.filter (fun x => propertyOf x ∈ said) = xs := by
      rw [List.filter_eq_self]
      exact fun x hx => decide_eq_true ((hmem _).mpr (List.mem_map_of_mem hx))
    exact (flatMap_filter_perm propertyOf xs hnodup).trans (.of_eq hall)
  · -- the home of a position is where what its item says stands among all that is said
    refine ⟨fun j => ⟨said.idxOf (propertyOf xs[j]), ?_⟩, fun i => ?_, fun j j' => ?_⟩
    · rw [List.length_map]
      exact List.idxOf_lt_length_of_mem (hsaid j)
    · have hi : i.1 < said.length := by simpa using i.2
      have hclass : (said.map fun t => xs.filter fun x => propertyOf x = t)[i] =
          xs.filter fun x => propertyOf x = said[i.1] := List.getElem_map _
      rw [hclass, filter_eq_map_get]
      refine congrArg (List.map xs.get) (List.filter_congr fun j _ => ?_)
      rw [decide_eq_decide, Fin.ext_iff]
      constructor
      · intro hj
        show said.idxOf (propertyOf xs[j]) = i
        rw [hj, hnodup.idxOf_getElem]
      · rintro hj
        simp only [← hj, List.getElem_idxOf]
    · rw [Fin.ext_iff]
      exact List.idxOf_inj (hsaid j)

theorem perm_of_iff {κ : Type} [DecidableEq κ] {other : α → κ} {classes' : List (List α)}
    (h : AreClasses propertyOf xs classes) (h' : AreClasses other xs classes')
    (hsame : ∀ x ∈ xs, ∀ y ∈ xs, propertyOf x = propertyOf y ↔ other x = other y) :
    classes.Perm classes' := by
  rw [List.perm_ext_iff_of_nodup h.nodup h'.nodup]
  intro ys
  rw [(h.congr hsame).mem_iff, h'.mem_iff]

end AreClasses

end SharesOut

/-! ## Rows that agree -/

section Agree

variable (rows : Array Record)

/-- Whether the rows at two places say the same under a key: the same number, of which zeros of
either sign are one, the same text, or both nothing. -/
def AgreeOn (k : FieldKey) (x y : Nat) : Prop :=
  (valueAt rows k.field x).map Value.denoted = (valueAt rows k.field y).map Value.denoted

instance (k : FieldKey) (x y : Nat) : Decidable (AgreeOn rows k x y) :=
  inferInstanceAs (Decidable (_ = _))

variable {rows} {keys : List FieldKey} {x y : Nat}

theorem tupleAt_eq_iff :
    tupleAt rows keys x = tupleAt rows keys y ↔ ∀ k ∈ keys, AgreeOn rows k x y :=
  List.map_inj_left

/-- Keys of the same fields, in whatever order and however often, make the same groups. -/
theorem partition_perm_of_fields {keys' : List FieldKey}
    (h : ∀ f, f ∈ keys.map FieldKey.field ↔ f ∈ keys'.map FieldKey.field) (places : List Nat) :
    (partition rows keys places).Perm (partition rows keys' places) := by
  have hof (keys : List FieldKey) (x y : Nat) : (∀ k ∈ keys, AgreeOn rows k x y) ↔
      ∀ f ∈ keys.map FieldKey.field,
        (valueAt rows f x).map Value.denoted = (valueAt rows f y).map Value.denoted := by
    rw [List.forall_mem_map]
    rfl
  refine (areClasses_partition rows keys places).perm_of_iff
    (areClasses_partition rows keys' places) fun x _ y _ => ?_
  rw [tupleAt_eq_iff, tupleAt_eq_iff, hof, hof]
  exact forall_congr' fun f => imp_congr_left (h f)

end Agree

/-! ## The rows of an answer -/

/-- Numbers that are shown alike are equal in value. -/
theorem Json.value_eq_of_ofNumber? {x y : Binary64}
    (h : ofNumber? (some x) = ofNumber? (some y)) : x.value = y.value := by
  have hnumber : JsonNumber.ofBinary64 x = JsonNumber.ofBinary64 y := Json.number.inj h
  rw [← JsonNumber.value_ofBinary64 x, hnumber, JsonNumber.value_ofBinary64]

/-- Keys of one name are of one field, and no rule has the name of a key. -/
structure Grouping.NamesApart (g : Grouping) : Prop where
  keys : ∀ k ∈ g.keys, ∀ k' ∈ g.keys, k.key = k'.key → k.field = k'.field
  rules : ∀ r ∈ g.rules, ∀ k ∈ g.keys, r.name ≠ k.key

theorem Plan.Resolved.namesApart {p : Plan} (h : p.Resolved) {g : Grouping}
    (hg : g ∈ p.grouping) : g.NamesApart where
  keys k hk k' hk' heq := (h.keys g hg k hk).unique (heq ▸ h.keys g hg k' hk')
  rules r hr k hk heq := h.unseparated g hg r hr (heq ▸ (h.keys g hg k hk).separator_mem)

namespace Grouping

/-- Values that are shown alike say the same. -/
theorem shown_inj {x y : Option Value} (h : shown x = shown y) :
    x.map Value.denoted = y.map Value.denoted := by
  rcases x with - | x | s
  · rcases y with - | y | t
    · rfl
    · cases h
    · cases h
  · rcases y with - | y | t
    · cases h
    · exact congrArg (some ∘ Sum.inl) (Json.value_eq_of_ofNumber? h)
    · cases h
  · rcases y with - | y | t
    · cases h
    · cases h
    · exact congrArg (some ∘ Sum.inr) (Json.string.inj h)

variable {g : Grouping} {rows : Array Record} {places : List Nat}

/-- Under the name of a key a group shows the value of its first row. -/
theorem lookup_summary [Converter] (hnames : g.NamesApart) {first : Nat} {group : List Nat}
    (hfirst : group.head? = some first) {k : FieldKey} (hk : k ∈ g.keys) :
    (g.summary rows group).lookup k.key = some (shown (valueAt rows k.field first)) := by
  rw [g.summary_eq rows hfirst]
  refine Json.lookup_insertAll ?_ fun entry hentry hname => ?_
  · rw [keys_entries]
    exact List.mem_append_left _ (List.mem_map_of_mem hk)
  -- the value is that of a key or a rule of this name, and there is no such rule
  · rcases List.mem_append.mp hentry with hentry | hentry
    · obtain ⟨k', hk', rfl⟩ := List.mem_map.mp hentry
      rw [hnames.keys k' hk' k hk hname]
    · obtain ⟨r, hr, rfl⟩ := List.mem_map.mp hentry
      exact absurd hname (hnames.rules r hr k hk)

/-- Groups that show the same under all keys are of rows that agree. -/
theorem agree_of_lookup_summary [Converter] (hnames : g.NamesApart) {x y : Nat}
    {group group' : List Nat} (hx : group.head? = some x) (hy : group'.head? = some y)
    (h : ∀ k ∈ g.keys, (g.summary rows group).lookup k.key = (g.summary rows group').lookup k.key) :
    ∀ k ∈ g.keys, AgreeOn rows k x y := by
  intro k hk
  have hshown := h k hk
  rw [lookup_summary hnames hx hk, lookup_summary hnames hy hk] at hshown
  exact shown_inj (Option.some.inj hshown)

/-- No two groups show the same under all keys. -/
theorem pairwise_summaries [Converter] (hnames : g.NamesApart) :
    (g.summaries rows places).Pairwise fun row row' =>
      ∃ k ∈ g.keys, row.lookup k.key ≠ row'.lookup k.key := by
  have hclasses := areClasses_partition rows g.keys places
  rw [summaries, List.pairwise_map]
  refine hclasses.nodup.imp_of_mem fun {group group'} hgroup hgroup' hne => ?_
  by_contra! hsame
  obtain ⟨x, hx, -⟩ := hclasses.exists_head? hgroup
  obtain ⟨y, hy, -⟩ := hclasses.exists_head? hgroup'
  have hagree := tupleAt_eq_iff.mpr (agree_of_lookup_summary hnames hx hy hsame)
  exact hne (hclasses.eq_of_mem hgroup hgroup' (List.mem_of_head? hx) (List.mem_of_head? hy) hagree)

/-- The places given are shared out among the groups, two to one group just when their rows say the
same under all keys. An answer has one row for each tuple of values that the rows have under the
keys, made of the places with that tuple; where names do not clash, as they never do in a query that
has been read, any two of these rows differ under a key. Neither the order of the keys nor a key
given again makes other groups. -/
theorem sharesOut_partition [Converter] (g : Grouping) (rows : Array Record) (places : List Nat) :
    SharesOut (fun x y => ∀ k ∈ g.keys, AgreeOn rows k x y) places
      (partition rows g.keys places) ∧
    (∃ tuples : List (List (Option (Int ⊕ String))), tuples.Nodup ∧
      (∀ t, t ∈ tuples ↔ t ∈ places.map (tupleAt rows g.keys)) ∧
      g.summaries rows places = tuples.map fun t =>
        g.summary rows (places.filter fun place => tupleAt rows g.keys place = t)) ∧
    (g.NamesApart → (g.summaries rows places).Pairwise fun row row' =>
      ∃ k ∈ g.keys, row.lookup k.key ≠ row'.lookup k.key) ∧
    (∀ known raw p, Plan.ofJson known raw = .ok p → p.grouping = some g → g.NamesApart) ∧
    ∀ keys : List FieldKey,
      (∀ f, f ∈ keys.map FieldKey.field ↔ f ∈ g.keys.map FieldKey.field) →
      (partition rows keys places).Perm (partition rows g.keys places) := by
  have hclasses := areClasses_partition rows g.keys places
  refine ⟨?_, ?_, pairwise_summaries, fun known raw p hread hg => ?_, fun keys hfields => ?_⟩
  · simpa only [tupleAt_eq_iff] using hclasses.sharesOut
  · obtain ⟨tuples, hnodup, hmem, hgroups⟩ := hclasses.exists_said
    refine ⟨tuples, hnodup, hmem, ?_⟩
    rw [summaries, hgroups, List.map_map]
    rfl
  · exact (ofJson_eq_ok_iff.mp hread).2.resolved.namesApart hg
  · exact partition_perm_of_fields hfields places

/-- A section of a department, with its number and its average. -/
def numberedSection (department number : String) (average : Binary64) : Record :=
  ⟨.courses, [.text department, .text number, .text "", .text "", .text "", .number average,
    .number .zero, .number .zero, .number .zero, .number .zero], rfl⟩

/-- Zeros of either sign are in one group, in which a place given twice stands twice. -/
theorem sharesOut_partition_zeros :
    let rows := #[numberedSection "cs" "310" .zero, numberedSection "ee" "210" .zero,
      numberedSection "cs" "320" Binary64.zero.neg]
    let dept : FieldKey := ⟨"a_dept", .dept⟩
    let avg : FieldKey := ⟨"a_avg", .avg⟩
    let g : Grouping := ⟨[dept, avg], []⟩
    partition rows g.keys [2, 1, 0, 2] = [[2, 0, 2], [1]] ∧ g.NamesApart ∧
      ((g.summaries rows [2, 1, 0, 2]).Pairwise fun row row' =>
        ∃ k ∈ g.keys, row.lookup k.key ≠ row'.lookup k.key) ∧
      (∀ f, f ∈ [avg, dept, avg].map FieldKey.field ↔ f ∈ g.keys.map FieldKey.field) ∧
      (partition rows [avg, dept, avg] [2, 1, 0, 2]).Perm (partition rows g.keys [2, 1, 0, 2]) := by
  intro rows dept avg g
  have hnames : g.NamesApart := ⟨by decide, by decide⟩
  have hfields : ∀ f, f ∈ [avg, dept, avg].map FieldKey.field ↔ f ∈ g.keys.map FieldKey.field := by
    intro f
    cases f <;> decide
  obtain ⟨-, -, hrows, -, hkeys⟩ := sharesOut_partition g rows [2, 1, 0, 2]
  refine ⟨?_, hnames, hrows hnames, hfields, hkeys _ hfields⟩
  simp only [partition, g, List.foldl, funext (partsBy_eq _)]
  decide +kernel

end Grouping

end CampusQuery
