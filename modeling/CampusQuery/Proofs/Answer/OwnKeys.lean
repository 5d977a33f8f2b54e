import Mathlib
import CampusQuery.Proofs.Answer.Permutation
import CampusQuery.Proofs.Number.Closest
import CampusQuery.Proofs.Query.WellFormed
import CampusQuery.Proofs.Registry.Archive

/-!
# Datasets by their own keys

A key of a dataset is its id, an underscore and a name. Since no id has an underscore the key is
split there again, so it leads to no other dataset; and a query for the key of a field shows what
the rows of the dataset were given for it.

* `Registry.OwnsKeys` — the keys of a dataset lead to it, and no others do.
* `Json.ShownAs` — how an answer shows a value that a row was given.
* `ShowsColumn` — what is to become of a query for one column of all rows, and
  `Registry.showsColumn_query`, that it does.
-/

namespace CampusQuery

/-! ## Keys -/

/-- The key of a dataset with a name. -/
def keyOf (id name : String) : String :=
  id ++ separator.toString ++ name

theorem Dataset.ne_empty_of_valid {id : String} (h : isValidId id = true) : id ≠ "" := by
  rintro rfl
  exact absurd h (by decide)

theorem splitKey_keyOf {id : String} (h : Dataset.isValidId id = true) (name : String) :
    splitKey (keyOf id name) = some (id, name) :=
  splitKey_eq_some_iff.mpr
    ⟨rfl, Dataset.ne_empty_of_valid h, (Dataset.isValidId_iff.mp h).2⟩

namespace Registry

variable {r : Registry} {d : Dataset}

/-- The keys of a dataset lead to it, from wherever they are resolved, and a query that is read is
about the dataset just if its keys are keys of it. -/
structure OwnsKeys (r : Registry) (d : Dataset) : Prop where
  split : ∀ name, splitKey (keyOf d.id name) = some (d.id, name)
  resolved : ∀ name t k t', (Target.resolve r.kindOf (keyOf d.id name)).runAt t = (.ok k, t') →
    (t.dataset = none ∨ t.dataset = some d.id) ∧ t'.dataset = some d.id ∧ k.field.label = name
  found : ∀ raw p, Plan.ofJson r.kindOf raw = .ok p → ∀ k ∈ p.keys,
    (r.find p = .ok d ↔ ∃ name, k.key = keyOf d.id name)

theorem id_of_get? {id : String} (h : r.get? id = some d) : d.id = id := by
  simpa using List.find?_some h

theorem find_eq_ok_iff {p : Plan} :
    r.find p = .ok d ↔ r.get? p.dataset = some d ∧ d.kind = p.kind := by
  unfold find
  cases r.get? p.dataset with
  | none => simp
  | some d' =>
    by_cases hkind : d'.kind = p.kind
    · simp only [if_pos hkind, Except.ok.injEq, Option.some.injEq]
      exact ⟨fun h => ⟨h, h ▸ hkind⟩, fun h => h.1⟩
    · simp only [if_neg hkind, reduceCtorEq, Option.some.injEq, false_iff, not_and]
      exact fun h => h ▸ hkind

theorem ownsKeys (hvalid : Dataset.isValidId d.id = true) (hd : r.get? d.id = some d) :
    r.OwnsKeys d where
  split := splitKey_keyOf hvalid
  resolved name t k t' h := by
    obtain ⟨id, hne, hseparator, hkey, rfl, ht⟩ := Check.runAt_resolve_eq_ok_iff.mp h
    have hsplit := splitKey_eq_some_iff.mpr ⟨hkey.written, hne, hseparator⟩
    rw [splitKey_keyOf hvalid] at hsplit
    obtain ⟨rfl, rfl⟩ := Prod.mk.inj (Option.some.inj hsplit)
    exact ⟨ht.imp And.left And.left, rfl, rfl⟩
  found raw p h k hk := by
    obtain ⟨hadmits, hmeans⟩ := ofJson_eq_ok_iff.mp h
    have hwritten := (hmeans.isOf_of_mem_keys hk).written
    constructor
    · intro hfind
      rw [id_of_get? (find_eq_ok_iff.mp hfind).1]
      exact ⟨_, hwritten⟩
    · rintro ⟨name, hname⟩
      have hsplit := splitKey_eq_some_iff.mpr
        ⟨hwritten, hadmits.nonempty, hadmits.unseparated⟩
      rw [hname, splitKey_keyOf hvalid] at hsplit
      have hid : d.id = p.dataset := (Prod.mk.inj (Option.some.inj hsplit)).1
      rw [hid] at hd
      exact find_eq_ok_iff.mpr ⟨hd, kind_of_ofJson h hd⟩

end Registry

/-! ## Values -/

/-- How an answer shows a value that a row was given: a text as it is, and a number as the number of
the format that is closest to it. -/
inductive Json.ShownAs : Json → Json → Prop
  | text (s : String) : ShownAs (.string s) (.string s)
  | number {n m : JsonNumber} : m.IsClosestTo n → ShownAs (.number n) (.number m)

theorem Value.shownAs_of_ofJson {type : FieldType} {given : Json}
    {x : { x : Value // x.type = type }} (h : Value.ofJson type given = .ok x) :
    given.ShownAs x.1.shown := by
  cases type <;> cases given <;> cases h
  · exact .number (JsonNumber.isClosestTo_rounded _)
  · exact .text _

/-! ## One column of all rows -/

/-- A query for one column of all rows. -/
def columnQuery (key : String) : Json :=
  .object [("WHERE", .object []), ("OPTIONS", .object [("COLUMNS", .array [.string key])])]

/-- What becomes of a query for the key of a field of all rows of a dataset: they are shown in
order, each with what it was given for the field, unless there are more than the limit. -/
structure ShowsColumn (limit : Nat) (kind : Kind) (f : Field) (key : String) (rows : List Json)
    (result : Except QueryError Answer) : Prop where
  tooLarge : ∀ n m, result = .error (.resultTooLarge n m) ↔
    n = rows.length ∧ m = limit ∧ limit < rows.length
  answered : rows.length ≤ limit → ∃ shown, result = .ok ⟨shown, rows.length, rows.length⟩ ∧
    List.Forall₂ (fun row entries => ∃ given v, row.given? kind f = some given ∧ given.ShownAs v ∧
      entries = [(key, v)]) rows shown

theorem ofJson_columnQuery {known : String → Option Kind} {id : String} {f : Field}
    (h : Admits known id f.kind) :
    Plan.ofJson known (columnQuery (keyOf id f.label)) =
      .ok ⟨id, f.kind, .all, none, [.field ⟨keyOf id f.label, f⟩], none⟩ := by
  refine ofJson_eq_ok_iff.mpr ⟨h, _, _, _, rfl, by simp, rfl, rfl, .inl ⟨rfl, rfl⟩, .none, ?_⟩
  refine ⟨_, [keyOf id f.label], rfl, by simp, rfl, by simp, .cons ?_ .nil, .none⟩
  exact ⟨_, ⟨rfl, rfl, rfl⟩, rfl⟩

namespace Registry

variable {r : Registry} {id : String} {d : Dataset} {limit : Nat} {f : Field}

theorem query_columnQuery [Collator] [Converter] (limit : Nat)
    (hvalid : Dataset.isValidId id = true) (hd : r.get? id = some d) (hf : f.kind = d.kind) :
    (r.query limit (columnQuery (keyOf id f.label))).result =
      if limit < d.rows.size then .error (.resultTooLarge d.rows.size limit)
      else .ok ⟨d.rows.toList.map fun row => [(keyOf id f.label, Grouping.shown (row.get? f))],
        d.rows.size, d.rows.size⟩ := by
  have hadmits : Admits r.kindOf id f.kind :=
    ⟨Dataset.ne_empty_of_valid hvalid, (Dataset.isValidId_iff.mp hvalid).2,
      .inr (kindOf_eq_some_iff.mpr ⟨d, hd, hf.symm⟩)⟩
  rw [query_of_present (ofJson_columnQuery hadmits) hd]
  generalize hp : (⟨id, f.kind, .all, none, [.field ⟨keyOf id f.label, f⟩], none⟩ : Plan) = p
  have hchosen : p.chosen d.rows = d.rows.toList := by
    subst hp
    simp [Plan.chosen, Filter.Satisfies]
  have hexpected : p.expected d.rows = d.rows.size := by
    rw [← Array.length_toList, ← hchosen]
    subst hp
    rfl
  split_ifs with hlimit
  · rw [Plan.outcome_of_lt (by rwa [hexpected]), hexpected]
  · rw [Plan.outcome_of_le (by rw [hexpected]; omega), hchosen, Array.length_toList]
    have hplaces := @Plan.map_getElem?_matched p d.rows
    rw [hchosen] at hplaces
    have hshown := map_eq_map_of_map_some
      (fun _ _ hrow => Row.ofPlace_eq_ofRecord hrow p.columns) hplaces
    subst hp
    exact congrArg (fun rows => Except.ok (⟨rows, _, _⟩ : Answer)) hshown

/-- The rows of a dataset show what they were given. -/
theorem showsColumn_query [Collator] [Converter] (hvalid : Dataset.isValidId id = true)
    (hd : r.get? id = some d)
    {rows : List Json} (hrows : rows.mapM (Record.ofJson d.kind) = .ok d.rows.toList)
    (hf : f.kind = d.kind) :
    ShowsColumn limit d.kind f (keyOf id f.label) rows
      (r.query limit (columnQuery (keyOf id f.label))).result := by
  have hforall := Archive.mapM_eq_ok_iff.mp hrows
  have hlength : d.rows.size = rows.length := by
    rw [← Array.length_toList]
    exact hforall.length_eq.symm
  rw [query_columnQuery limit hvalid hd hf, hlength]
  constructor
  · intro n m
    split_ifs with hlimit
    · simp [hlimit, eq_comm]
    · simp [hlimit]
  · intro hle
    rw [if_neg (by omega)]
    refine ⟨_, rfl, List.forall₂_map_right_iff.mpr (hforall.imp fun row record hrow => ?_)⟩
    obtain ⟨given, x, hgiven, hx, hget⟩ := Record.exists_given?_of_ofJson hrow hf
    exact ⟨given, x.1.shown, hgiven, Value.shownAs_of_ofJson hx, by rw [hget]; rfl⟩

end Registry

end CampusQuery
