import Mathlib
import CampusQuery.Catalog.Record

/-!
# Rows as they are given and as files hold them

A row is read back from the object that files hold of it. A row that was given in whatever form has
in each field the value that it was given for it.

* `Record.lookup_entries` — the entry of a field is its value.
* `Record.kind_of_ofJson` — a row that is read is of the kind it was read as.
* `Record.ofJson_toJson` — a row is read back.
* `Json.given?` — what a row is given for a field, and `Record.exists_given?_of_ofJson`, that it
  has just that in the field when it is read.
-/

namespace CampusQuery

theorem Value.ofJson_stored {x : Value} {type : FieldType} (h : x.type = type) :
    Value.ofJson type x.stored = .ok ⟨x, h⟩ := by
  subst h
  cases x <;> rfl

theorem Kind.nodup_columns (kind : Kind) : kind.columns.Nodup := by
  cases kind <;> decide

namespace Record

theorem kind_of_ofJson {kind : Kind} {v : Json} {r : Record} (h : Record.ofJson kind v = .ok r) :
    r.kind = kind := by
  unfold Record.ofJson at h
  cases v with
  | object entries =>
    simp only [bind, Except.bind, pure, Except.pure] at h
    split at h
    · cases h
    · split at h <;> cases h
      rfl
  | array items =>
    simp only [bind, Except.bind, pure, Except.pure] at h
    split at h
    · cases h
    · split at h <;> cases h
      rfl
  | null | boolean | number | string => cases h

/-! ## Entries -/

/-- The entries of the object that files hold of a row. -/
def storedEntries (r : Record) : List (String × Json) :=
  r.entries.map fun (name, x) => (name, x.stored)

theorem length_values (r : Record) : r.values.length = r.kind.columns.length := by
  have := congrArg List.length r.typed
  simpa using this

theorem keys_storedEntries (r : Record) :
    r.storedEntries.map Prod.fst = r.kind.columns.map Field.label := by
  have hfst : r.storedEntries.map Prod.fst = r.entries.map Prod.fst := by
    simp [storedEntries, Function.comp_def]
  rw [hfst, entries]
  exact List.map_fst_zip (by rw [List.length_map, length_values])

theorem nodup_keys_storedEntries (r : Record) : (r.storedEntries.map Prod.fst).Nodup := by
  rw [keys_storedEntries]
  exact (Kind.nodup_columns r.kind).map fun _ _ => Field.label_inj

theorem lookup_stored (fields : List Field) (xs : List Value) (f : Field) :
    (((fields.map Field.label).zip xs).map fun (name, x) => (name, x.stored)).lookup f.label =
      ((fields.zip xs).lookup f).map Value.stored := by
  induction fields generalizing xs with
  | nil => rfl
  | cons g fields ih =>
    cases xs with
    | nil => rfl
    | cons x xs =>
      by_cases hfg : f = g
      · subst hfg
        simp
      · have hlabel : (f.label == g.label) = false := by
          simpa using fun h => hfg (Field.label_inj h)
        have hfield : (f == g) = false := by simpa using hfg
        simp only [List.map_cons, List.zip_cons_cons, List.lookup_cons, hlabel, hfield]
        exact ih xs

/-- The entry of a field is its value. -/
theorem lookup_storedEntries (r : Record) (f : Field) :
    r.storedEntries.lookup f.label = (r.get? f).map Value.stored :=
  lookup_stored r.kind.columns r.values f

theorem lookup_zip_of_mem {fields : List Field} {xs : List Value} (h : fields.Nodup) {f : Field}
    {x : Value} (hmem : (f, x) ∈ fields.zip xs) : (fields.zip xs).lookup f = some x := by
  induction fields generalizing xs with
  | nil => simp at hmem
  | cons g fields ih =>
    obtain ⟨hg, hfields⟩ := List.nodup_cons.mp h
    cases xs with
    | nil => simp at hmem
    | cons y xs =>
      rcases List.mem_cons.mp hmem with heq | hrest
      · cases heq
        simp
      · have hfg : (f == g) = false := by
          simp only [beq_eq_false_iff_ne]
          rintro rfl
          exact hg (List.of_mem_zip hrest).1
        rw [List.zip_cons_cons, List.lookup_cons, hfg]
        exact ih hfields hrest

/-! ## Reading back -/

theorem collect_eq_ok {read : (f : Field) → Except Mismatch { x : Value // x.type = f.type }}
    {fields : List Field} {xs : List Value} (htyped : xs.map Value.type = fields.map Field.type)
    (h : ∀ f x, (f, x) ∈ fields.zip xs → ∃ htype, read f = .ok ⟨x, htype⟩) :
    collect read fields = .ok ⟨xs, htyped⟩ := by
  induction fields generalizing xs with
  | nil =>
    have : xs = [] := by simpa using htyped
    subst this
    rfl
  | cons f fields ih =>
    cases xs with
    | nil => simp at htyped
    | cons x xs =>
      obtain ⟨htype, hf⟩ := h f x List.mem_cons_self
      have htyped' : xs.map Value.type = fields.map Field.type := (List.cons_eq_cons.mp htyped).2
      have hrest := ih htyped' fun g y hy => h g y (List.mem_cons_of_mem _ hy)
      simp only [collect, hf, hrest, bind, Except.bind, pure, Except.pure]

theorem checkEntries_cons {kind : Kind} {f : Field} {x : Value} (hkind : f.kind = kind)
    (htype : x.type = f.type) (rest : List (String × Json)) :
    checkEntries kind ((f.label, x.stored) :: rest) = checkEntries kind rest := by
  have hfield : kind.field? f.label = some f := Kind.field?_eq_some_iff.mpr ⟨hkind, rfl⟩
  rw [checkEntries, List.forM_eq_forM, List.forM_cons]
  dsimp only
  rw [hfield]
  simp only [Value.ofJson_stored htype]
  rfl

theorem checkEntries_stored {kind : Kind} {fields : List Field} {xs : List Value}
    (htyped : xs.map Value.type = fields.map Field.type) (h : ∀ f ∈ fields, f.kind = kind) :
    checkEntries kind (((fields.map Field.label).zip xs).map fun (name, x) => (name, x.stored)) =
      .ok () := by
  induction fields generalizing xs with
  | nil => rfl
  | cons f fields ih =>
    cases xs with
    | nil => simp at htyped
    | cons x xs =>
      obtain ⟨hf, hfields⟩ := List.forall_mem_cons.mp h
      obtain ⟨htype, htyped'⟩ := List.cons_eq_cons.mp htyped
      exact (checkEntries_cons hf htype _).trans (ih htyped' hfields)

/-- A row is read back from the object that files hold of it. -/
theorem ofJson_toJson (r : Record) : Record.ofJson r.kind r.toJson = .ok r := by
  have hcheck : checkEntries r.kind r.storedEntries = .ok () :=
    checkEntries_stored r.typed fun f hf => Kind.mem_columns.mp hf
  change Record.ofJson r.kind (.object r.storedEntries) = .ok r
  unfold Record.ofJson
  simp only [hcheck, bind, Except.bind]
  rw [collect_eq_ok r.typed]
  · rfl
  · intro f x hmem
    have hget : r.get? f = some x := lookup_zip_of_mem (Kind.nodup_columns r.kind) hmem
    refine ⟨type_of_get? hget, ?_⟩
    rw [lookup_storedEntries, hget]
    exact Value.ofJson_stored (type_of_get? hget)

end Record

/-! ## What is given -/

/-- What a row of a kind is given for a field: in an object the value under the name of the field,
in a list the one at the place of its column. -/
def Json.given? (kind : Kind) (f : Field) : Json → Option Json
  | .object entries => entries.lookup f.label
  | .array items => items[kind.columns.idxOf f]?
  | _ => none

namespace Record

theorem read_of_collect {read : (f : Field) → Except Mismatch { x : Value // x.type = f.type }}
    {fields : List Field} {xs : { xs : List Value // xs.map Value.type = fields.map Field.type }}
    (h : collect read fields = .ok xs) {f : Field} (hf : f ∈ fields) :
    ∃ x, read f = .ok x ∧ (fields.zip xs.1).lookup f = some x.1 := by
  induction fields with
  | nil => cases hf
  | cons g fields ih =>
    simp only [collect, bind, Except.bind, pure, Except.pure] at h
    cases hg : read g with
    | error => simp [hg] at h
    | ok x =>
      cases hrest : collect read fields with
      | error => simp [hg, hrest] at h
      | ok ys =>
        simp only [hg, hrest] at h
        obtain rfl := Except.ok.inj h
        by_cases hfg : f = g
        · subst hfg
          exact ⟨x, hg, by simp⟩
        · obtain ⟨y, hy, hlookup⟩ := ih hrest ((List.mem_cons.mp hf).resolve_left hfg)
          have hbeq : (f == g) = false := beq_eq_false_iff_ne.mpr hfg
          exact ⟨y, hy, by rw [List.zip_cons_cons, List.lookup_cons, hbeq]; exact hlookup⟩

/-- A row has in each field the value that it was given for it. -/
theorem exists_given?_of_ofJson {kind : Kind} {v : Json} {r : Record}
    (h : Record.ofJson kind v = .ok r) {f : Field} (hf : f.kind = kind) :
    ∃ given x, v.given? kind f = some given ∧ Value.ofJson f.type given = .ok x ∧
      r.get? f = some x.1 := by
  have hmem : f ∈ kind.columns := Kind.mem_columns.mpr hf
  unfold Record.ofJson at h
  cases v with
  | object entries =>
    simp only [bind, Except.bind, pure, Except.pure] at h
    split at h
    · cases h
    · split at h
      · cases h
      · next xs hxs =>
        obtain rfl := Except.ok.inj h
        obtain ⟨x, hread, hget⟩ := read_of_collect hxs hmem
        cases hgiven : entries.lookup f.label with
        | none => simp [hgiven] at hread
        | some given => exact ⟨given, x, hgiven, by simpa [hgiven] using hread, hget⟩
  | array items =>
    simp only [bind, Except.bind, pure, Except.pure] at h
    split at h
    · cases h
    · next xs hxs =>
      split at h
      · obtain rfl := Except.ok.inj h
        obtain ⟨x, hread, hget⟩ := read_of_collect hxs hmem
        cases hgiven : items[kind.columns.idxOf f]? with
        | none => simp [hgiven] at hread
        | some given => exact ⟨given, x, hgiven, by simpa [hgiven] using hread, hget⟩
      · cases h
  | null | boolean | number | string => cases h

end Record

end CampusQuery
