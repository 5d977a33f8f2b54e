import Mathlib
import CampusQuery.Proofs.Catalog.Record
import CampusQuery.Proofs.Entries

/-!
# Rows in normal form

An object is read as a row by looking up the fields of the kind: the order of its entries does not
count, nor do entries that no field has. What files hold of the row is an object with the fields
alone, in order, and it is read as the same row.

* `Record.ofJson_congr` — a row depends only on the entries that fields of the kind have.
* `Record.exists_ofJson_iff` — the objects that are read as a row.
* `Record.gives_of_ofJson` — the value of each field.
* `Record.ofJson_normalises` — a row is the normal form of the object it was read from.
-/

namespace CampusQuery

/-- Whether a name is that of a field of a kind. -/
def Kind.declares (kind : Kind) (name : String) : Bool :=
  (kind.field? name).isSome

theorem Kind.declares_label {kind : Kind} {f : Field} (h : f.kind = kind) :
    kind.declares f.label = true := by
  rw [declares, Kind.field?_eq_some_iff.mpr ⟨h, rfl⟩, Option.isSome_some]

/-- The type of the JSON values that fields of a type take. -/
def FieldType.json : FieldType → JsonType
  | .numeric => .number
  | .text => .string

/-- What a value in a document gives for a field: a text the same text, and a number the nearest
floating-point number. -/
inductive Gives : Json → Value → Prop
  | number (n : JsonNumber) : Gives (.number n) (.number n.toBinary64)
  | text (s : String) : Gives (.string s) (.text s)

theorem Value.gives_of_ofJson {type : FieldType} {v : Json} {x : { x : Value // x.type = type }}
    (h : Value.ofJson type v = .ok x) : Gives v x.1 := by
  cases type <;> cases v <;> cases h
  · exact .number _
  · exact .text _

theorem Value.exists_ofJson_iff {type : FieldType} {v : Json} :
    (∃ x, Value.ofJson type v = .ok x) ↔ v.type = type.json := by
  cases type <;> cases v <;> simp [Value.ofJson, Json.type, FieldType.json]

namespace Record

variable {kind : Kind} {es es' : List (String × Json)} {r : Record}

/-! ## Entries that count -/

theorem checkEntries_of_undeclared {key : String} (h : kind.field? key = none) (v : Json)
    (es : List (String × Json)) : checkEntries kind ((key, v) :: es) = checkEntries kind es := by
  rw [checkEntries, List.forM_eq_forM, List.forM_cons]
  dsimp only
  rw [h]
  rfl

theorem checkEntries_of_declared {key : String} {f : Field} (h : kind.field? key = some f) (v : Json)
    (es : List (String × Json)) :
    checkEntries kind ((key, v) :: es) =
      (Value.ofJson f.type v).bind fun _ => checkEntries kind es := by
  rw [checkEntries, List.forM_eq_forM, List.forM_cons]
  dsimp only
  rw [h]
  dsimp only
  cases Value.ofJson f.type v <;> rfl

theorem checkEntries_eq_ok_iff :
    checkEntries kind es = .ok () ↔
      ∀ e ∈ es, ∀ f, kind.field? e.1 = some f → e.2.type = f.type.json := by
  induction es with
  | nil => simp [checkEntries, pure, Except.pure]
  | cons e es ih =>
    obtain ⟨key, v⟩ := e
    rw [List.forall_mem_cons, ← ih]
    cases hfield : kind.field? key with
    | none =>
      rw [checkEntries_of_undeclared hfield]
      simp
    | some f =>
      rw [checkEntries_of_declared hfield]
      simp only [Option.some.injEq, forall_eq', ← Value.exists_ofJson_iff]
      cases Value.ofJson f.type v <;> simp [Except.bind]

theorem checkEntries_filter (kind : Kind) (es : List (String × Json)) :
    checkEntries kind (es.filter fun e => kind.declares e.1) = checkEntries kind es := by
  induction es with
  | nil => rfl
  | cons e es ih =>
    obtain ⟨key, v⟩ := e
    cases hfield : kind.field? key with
    | none =>
      have hno : ¬ kind.declares key = true := by simp [Kind.declares, hfield]
      rw [List.filter_cons_of_neg (by exact hno), ih, checkEntries_of_undeclared hfield]
    | some f =>
      have hyes : kind.declares key = true := by simp [Kind.declares, hfield]
      rw [List.filter_cons_of_pos (by exact hyes), checkEntries_of_declared hfield, ih,
        checkEntries_of_declared hfield]

theorem collect_congr {read read' : (f : Field) → Except Mismatch { x : Value // x.type = f.type }}
    {fields : List Field} (h : ∀ f ∈ fields, read f = read' f) :
    collect read fields = collect read' fields := by
  induction fields with
  | nil => rfl
  | cons f fields ih =>
    obtain ⟨hf, hfields⟩ := List.forall_mem_cons.mp h
    rw [collect, collect, hf, ih hfields]

/-- A row depends only on the values under the names of fields of the kind. -/
theorem ofJson_congr (hcheck : checkEntries kind es' = checkEntries kind es)
    (hlookup : ∀ f : Field, f.kind = kind → es'.lookup f.label = es.lookup f.label) :
    Record.ofJson kind (.object es') = Record.ofJson kind (.object es) := by
  unfold Record.ofJson
  dsimp only
  rw [hcheck]
  congr 1
  funext _
  rw [collect_congr]
  intro f hf
  rw [hlookup f (Kind.mem_columns.mp hf)]

/-- Entries that no field of the kind has do not count. -/
theorem ofJson_filter (kind : Kind) (es : List (String × Json)) :
    Record.ofJson kind (.object (es.filter fun e => kind.declares e.1)) =
      Record.ofJson kind (.object es) := by
  refine ofJson_congr (checkEntries_filter kind es) fun f hf => ?_
  rw [lookup_filter kind.declares, Kind.declares_label hf, if_pos rfl]

theorem checkEntries_of_ofJson (h : Record.ofJson kind (.object es) = .ok r) :
    checkEntries kind es = .ok () := by
  cases hcheck : checkEntries kind es with
  | error => simp [Record.ofJson, hcheck, bind, Except.bind] at h
  | ok => rfl

/-- A row does not depend on the order of the entries that count, nor on the others. -/
theorem ofJson_of_perm (hes : (es.map Prod.fst).Nodup)
    (hperm : (es'.filter fun e => kind.declares e.1).Perm (es.filter fun e => kind.declares e.1))
    (h : Record.ofJson kind (.object es) = .ok r) :
    Record.ofJson kind (.object es') = .ok r := by
  have hkeys : ((es.filter fun e => kind.declares e.1).map Prod.fst).Nodup :=
    hes.sublist (List.filter_sublist.map Prod.fst)
  have hcheck : checkEntries kind (es.filter fun e => kind.declares e.1) = .ok () := by
    rw [checkEntries_filter, checkEntries_of_ofJson h]
  have hcheck' : checkEntries kind (es'.filter fun e => kind.declares e.1) = .ok () :=
    checkEntries_eq_ok_iff.mpr fun e he =>
      checkEntries_eq_ok_iff.mp hcheck e (hperm.mem_iff.mp he)
  rw [← ofJson_filter, ofJson_congr (hcheck'.trans hcheck.symm), ofJson_filter, h]
  intro f _
  exact lookup_eq_of_perm hkeys hperm.symm f.label

/-! ## What is read -/

theorem exists_of_collect {read : (f : Field) → Except Mismatch { x : Value // x.type = f.type }}
    (h : ∀ f ∈ kind.columns, ∃ x, read f = .ok x) :
    ∃ r, (do
      let xs ← collect read kind.columns
      return (⟨kind, xs.1, xs.2⟩ : Record)) = .ok r := by
  have hcollect (fields : List Field) (h : ∀ f ∈ fields, ∃ x, read f = .ok x) :
      ∃ xs, collect read fields = .ok xs := by
    induction fields with
    | nil => exact ⟨_, rfl⟩
    | cons f fields ih =>
      obtain ⟨⟨x, hx⟩, hfields⟩ := List.forall_mem_cons.mp h
      obtain ⟨xs, hxs⟩ := ih hfields
      simp only [collect, hx, hxs, bind, Except.bind, pure, Except.pure]
      exact ⟨_, rfl⟩
  obtain ⟨xs, hxs⟩ := hcollect kind.columns h
  exact ⟨⟨kind, xs.1, xs.2⟩, by rw [hxs]; rfl⟩

/-- An object is read as a row just if it has for every field a value of its type. -/
theorem exists_ofJson_iff (hes : (es.map Prod.fst).Nodup) :
    (∃ r, Record.ofJson kind (.object es) = .ok r) ↔
      ∀ f ∈ kind.fields, ∃ v, es.lookup f.label = some v ∧ v.type = f.type.json := by
  constructor
  · rintro ⟨r, hr⟩ f hf
    obtain ⟨v, x, hv, hx, -⟩ := exists_given?_of_ofJson hr (Kind.mem_fields.mp hf)
    exact ⟨v, hv, Value.exists_ofJson_iff.mp ⟨x, hx⟩⟩
  · intro h
    have hcheck : checkEntries kind es = .ok () := by
      refine checkEntries_eq_ok_iff.mpr fun e he f hf => ?_
      obtain ⟨hkind, hlabel⟩ := Kind.field?_eq_some_iff.mp hf
      obtain ⟨v, hv, htype⟩ := h f (Kind.mem_fields.mpr hkind)
      have hlookup : es.lookup f.label = some e.2 :=
        (lookup_eq_some_iff_mem hes).mpr (by rw [hlabel]; exact he)
      rw [hlookup] at hv
      rwa [Option.some.inj hv]
    unfold Record.ofJson
    dsimp only
    rw [hcheck]
    refine exists_of_collect fun f hf => ?_
    obtain ⟨v, hv, htype⟩ := h f (Kind.mem_fields.mpr (Kind.mem_columns.mp hf))
    rw [hv]
    exact Value.exists_ofJson_iff.mpr htype

/-- A field has the value that the entry of its name gives. -/
theorem gives_of_ofJson (h : Record.ofJson kind (.object es) = .ok r) {f : Field}
    (hf : f.kind = kind) : ∃ v x, es.lookup f.label = some v ∧ r.get? f = some x ∧ Gives v x := by
  obtain ⟨v, x, hv, hx, hget⟩ := exists_given?_of_ofJson h hf
  exact ⟨v, x.1, hv, hget, Value.gives_of_ofJson hx⟩

/-- What is read as a row has the row as its normal form, which is read as the same row. An object is
read just if it has for every field a value of its type; each of these is in the row, whatever the
order of the entries and whatever other entries there are. -/
theorem ofJson_normalises (kind : Kind) :
    (∀ v r, Record.ofJson kind v = .ok r →
      Record.ofJson kind r.toJson = .ok r ∧
        (Record.ofJson kind r.toJson).map toJson = .ok r.toJson) ∧
    ∀ es : List (String × Json), (es.map Prod.fst).Nodup →
      ((∃ r, Record.ofJson kind (.object es) = .ok r) ↔
        ∀ f ∈ kind.fields, ∃ v, es.lookup f.label = some v ∧ v.type = f.type.json) ∧
      ∀ r, Record.ofJson kind (.object es) = .ok r →
        (∀ es' : List (String × Json),
          (es'.filter fun e => kind.declares e.1).Perm (es.filter fun e => kind.declares e.1) →
            Record.ofJson kind (.object es') = .ok r) ∧
        ∀ f ∈ kind.fields, ∃ v x, es.lookup f.label = some v ∧ r.get? f = some x ∧ Gives v x := by
  refine ⟨fun v r h => ?_, fun es hes => ⟨exists_ofJson_iff hes, fun r h =>
    ⟨fun es' hperm => ofJson_of_perm hes hperm h,
      fun f hf => gives_of_ofJson h (Kind.mem_fields.mp hf)⟩⟩⟩
  have hback : Record.ofJson kind r.toJson = .ok r := by
    have hread := ofJson_toJson r
    rwa [kind_of_ofJson h] at hread
  exact ⟨hback, by rw [hback]; rfl⟩

/-- The entries of a room, with a whole number of seats. -/
def roomEntries : List (String × Json) :=
  [("fullname", .string "Hall 1"), ("shortname", .string "H"), ("number", .string "1"),
    ("name", .string "H_1"), ("address", .string "Main Mall"), ("lat", .number (.integer 49)),
    ("lon", .number (.integer (-123))), ("seats", .number (.integer 20)), ("type", .string "Open"),
    ("furniture", .string "Chairs"), ("href", .string "link")]

/-- The room is the same with its entries from last to first and a colour that no field has. -/
theorem ofJson_normalises_reversed : ∃ r x,
    Record.ofJson .rooms (.object roomEntries) = .ok r ∧ Record.ofJson .rooms r.toJson = .ok r ∧
      Record.ofJson .rooms (.object (("colour", .string "red") :: roomEntries.reverse)) = .ok r ∧
      r.get? .seats = some x ∧ Gives (.number (.integer 20)) x := by
  obtain ⟨hback, hobject⟩ := ofJson_normalises .rooms
  have hkeys : (roomEntries.map Prod.fst).Nodup := by decide
  have hfields : ∀ f ∈ Kind.rooms.fields,
      ∃ v, roomEntries.lookup f.label = some v ∧ v.type = f.type.json := by
    intro f hf
    cases f <;> first | exact ⟨_, rfl, rfl⟩ | exact absurd hf (by decide)
  obtain ⟨hreads, hread⟩ := hobject roomEntries hkeys
  obtain ⟨r, hr⟩ := hreads.mpr hfields
  obtain ⟨hother, hgives⟩ := hread r hr
  obtain ⟨v, x, hv, hx, hgive⟩ := hgives .seats (by decide)
  obtain rfl := Option.some.inj hv
  refine ⟨r, x, hr, (hback _ r hr).1, hother _ ?_, hx, hgive⟩
  have hcolour : ¬ Kind.rooms.declares "colour" = true := by decide
  rw [List.filter_cons_of_neg (by exact hcolour), List.filter_reverse]
  exact List.reverse_perm _

end Record

end CampusQuery
