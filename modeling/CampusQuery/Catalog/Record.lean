import CampusQuery.Catalog.Field
import CampusQuery.Json.Mismatch

/-!
# Rows

A `Record` is a row of a dataset: for each column of its kind a value of the column's type. It is
read from a JSON object, in which unknown keys do not matter, or from the list of its values in the
order of the columns, and written as an object with the columns in order.

* `Record.ofJson` reads a row or says what is wrong with it: of an object the first entry with a
  value of the wrong type, and only then the first column that is missing.
* `Record.get?` is the value of a field, `Record.isSome_get?` says that a row has just the fields of
  its kind, and `Record.type_of_get?` that each value has its field's type.
-/

namespace CampusQuery

/-- The value of a field (`FieldValue`). -/
inductive Value where
  | number (x : Binary64)
  | text (s : String)
  deriving DecidableEq, Repr, Hashable

namespace Value

/-- The type of a value. -/
def type : Value → FieldType
  | .number _ => .numeric
  | .text _ => .text

/-- A value as answers show it, a whole number without a point (`FieldValue.to_json`). -/
def shown : Value → Json
  | .number x => Json.ofNumber? (some x)
  | .text s => .string s

/-- A value as files hold it, every number a floating-point number. -/
def stored : Value → Json
  | .number x => .number (.float x)
  | .text s => .string s

/-- The number that a value is (`FieldValue.as_number`). -/
def number? : Value → Option Binary64
  | .number x => some x
  | .text _ => none

/-- The text that a value is (`FieldValue.as_text`). -/
def text? : Value → Option String
  | .number _ => none
  | .text s => some s

/-- Reads a value of a type. -/
def ofJson (type : FieldType) (v : Json) : Except Mismatch { x : Value // x.type = type } :=
  match type, v with
  | .numeric, .number n => .ok ⟨.number n.toBinary64, rfl⟩
  | .numeric, v => .error (.type v.found .number)
  | .text, .string s => .ok ⟨.text s, rfl⟩
  | .text, v => .error (.type v.found .string)

end Value

/-- A row: for each column of its kind, in order, a value of the column's type. -/
structure Record where
  kind : Kind
  values : List Value
  typed : values.map Value.type = kind.columns.map Field.type
  deriving DecidableEq, Repr

namespace Record

/-- The value of a field, if the row has it (`Record.field`). -/
def get? (r : Record) (f : Field) : Option Value :=
  (r.kind.columns.zip r.values).lookup f

/-- The number in a field. -/
def number? (r : Record) (f : Field) : Option Binary64 :=
  (r.get? f).bind Value.number?

/-- The text in a field. -/
def text? (r : Record) (f : Field) : Option String :=
  (r.get? f).bind Value.text?

/-- The names and values of a row in the order of the columns. -/
def entries (r : Record) : List (String × Value) :=
  (r.kind.columns.map Field.label).zip r.values

/-- A row as files hold it (`Record.to_json`). -/
def toJson (r : Record) : Json :=
  .object (r.entries.map fun (name, x) => (name, x.stored))

/-! ## Reading -/

/-- A value for each of some fields, each read by its own means, up to the first that fails. -/
def collect (read : (f : Field) → Except Mismatch { x : Value // x.type = f.type }) :
    (fields : List Field) →
      Except Mismatch { xs : List Value // xs.map Value.type = fields.map Field.type }
  | [] => .ok ⟨[], rfl⟩
  | f :: fields => do
    let x ← read f
    let xs ← collect read fields
    return ⟨x.1 :: xs.1, by simp [x.2, xs.2]⟩

/-- Fails at the first entry whose key is a field of the kind and whose value is not of the field's
type. -/
def checkEntries (kind : Kind) (entries : List (String × Json)) : Except Mismatch Unit :=
  entries.forM fun (key, v) =>
    match kind.field? key with
    | some f => do let _ ← Value.ofJson f.type v
    | none => .ok ()

/-- Reads a row of a kind (`Record.from_json`). -/
def ofJson (kind : Kind) (v : Json) : Except Mismatch Record :=
  match v with
  | .object entries => do
    checkEntries kind entries
    let xs ← collect
      (fun f =>
        match entries.lookup f.label with
        | some v => Value.ofJson f.type v
        | none => .error (.missing f.label))
      kind.columns
    return ⟨kind, xs.1, xs.2⟩
  | .array items => do
    let xs ← collect
      (fun f =>
        match items[kind.columns.idxOf f]? with
        | some v => Value.ofJson f.type v
        | none => .error (.tooFew items.length kind.rowName kind.columns.length))
      kind.columns
    if items.length ≤ kind.columns.length then return ⟨kind, xs.1, xs.2⟩
    else throw (.tooMany items.length)
  | v => .error (.type v.found (.form kind.rowName))

/-! ## Fields and types -/

theorem lookup_zip {fields : List Field} {xs : List Value}
    (h : xs.map Value.type = fields.map Field.type) (f : Field) :
    ((fields.zip xs).lookup f).map Value.type = if f ∈ fields then some f.type else none := by
  induction fields generalizing xs with
  | nil => simp
  | cons g fields ih =>
    cases xs with
    | nil => simp at h
    | cons x xs =>
      simp only [List.map_cons, List.cons.injEq] at h
      by_cases hfg : f = g
      · subst hfg
        simp [h.1]
      · have hbeq : (f == g) = false := by simpa using hfg
        simp [List.lookup_cons, hbeq, ih h.2, hfg]

theorem type_get? (r : Record) (f : Field) :
    (r.get? f).map Value.type = if f.kind = r.kind then some f.type else none := by
  unfold get?
  rw [lookup_zip r.typed f]
  simp only [Kind.mem_columns]

theorem isSome_get? (r : Record) (f : Field) : (r.get? f).isSome ↔ f.kind = r.kind := by
  have h := type_get? r f
  cases hget : r.get? f <;> by_cases hkind : f.kind = r.kind <;> simp_all

theorem type_of_get? {r : Record} {f : Field} {x : Value} (h : r.get? f = some x) :
    x.type = f.type := by
  have htype := type_get? r f
  by_cases hkind : f.kind = r.kind <;> simp_all

end Record

end CampusQuery
