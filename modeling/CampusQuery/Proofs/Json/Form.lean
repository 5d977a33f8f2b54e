import Mathlib
import CampusQuery.Json.Form
import CampusQuery.Proofs.Json.Value
import CampusQuery.Proofs.Time.Instant

/-!
# Fields in the bytes of a document

The readers of the fields of a form read texts, times, names and lists as they are written, and a
form takes its entries one by one.

* `Json.readText_document`, `Json.readTime_document`, `Json.readVariant_document`,
  `Json.readList_compact` — the values of fields.
* `Form.readNamed_entry`, `Form.readNamed_close` — an entry and the end of a form.
-/

namespace CampusQuery

namespace Json

variable {rest : Bytes}

theorem readTextAs_document (wanted : Wanted) (s : String) (rest : Bytes) :
    readTextAs wanted (bytesOf (Quoted.document s) ++ rest) = .ok (s, rest) := by
  have hread := readString_document s rest
  rw [bytesOf_document, List.append_assoc, List.cons_append, readTextAs,
    skipSpace_cons (by decide)]
  simp only [if_true, List.singleton_append, hread]

theorem readText_document (s : String) (rest : Bytes) :
    readText (bytesOf (Quoted.document s) ++ rest) = .ok (s, rest) :=
  readTextAs_document .string s rest

/-- The text of an instant that a clock can show. -/
theorem readTime_document {t : Instant} (h : t.isValid = true) (rest : Bytes) :
    readTime (bytesOf (Quoted.document t.text) ++ rest) = .ok (t, rest) := by
  rw [readTime, readTextAs_document]
  simp only [bind, Except.bind, Instant.ofText_text h]
  rfl

/-- The name of one of some named values. -/
theorem readVariant_document {α : Type} {variants : List (String × α)} {name : String} {x : α}
    (h : variants.lookup name = some x) (depth : Nat) (rest : Bytes) :
    readVariant variants depth (bytesOf (Quoted.document name) ++ rest) = .ok (x, rest) := by
  have hread := readTextAs_document .variantName name rest
  obtain ⟨bs, hbs⟩ := exists_cons_document name
  rw [hbs, List.cons_append] at hread ⊢
  rw [readVariant, skipSpace_cons (by decide)]
  simp only [if_true, readName, hread, bind, Except.bind, h]
  rfl

/-- A list of storable values. -/
theorem readList_compact {bound depth : Nat} {items : List Json}
    (h : ∀ item ∈ items, item.IsStorable depth)
    (hbound : (compactBytes (.array items)).length ≤ bound) (rest : Bytes) :
    readList bound (depth + 1) (compactBytes (.array items) ++ rest) =
      .ok (items.map reread, rest) := by
  rw [bytesOf_array] at hbound ⊢
  rw [List.length_cons, List.length_append] at hbound
  have hitems := readItems_compact (readValue_compact bound depth) h (by omega) rest
  rw [List.cons_append, List.append_assoc, readList, skipSpace_cons (by decide)]
  simp only [if_true, List.singleton_append, hitems, closeList_cons, bind, Except.bind, pure,
    Except.pure]

end Json

namespace Form

open Json

variable {δ : Type} {form : Form δ} {bound depth steps : Nat} {draft : δ}

/-- A value that has been read is put where a field is to have it. -/
theorem read_put {α : Type} {read : Except Failure (α × Bytes)} {x : α} {rest : Bytes}
    (h : read = .ok (x, rest)) (put : α → δ) :
    (do let (x, rest) ← read; return (put x, rest)) = Except.ok (ε := Failure) (put x, rest) := by
  rw [h]
  rfl

/-- An entry whose key is a field without a value so far. -/
theorem readNamed_entry {first : Bool} {bytes body rest : Bytes} {key : String}
    {field : FormField δ} {draft' : δ}
    (hkey : nextKey first bytes = .ok (some (key, ':'.toUInt8 :: body)))
    (hfind : (form.fields.find? fun field => field.name == key) = some field)
    (hset : field.isSet draft = false) (hread : field.reader depth draft body = .ok (draft', rest)) :
    readNamed form bound depth (steps + 1) first draft bytes =
      readNamed form bound depth steps false draft' rest := by
  rw [readNamed]
  simp only [hkey, bind, Except.bind, hfind, hset, Bool.false_eq_true, if_false, readColon_cons,
    hread]

/-- The end of a form whose fields all have values. -/
theorem readNamed_close {first : Bool} {rest : Bytes}
    (h : (form.fields.find? fun field => !field.optional && !field.isSet draft) = none) :
    readNamed form bound depth (steps + 1) first draft ('\x7d'.toUInt8 :: rest) =
      .ok (.ok draft, '\x7d'.toUInt8 :: rest) := by
  rw [readNamed]
  simp only [nextKey_close, bind, Except.bind, h]
  rfl

/-- A whole document, from the entries within its braces. -/
theorem read_of_readNamed {empty : δ} {body : Bytes}
    (h : readNamed form (body.length + 1) (nestingLimit - 1) (body.length + 1) true empty body =
      .ok (.ok draft, ['\x7d'.toUInt8])) :
    form.read empty ('\x7b'.toUInt8 :: body) = .ok draft := by
  have hlist : '\x7b'.toUInt8 ≠ '['.toUInt8 := by decide
  have hlimit : nestingLimit = (nestingLimit - 1) + 1 := rfl
  rw [Form.read, readWhole, Form.reader, skipSpace_cons (by decide), hlimit]
  simp only [if_neg hlist, if_true, List.length_cons, h, bind, Except.bind, closeObject_cons, pure,
    Except.pure]
  rfl

end Form

end CampusQuery
