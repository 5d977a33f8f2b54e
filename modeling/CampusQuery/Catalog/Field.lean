/-!
# Fields

A dataset is of one of two kinds, and its kind fixes the fields of its rows. `Kind.fields` lists
them with the numeric ones first, as a catalog shows them, and `Kind.columns` in the order in which
rows hold them. Queries name a field by a key: the id of the dataset, an underscore and the label of
the field; `splitKey` takes it apart.

* `Kind.mem_columns` — the columns of a kind are its fields.
* `Field.label_inj` — a label names one field, so no two kinds share one.
* `splitKey_eq_some_iff` — a key splits at its first underscore.
-/

namespace CampusQuery

/-- The kinds of dataset: sections of courses, and rooms (`DatasetKind`). -/
inductive Kind where
  | courses
  | rooms
  deriving DecidableEq, Repr, Inhabited

/-- The types of field (`FieldType`). -/
inductive FieldType where
  | numeric
  | text
  deriving DecidableEq, Repr

/-- The fields of both kinds. -/
inductive Field where
  | avg
  | pass
  | fail
  | audit
  | year
  | dept
  | id
  | instructor
  | title
  | uuid
  | lat
  | lon
  | seats
  | fullname
  | shortname
  | number
  | name
  | address
  | roomType
  | furniture
  | href
  deriving DecidableEq, Repr

/-- The name of a field type. -/
def FieldType.label : FieldType → String
  | .numeric => "numeric"
  | .text => "string"

namespace Field

/-- The name of a field. -/
def label : Field → String
  | .avg => "avg"
  | .pass => "pass"
  | .fail => "fail"
  | .audit => "audit"
  | .year => "year"
  | .dept => "dept"
  | .id => "id"
  | .instructor => "instructor"
  | .title => "title"
  | .uuid => "uuid"
  | .lat => "lat"
  | .lon => "lon"
  | .seats => "seats"
  | .fullname => "fullname"
  | .shortname => "shortname"
  | .number => "number"
  | .name => "name"
  | .address => "address"
  | .roomType => "type"
  | .furniture => "furniture"
  | .href => "href"

/-- The type of a field. -/
def type : Field → FieldType
  | .avg | .pass | .fail | .audit | .year | .lat | .lon | .seats => .numeric
  | _ => .text

/-- The kind whose rows have a field. -/
def kind : Field → Kind
  | .avg | .pass | .fail | .audit | .year | .dept | .id | .instructor | .title | .uuid => .courses
  | _ => .rooms

theorem label_inj {f g : Field} (h : f.label = g.label) : f = g := by
  revert h
  cases f <;> cases g <;> decide

end Field

namespace Kind

/-- The name of a kind (`DatasetKind.as_str`). -/
def label : Kind → String
  | .courses => "courses"
  | .rooms => "rooms"

/-- Both kinds. -/
def all : List Kind := [.courses, .rooms]

/-- The kind of a given name (`DatasetKind.from_str`). -/
def ofLabel? (name : String) : Option Kind :=
  all.find? fun kind => kind.label == name

/-- What is said of a name that no kind has. -/
def unknownMessage (name : String) : String :=
  s!"unknown dataset kind '{name}'"

/-- The fields of a kind, the numeric ones first (`DatasetKind.fields`). -/
def fields : Kind → List Field
  | .courses =>
    [.avg, .pass, .fail, .audit, .year, .dept, .id, .instructor, .title, .uuid]
  | .rooms =>
    [.lat, .lon, .seats, .fullname, .shortname, .number, .name, .address, .roomType, .furniture,
      .href]

/-- The fields of a kind in the order in which rows hold them. -/
def columns : Kind → List Field
  | .courses =>
    [.dept, .id, .instructor, .title, .uuid, .avg, .pass, .fail, .audit, .year]
  | .rooms =>
    [.fullname, .shortname, .number, .name, .address, .lat, .lon, .seats, .roomType, .furniture,
      .href]

/-- The name of a row of a kind, in messages about its form. -/
def rowName : Kind → String
  | .courses => "Section"
  | .rooms => "Room"

/-- The field of a kind with a given name (`DatasetKind.field`). -/
def field? (kind : Kind) (name : String) : Option Field :=
  kind.fields.find? fun field => field.label == name

theorem mem_fields {kind : Kind} {f : Field} : f ∈ kind.fields ↔ f.kind = kind := by
  cases kind <;> cases f <;> decide

theorem mem_columns {kind : Kind} {f : Field} : f ∈ kind.columns ↔ f.kind = kind := by
  cases kind <;> cases f <;> decide

theorem field?_eq_some_iff {kind : Kind} {name : String} {f : Field} :
    kind.field? name = some f ↔ f.kind = kind ∧ f.label = name := by
  unfold field?
  constructor
  · intro h
    have hlabel := List.find?_some h
    exact ⟨mem_fields.1 (List.mem_of_find?_eq_some h), by simpa using hlabel⟩
  · rintro ⟨hkind, hlabel⟩
    cases hfind : kind.fields.find? fun field => field.label == name with
    | none =>
      have := List.find?_eq_none.1 hfind f (mem_fields.2 hkind)
      simp [hlabel] at this
    | some g =>
      have hg := List.find?_some hfind
      rw [Field.label_inj (f := g) (g := f) (by simpa [hlabel] using hg)]

end Kind

/-- The field of a given name, whichever kind has it (`DatasetKind.owning`). -/
def Field.named? (name : String) : Option Field :=
  Kind.all.findSome? fun kind => kind.field? name

/-! ## Keys -/

/-- What separates the id of a dataset from the name of a field (`KEY_SEPARATOR`). -/
def separator : Char := '_'

/-- The id and the field name of a key, which is divided at its first underscore; the id must not be
empty (`split_key`). -/
def splitKey (key : String) : Option (String × String) :=
  let id := key.toList.takeWhile (· != separator)
  match key.toList.dropWhile (· != separator) with
  | [] => none
  | _ :: name => if id.isEmpty then none else some (String.ofList id, String.ofList name)

theorem takeWhile_append_of_not_mem {p : List Char} (rest : List Char) (h : separator ∉ p) :
    (p ++ separator :: rest).takeWhile (· != separator) = p ∧
      (p ++ separator :: rest).dropWhile (· != separator) = separator :: rest := by
  induction p with
  | nil => simp
  | cons c p ih =>
    simp only [List.mem_cons, not_or] at h
    have hc : (c != separator) = true := by simpa using fun e => h.1 e.symm
    simp [hc, ih h.2]

theorem splitKey_eq_some_iff {key id name : String} :
    splitKey key = some (id, name) ↔
      key = id ++ separator.toString ++ name ∧ id ≠ "" ∧ separator ∉ id.toList := by
  constructor
  · intro h
    unfold splitKey at h
    split at h
    · cases h
    · rename_i c rest hrest
      dsimp only at h
      split at h
      · cases h
      · rename_i hid
        simp only [Option.some.injEq, Prod.mk.injEq] at h
        obtain ⟨rfl, rfl⟩ := h
        have hc : c = separator := by
          have := List.head?_dropWhile_not (· != separator) key.toList
          rw [hrest] at this
          simpa using this
        have hsplit := List.takeWhile_append_dropWhile (p := (· != separator)) (l := key.toList)
        rw [hrest, hc] at hsplit
        refine ⟨?_, ?_, ?_⟩
        · apply String.toList_inj.1
          simp only [Char.toString, String.toList_append, String.toList_ofList,
            String.toList_singleton, List.append_assoc, List.singleton_append]
          exact hsplit.symm
        · intro hempty
          apply hid
          have := congrArg String.toList hempty
          simpa using this
        · intro hmem
          have hall := List.all_takeWhile (p := (· != separator)) (l := key.toList)
          rw [String.toList_ofList] at hmem
          simpa using List.all_eq_true.1 hall separator hmem
  · rintro ⟨rfl, hne, hsep⟩
    have hlist : (id ++ separator.toString ++ name).toList =
        id.toList ++ separator :: name.toList := by
      simp [Char.toString]
    obtain ⟨htake, hdrop⟩ := takeWhile_append_of_not_mem name.toList hsep
    unfold splitKey
    rw [hlist, htake, hdrop]
    have hid : id.toList.isEmpty = false := by
      cases hl : id.toList with
      | nil => exact absurd (String.toList_inj.1 (by simpa using hl)) hne
      | cons => rfl
    simp [hid]

end CampusQuery
