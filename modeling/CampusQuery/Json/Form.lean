import CampusQuery.Json.Skip

/-!
# Reading documents of a given form

A form is a list of named fields, written as an object or as the list of their values in order. It
is read straight from the text, so that the first thing that is not as the form wants it is reported
with its place. A `Form` collects the values of its fields in a draft; a fault of the form as a
whole, such as a missing field, is placed after the bracket that ends it.

* `Form.reader` reads a form.
* `readText`, `readSize`, `readTime`, `readVariant` and `readList` read the values of fields.
-/

namespace CampusQuery

namespace Json

/-- A mismatch after what has been read. -/
def mismatch {α : Type} (m : Mismatch) (rest : Bytes) : Except Failure α :=
  fail (.mismatch m) rest

/-- The failure where something else is wanted than comes next. Words, numbers and strings are read
first, lists and objects not even entered. -/
def unwanted {α : Type} (wanted : Wanted) (rest : Bytes) : Except Failure α :=
  match rest with
  | [] => failAhead .endInValue []
  | c :: _ =>
    if c = '['.toUInt8 then mismatch (.type .sequence wanted) rest
    else if c = '\x7b'.toUInt8 then mismatch (.type .map wanted) rest
    else do
      let (v, rest) ← readScalar rest
      mismatch (.type v.found wanted) rest

/-! ## Values of fields -/

/-- A string. -/
def readTextAs (wanted : Wanted) : Reader String := fun rest =>
  match skipSpace rest with
  | [] => failAhead .endInValue []
  | c :: after => if c = '"'.toUInt8 then readString after else unwanted wanted (c :: after)

/-- A text. -/
def readText : Reader String :=
  readTextAs .string

/-- A size: a whole number that is not negative. -/
def readSize : Reader Nat := fun rest =>
  match skipSpace rest with
  | [] => failAhead .endInValue []
  | c :: after => do
    let (n, rest) ←
      if c = '-'.toUInt8 then readNumber true after
      else if isDigit c then readNumber false (c :: after)
      else unwanted .size (c :: after)
    match n with
    | .integer (.ofNat n) => return (n, rest)
    | .integer i => mismatch (.value (.integer i) .size) rest
    | .float x => mismatch (.type (.float x) .size) rest

/-- A date and time. -/
def readTime : Reader Instant := fun rest => do
  let (s, rest) ← readTextAs .time rest
  match Instant.ofText s with
  | .ok t => return (t, rest)
  | .error fault => mismatch (.time fault) rest

/-- One of some named values, from its name. -/
def readName {α : Type} (variants : List (String × α)) : Reader α := fun rest => do
  let (name, rest) ← readTextAs .variantName rest
  match variants.lookup name with
  | some x => return (x, rest)
  | none => mismatch (.unknownVariant name (variants.map Prod.fst)) rest

/-- One of some named values: its name, or an object with its name as the key of `null`. -/
def readVariant {α : Type} (variants : List (String × α)) (depth : Nat) : Reader α := fun rest =>
  match skipSpace rest with
  | [] => failAhead .endInValue []
  | c :: after =>
    if c = '"'.toUInt8 then readName variants (c :: after)
    else if c = '\x7b'.toUInt8 then
      if depth = 0 then failAhead .tooDeep (c :: after)
      else do
        let (x, rest) ← readName variants after
        let rest := skipSpace (← readColon rest)
        let rest ←
          match rest with
          | [] => failAhead .endInValue []
          | c :: after =>
            if c = 'n'.toUInt8 then readWord ['u', 'l', 'l'] after else unwanted .nothing rest
        match skipSpace rest with
        | [] => fail .endInObject []
        | c :: after =>
          if c = '\x7d'.toUInt8 then return (x, after) else fail .noValue (c :: after)
    else
      failAhead .noValue (c :: after)

/-- A list of values. -/
def readList (bound depth : Nat) : Reader (List Json) := fun rest =>
  match skipSpace rest with
  | [] => failAhead .endInValue []
  | c :: after =>
    if c = '['.toUInt8 then
      match depth with
      | 0 => failAhead .tooDeep (c :: after)
      | depth + 1 => do
        let (items, rest) ← readItems (readValue bound depth) bound true after
        return (items, ← closeList rest)
    else
      unwanted .list (c :: after)

end Json

/-! ## Forms -/

/-- A field of a form whose values are collected in a draft `δ`. -/
structure FormField (δ : Type) where
  name : String
  /-- Whether the field may be left out. -/
  optional : Bool
  /-- Whether the draft has a value of the field. -/
  isSet : δ → Bool
  /-- Reads a value of the field, lists and objects standing no deeper within each other than the
  given limit. -/
  reader : Nat → δ → Json.Reader δ

/-- A form: its fields, and whether it admits no others. -/
structure Form (δ : Type) where
  name : String
  fields : List (FormField δ)
  exact : Bool

namespace Form

open Json

variable {δ : Type}

/-- The values of fields one after the other, in a list; a draft, or what is wrong with the list as
a whole. -/
def readPositional (form : Form δ) (depth : Nat) :
    List (FormField δ) → Nat → δ → Reader (Except Mismatch δ)
  | [], _, draft, rest => .ok (.ok draft, rest)
  | field :: fields, index, draft, rest => do
    match ← nextItem (index = 0) rest with
    | some rest =>
      let (draft, rest) ← field.reader depth draft rest
      readPositional form depth fields (index + 1) draft rest
    | none =>
      let result :=
        match (field :: fields).findIdx? fun field => !field.optional with
        | some i => .error (.tooFew (index + i) form.name form.fields.length)
        | none => .ok draft
      return (result, skipSpace rest)

/-- The entries of a form, at most `bound` of them; a draft, or what is wrong with the form as a
whole. -/
def readNamed (form : Form δ) (bound depth : Nat) : Nat → Bool → δ → Reader (Except Mismatch δ)
  | 0, _, draft, rest => .ok (.ok draft, rest)
  | steps + 1, first, draft, rest => do
    match ← nextKey first rest with
    | none =>
      match form.fields.find? fun field => !field.optional && !field.isSet draft with
      | some field => return (.error (.missing field.name), rest)
      | none => return (.ok draft, rest)
    | some (key, rest) =>
      match form.fields.find? fun field => field.name == key with
      | some field =>
        if field.isSet draft then return (.error (.duplicate key), rest)
        else
          let (draft, rest) ← field.reader depth draft (← readColon rest)
          readNamed form bound depth steps false draft rest
      | none =>
        if form.exact then
          return (.error (.unknownField key (form.fields.map FormField.name)), rest)
        else
          readNamed form bound depth steps false draft (← skipValue bound (← readColon rest))

/-- What is left after trying to read the end of a list. -/
def pastListEnd (rest : Bytes) : Bytes :=
  match skipSpace rest with
  | [] => []
  | c :: after =>
    if c = ']'.toUInt8 then after
    else if c = ','.toUInt8 then skipSpace after
    else c :: after

/-- What is left after trying to read the end of an object. -/
def pastObjectEnd (rest : Bytes) : Bytes :=
  match skipSpace rest with
  | [] => []
  | c :: after => if c = '\x7d'.toUInt8 then after else c :: after

/-- A form, given the empty draft. -/
def reader (form : Form δ) (bound depth : Nat) (empty : δ) : Reader δ := fun rest =>
  match skipSpace rest with
  | [] => failAhead .endInValue []
  | c :: after =>
    if c = '['.toUInt8 then
      match depth with
      | 0 => failAhead .tooDeep (c :: after)
      | depth + 1 => do
        match ← readPositional form depth form.fields 0 empty after with
        | (.ok draft, rest) => return (draft, ← closeList rest)
        | (.error m, rest) => mismatch m (pastListEnd rest)
    else if c = '\x7b'.toUInt8 then
      match depth with
      | 0 => failAhead .tooDeep (c :: after)
      | depth + 1 => do
        match ← readNamed form bound depth bound true empty after with
        | (.ok draft, rest) => return (draft, ← closeObject rest)
        | (.error m, rest) => mismatch m (pastObjectEnd rest)
    else
      unwanted (.form form.name) (c :: after)

/-- A whole document of a form, given the empty draft. -/
def read (form : Form δ) (empty : δ) (document : Bytes) : Except ReadError δ :=
  readWhole (form.reader document.length nestingLimit empty) document

end Form

end CampusQuery
