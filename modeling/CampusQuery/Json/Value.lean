import CampusQuery.Number.Binary64

/-!
# JSON values

A `Json` value keeps the order in which the entries of an object were written, since the first
offending entry of a query is the one reported. A number is an integer or a floating-point number,
as it was written.

* `Json.insert` replaces the value of a key in place or adds an entry at the end, so that the keys
  of an object built by it differ: `keys_insert`.
* `JsonNumber.ofBinary64` writes a whole number of less than `2 ^ 63` as an integer.
-/

namespace CampusQuery

/-- A number in a document: an integer, or a floating-point number. -/
inductive JsonNumber where
  | integer (i : Int)
  | float (x : Binary64)
  deriving DecidableEq, Repr

/-- A JSON value. -/
inductive Json where
  | null
  | boolean (b : Bool)
  | number (n : JsonNumber)
  | string (s : String)
  | array (items : List Json)
  | object (entries : List (String × Json))
  deriving Inhabited, Repr

/-- The type of a JSON value, as messages name it. -/
inductive JsonType where
  | null
  | boolean
  | number
  | string
  | array
  | object
  deriving DecidableEq, Repr

namespace JsonType

/-- The name of a type (`json_type_name`). -/
def label : JsonType → String
  | .null => "null"
  | .boolean => "boolean"
  | .number => "number"
  | .string => "string"
  | .array => "array"
  | .object => "object"

end JsonType

namespace JsonNumber

/-- The floating-point number nearest to a number. -/
def toBinary64 : JsonNumber → Binary64
  | .integer i => Binary64.ofInt i
  | .float x => x

/-- A floating-point number as documents show it: as an integer if it is one of less than `2 ^ 63`
(`number_value`). -/
def ofBinary64 (x : Binary64) : JsonNumber :=
  match x.integer? with
  | some i => if i.natAbs < Nat.pow 2 63 then .integer i else .float x
  | none => .float x

end JsonNumber

namespace Json

/-- The type of a value. -/
def type : Json → JsonType
  | .null => .null
  | .boolean _ => .boolean
  | .number _ => .number
  | .string _ => .string
  | .array _ => .array
  | .object _ => .object

/-- A number as documents show it, and `null` where there is none. -/
def ofNumber? : Option Binary64 → Json
  | some x => .number (.ofBinary64 x)
  | none => .null

/-- A count. -/
def ofNat (n : Nat) : Json :=
  .number (.integer n)

/-- The text of a string. -/
def string? : Json → Option String
  | .string s => some s
  | _ => none

/-- The floating-point number nearest to a number. -/
def number? : Json → Option Binary64
  | .number n => some n.toBinary64
  | _ => none

/-- The entries of an object after a key is given a value: in its place if it is there, else at the
end. -/
def insert (key : String) (value : Json) : List (String × Json) → List (String × Json)
  | [] => [(key, value)]
  | entry :: rest =>
    if entry.1 = key then (key, value) :: rest else entry :: insert key value rest

/-- The entries given one after the other. -/
def insertAll (entries : List (String × Json)) : List (String × Json) :=
  entries.foldl (fun built (key, value) => insert key value built) []

theorem keys_insert (key : String) (value : Json) (entries : List (String × Json)) :
    (insert key value entries).map Prod.fst =
      if key ∈ entries.map Prod.fst then entries.map Prod.fst
      else entries.map Prod.fst ++ [key] := by
  induction entries with
  | nil => simp [insert]
  | cons entry rest ih =>
    by_cases h : entry.1 = key
    · simp [insert, h]
    · have h' : ¬ key = entry.1 := fun e => h e.symm
      simp only [insert, h, if_false, List.map_cons, ih, List.mem_cons, h', false_or]
      split <;> simp

end Json

end CampusQuery
