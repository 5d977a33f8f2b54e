import CampusQuery.Json.Printer
import CampusQuery.Time.Instant

/-!
# What a document should hold

A `Mismatch` says how a well-formed document is not of the form that is wanted: a value of another
type, a list of the wrong length, a field too few or too many. `Mismatch.message` is its wording.
-/

namespace CampusQuery

/-- What stands in a document where something else is wanted. -/
inductive Found where
  | null
  | boolean (b : Bool)
  | integer (i : Int)
  | float (x : Binary64)
  | string (s : String)
  | sequence
  | map
  deriving DecidableEq, Repr

/-- What is wanted at a place of a document. -/
inductive Wanted where
  | number
  | string
  | size
  | nothing
  | list
  | variantName
  | time
  | form (name : String)
  deriving DecidableEq, Repr

/-- How a document is not of the form that is wanted. -/
inductive Mismatch where
  /-- A value of another type. -/
  | type (found : Found) (wanted : Wanted)
  /-- A value of the right type out of range. -/
  | value (found : Found) (wanted : Wanted)
  /-- A list that ends before the last of the fields it must hold. -/
  | tooFew (length : Nat) (form : String) (fields : Nat)
  /-- A list that goes on after the last field. -/
  | tooMany (length : Nat)
  | missing (field : String)
  | duplicate (field : String)
  | unknownField (field : String) (fields : List String)
  | unknownVariant (name : String) (names : List String)
  /-- A text that is no instant. -/
  | time (fault : TimeFault)
  deriving DecidableEq, Repr

namespace Found

/-- The wording of what was found. -/
def wording : Found → String
  | .null => "null"
  | .boolean true => "boolean `true`"
  | .boolean false => "boolean `false`"
  | .integer i => s!"integer `{i}`"
  | .float x => s!"floating point `{NumberStyle.document.render x}`"
  | .string s => "string " ++ Quoted.diagnostic s
  | .sequence => "sequence"
  | .map => "map"

end Found

/-- A value as messages name it. -/
def Json.found : Json → Found
  | .null => .null
  | .boolean b => .boolean b
  | .number (.integer i) => .integer i
  | .number (.float x) => .float x
  | .string s => .string s
  | .array _ => .sequence
  | .object _ => .map

namespace Wanted

/-- The wording of what is wanted. -/
def wording : Wanted → String
  | .number => "f64"
  | .string => "a string"
  | .size => "usize"
  | .nothing => "unit"
  | .list => "a sequence"
  | .variantName => "variant identifier"
  | .time => "an RFC 3339 formatted date and time string"
  | .form name => "struct " ++ name

end Wanted

namespace Mismatch

/-- The wording of a choice between names. -/
def choice : List String → String
  | [a, b] => s!"`{a}` or `{b}`"
  | names => "one of " ++ ", ".intercalate (names.map fun name => s!"`{name}`")

/-- The wording of a mismatch. -/
def message : Mismatch → String
  | .type found wanted => s!"invalid type: {found.wording}, expected {wanted.wording}"
  | .value found wanted => s!"invalid value: {found.wording}, expected {wanted.wording}"
  | .tooFew length form fields =>
    s!"invalid length {length}, expected struct {form} with {fields} elements"
  | .tooMany length => s!"invalid length {length}, expected fewer elements in array"
  | .missing field => s!"missing field `{field}`"
  | .duplicate field => s!"duplicate field `{field}`"
  | .unknownField field fields => s!"unknown field `{field}`, expected {choice fields}"
  | .unknownVariant name names => s!"unknown variant `{name}`, expected {choice names}"
  | .time fault => fault.message

end Mismatch

end CampusQuery
