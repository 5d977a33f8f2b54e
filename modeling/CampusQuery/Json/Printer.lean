import CampusQuery.Json.Value
import CampusQuery.Number.Text
import CampusQuery.Text.Quoted

/-!
# Compact JSON text

`Json.compact` writes a value without any blank: entries in order, strings as `Quoted.document`
writes them, integers in decimal digits and other numbers in `NumberStyle.document`.
-/

namespace CampusQuery

/-- A number as a document holds it. -/
def JsonNumber.text : JsonNumber → String
  | .integer i => toString i
  | .float x => NumberStyle.document.render x

namespace Json

mutual

/-- A text followed by a value. -/
def appendTo (out : String) : Json → String
  | .null => out ++ "null"
  | .boolean b => out ++ (if b then "true" else "false")
  | .number n => out ++ n.text
  | .string s => out ++ Quoted.document s
  | .array items => appendItems (out ++ "[") items ++ "]"
  | .object entries => appendEntries (out ++ "\x7b") entries ++ "\x7d"

/-- A text followed by the items of an array, separated by commas. -/
def appendItems (out : String) : List Json → String
  | [] => out
  | [item] => appendTo out item
  | item :: rest => appendItems (appendTo out item ++ ",") rest

/-- A text followed by the entries of an object, separated by commas. -/
def appendEntries (out : String) : List (String × Json) → String
  | [] => out
  | [(key, value)] => appendTo (out ++ Quoted.document key ++ ":") value
  | (key, value) :: rest =>
    appendEntries (appendTo (out ++ Quoted.document key ++ ":") value ++ ",") rest

end

/-- A value as compact text. -/
def compact (v : Json) : String :=
  appendTo "" v

end Json

end CampusQuery
