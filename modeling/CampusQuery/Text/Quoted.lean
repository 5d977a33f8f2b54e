import CampusQuery.Text.Visible

/-!
# Quoted text

`Quoted.diagnostic` writes a text between double quotes so that every character of it can be told
apart in a message: quotes and backslashes are escaped, and what is not visible is named.
`Quoted.document` writes it as documents hold it, escaping only what the format demands.
-/

namespace CampusQuery.Quoted

/-- A number in lower-case hexadecimal digits, at least `width` of them. -/
def hex (n width : Nat) : String :=
  let digits := String.ofList (Nat.toDigits 16 n)
  "".pushn '0' (width - digits.length) ++ digits

/-- A character within diagnostic quotes. -/
def diagnosticChar (c : Char) : String :=
  match c with
  | '"' => "\\\""
  | '\\' => "\\\\"
  | '\n' => "\\n"
  | '\r' => "\\r"
  | '\t' => "\\t"
  | '\x00' => "\\0"
  | c => if isVisible c then c.toString else "\\u\x7b" ++ hex c.toNat 1 ++ "\x7d"

/-- A text between double quotes, for a message. -/
def diagnostic (s : String) : String :=
  s.foldl (fun out c => out ++ diagnosticChar c) "\"" ++ "\""

/-- A character within the quotes of a document. -/
def documentChar (c : Char) : String :=
  match c with
  | '"' => "\\\""
  | '\\' => "\\\\"
  | '\n' => "\\n"
  | '\r' => "\\r"
  | '\t' => "\\t"
  | '\x08' => "\\b"
  | '\x0c' => "\\f"
  | c => if c.toNat < 0x20 then "\\u" ++ hex c.toNat 4 else c.toString

/-- A text between double quotes, as documents hold it. -/
def document (s : String) : String :=
  s.foldl (fun out c => out ++ documentChar c) "\"" ++ "\""

end CampusQuery.Quoted
