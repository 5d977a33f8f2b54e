/-!
# Patterns

A pattern is a text with an asterisk at either end, both or neither, which stands for any text.

* `Pattern.ofText?` reads a pattern and refuses an asterisk anywhere else.
* `Pattern.accepts` says whether a text is of a pattern.
* `isWithin_iff` — `isWithin` finds a text within another.
-/

namespace CampusQuery

/-- A condition on a text. -/
inductive Pattern where
  | any
  | exact (text : String)
  | startsWith (text : String)
  | endsWith (text : String)
  | contains (text : String)
  deriving DecidableEq, Repr

/-- Whether characters stand next to each other, in order, within others. -/
def isWithin (part : List Char) : List Char → Bool
  | [] => part.isEmpty
  | c :: rest => part.isPrefixOf (c :: rest) || isWithin part rest

theorem isWithin_iff {part cs : List Char} : isWithin part cs = true ↔ part <:+: cs := by
  induction cs with
  | nil => simp [isWithin]
  | cons c rest ih => simp [isWithin, ih, List.infix_cons_iff]

namespace Pattern

/-- The mark that stands for any text. -/
def wildcard : Char := '*'

/-- The characters of a pattern that are left without a mark at either end. -/
def between (cs : List Char) : List Char :=
  let rest := if cs.head? == some wildcard then cs.tail else cs
  if cs.getLast? == some wildcard then rest.dropLast else rest

/-- Reads a pattern (`Pattern.parse`). -/
def ofText? (raw : String) : Option Pattern :=
  if raw = "*" ∨ raw = "**" then some .any
  else
    let cs := raw.toList
    if wildcard ∈ between cs then none
    else
      let text := String.ofList (between cs)
      match cs.head? == some wildcard, cs.getLast? == some wildcard with
      | true, true => some (.contains text)
      | true, false => some (.endsWith text)
      | false, true => some (.startsWith text)
      | false, false => some (.exact text)

/-- Whether a text is of a pattern (`Pattern.matches`). -/
def accepts : Pattern → String → Bool
  | .any, _ => true
  | .exact text, s => s == text
  | .startsWith text, s => text.toList.isPrefixOf s.toList
  | .endsWith text, s => text.toList.isSuffixOf s.toList
  | .contains text, s => isWithin text.toList s.toList

end Pattern

end CampusQuery
