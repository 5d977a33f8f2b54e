import CampusQuery.Json.Reader

/-!
# Passing over a value

A value that nobody asked for is passed over without being built: it may nest as deep as it likes
and its strings need not be text, but its brackets, commas, colons and escapes must stand where they
belong. `Json.skipValue` keeps the open brackets in a list, innermost first.
-/

namespace CampusQuery

/-- The bracket that opened what is being passed over. -/
inductive Bracket where
  | list
  | object
  deriving DecidableEq, Repr

namespace Bracket

/-- The byte that closes a bracket. -/
def close : Bracket → UInt8
  | .list => ']'.toUInt8
  | .object => '\x7d'.toUInt8

/-- The fault of ending within a bracket. -/
def atEnd : Bracket → Fault
  | .list => .endInList
  | .object => .endInObject

/-- The fault of a missing comma within a bracket. -/
def noComma : Bracket → Fault
  | .list => .noListComma
  | .object => .noObjectComma

end Bracket

namespace Json

/-- Passes over a string from after its first quote; `escaped` says that a backslash stands
before, and `digits` how many hexadecimal digits of an escape are to come, with whether all so far
were digits. -/
def skipString (escaped : Bool) (digits : Nat) (good : Bool) (rest : Bytes) :
    Except Failure Bytes :=
  match rest with
  | [] => fail .endInString []
  | c :: rest =>
    if 0 < digits then
      let good := good && (hexDigit? c).isSome
      if digits = 1 ∧ !good then fail .badEscape rest else skipString false (digits - 1) good rest
    else if escaped then
      if c = 'u'.toUInt8 then skipString false 4 true rest
      else if (escaped? c).isSome then skipString false 0 true rest
      else fail .badEscape rest
    else if c = '"'.toUInt8 then .ok rest
    else if c = '\\'.toUInt8 then skipString true 0 true rest
    else if c < ' '.toUInt8 then fail .control (c :: rest)
    else skipString false 0 true rest

/-- Passes over the exponent of a number, if it has one. -/
def skipExponent (rest : Bytes) : Except Failure Bytes :=
  match rest with
  | [] => .ok []
  | c :: after =>
    if c = 'e'.toUInt8 ∨ c = 'E'.toUInt8 then
      let after :=
        match after with
        | [] => []
        | sign :: rest => if sign = '-'.toUInt8 ∨ sign = '+'.toUInt8 then rest else after
      if digitAhead after then .ok (after.dropWhile isDigit) else failAhead .badNumber after
    else
      .ok rest

/-- Passes over a number after its sign. -/
def skipNumber (rest : Bytes) : Except Failure Bytes :=
  match rest with
  | [] => fail .badNumber []
  | c :: after =>
    if !isDigit c then fail .badNumber after
    else if c = '0'.toUInt8 ∧ digitAhead after then failAhead .badNumber after
    else
      match rest.dropWhile isDigit with
      | [] => .ok []
      | mark :: after =>
        if mark = '.'.toUInt8 then
          if digitAhead after then skipExponent (after.dropWhile isDigit)
          else failAhead .badNumber after
        else
          skipExponent (mark :: after)

/-- Passes over a key and its colon. -/
def skipKey (rest : Bytes) : Except Failure Bytes :=
  match skipSpace rest with
  | [] => failAhead .endInObject []
  | c :: after =>
    if c = '"'.toUInt8 then do readColon (← skipString false 0 true after)
    else failAhead .keyNotString (c :: after)

/-- Passes over what comes before an item of the innermost bracket. -/
def skipToItem (open_ : Bracket) (rest : Bytes) : Except Failure Bytes :=
  match open_ with
  | .list => .ok rest
  | .object => skipKey rest

/-- Passes over what comes after an item, closing brackets, up to the next item; no brackets are
left where the outermost is closed. -/
def skipPastItem : List Bracket → Bytes → Except Failure (List Bracket × Bytes)
  | [], rest => .ok ([], rest)
  | open_ :: outer, rest =>
    match skipSpace rest with
    | [] => failAhead open_.atEnd []
    | c :: after =>
      if c = ','.toUInt8 then do return (open_ :: outer, ← skipToItem open_ after)
      else if c = open_.close then skipPastItem outer after
      else failAhead open_.noComma (c :: after)

/-- Passes over what comes after an opening bracket, up to the first item within or the next one
after it. -/
def skipPastOpen (open_ : Bracket) (outer : List Bracket) (rest : Bytes) :
    Except Failure (List Bracket × Bytes) :=
  match skipSpace rest with
  | [] => failAhead open_.atEnd []
  | c :: after =>
    if c = open_.close then skipPastItem outer after
    else do return (open_ :: outer, ← skipToItem open_ (c :: after))

/-- Passes over a value that holds no other. -/
def skipScalar (rest : Bytes) : Except Failure Bytes :=
  match rest with
  | [] => failAhead .endInValue []
  | c :: after =>
    match Char.ofNat c.toNat with
    | 'n' => readWord ['u', 'l', 'l'] after
    | 't' => readWord ['r', 'u', 'e'] after
    | 'f' => readWord ['a', 'l', 's', 'e'] after
    | '"' => skipString false 0 true after
    | '-' => skipNumber after
    | _ => if isDigit c then skipNumber rest else failAhead .noValue rest

/-- Passes over a value within open brackets and over what follows it until they are closed, in at
most `bound` steps. -/
def skipWithin : Nat → List Bracket → Bytes → Except Failure Bytes
  | 0, _, rest => .ok rest
  | bound + 1, outer, rest => do
    let (outer, rest) ←
      match skipSpace rest with
      | [] => failAhead .endInValue []
      | c :: after =>
        if c = '['.toUInt8 then skipPastOpen .list outer after
        else if c = '\x7b'.toUInt8 then skipPastOpen .object outer after
        else do skipPastItem outer (← skipScalar (c :: after))
    if outer.isEmpty then return rest else skipWithin bound outer rest

/-- Passes over a value of no more than `bound` parts. -/
def skipValue (bound : Nat) (rest : Bytes) : Except Failure Bytes :=
  skipWithin bound [] rest

end Json

end CampusQuery
