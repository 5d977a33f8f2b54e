import CampusQuery.Json.Mismatch
import CampusQuery.Json.Numeral

/-!
# Reading JSON text

A document is read from its bytes, left to right, into a `Json` value. The first fault ends the
reading; a `Failure` says what it is and how many bytes were then left, and `Failure.place` turns
that into a line and a column.

* `Json.read` reads a whole document that nests no deeper than a given limit.
* The other readers take the bytes that are left and give those left after them.

Text within quotes is read by a machine that sees one byte at a time, `readString`; lists and
objects by loops over `readItems` and `readEntries`, to which the reader of their values is given.
-/

namespace CampusQuery

/-- What is wrong with the text of a document. -/
inductive Fault where
  | endInValue
  | endInList
  | endInObject
  | endInString
  | noValue
  | noWord
  | noColon
  | noListComma
  | noObjectComma
  | trailingComma
  | trailingText
  | keyNotString
  | badNumber
  | numberRange
  | badEscape
  | loneSurrogate
  | cutSurrogate
  | badUnicode
  | control
  | tooDeep
  | mismatch (m : Mismatch)
  deriving DecidableEq, Repr

namespace Fault

/-- The wording of a fault. -/
def message : Fault → String
  | .endInValue => "EOF while parsing a value"
  | .endInList => "EOF while parsing a list"
  | .endInObject => "EOF while parsing an object"
  | .endInString => "EOF while parsing a string"
  | .noValue => "expected value"
  | .noWord => "expected ident"
  | .noColon => "expected `:`"
  | .noListComma => "expected `,` or `]`"
  | .noObjectComma => "expected `,` or `\x7d`"
  | .trailingComma => "trailing comma"
  | .trailingText => "trailing characters"
  | .keyNotString => "key must be a string"
  | .badNumber => "invalid number"
  | .numberRange => "number out of range"
  | .badEscape => "invalid escape"
  | .loneSurrogate => "lone leading surrogate in hex escape"
  | .cutSurrogate => "unexpected end of hex escape"
  | .badUnicode => "invalid unicode code point"
  | .control => "control character (\\u0000-\\u001F) found while parsing a string"
  | .tooDeep => "recursion limit exceeded"
  | .mismatch m => m.message

end Fault

/-- A fault and how many bytes of the document were left when it was found. -/
structure Failure where
  fault : Fault
  left : Nat
  deriving DecidableEq, Repr

/-- A fault at a line, from one, and after a number of bytes of that line. -/
structure ReadError where
  fault : Fault
  line : Nat
  column : Nat
  deriving DecidableEq, Repr

namespace ReadError

/-- The wording of a fault in its place. -/
def message (e : ReadError) : String :=
  s!"{e.fault.message} at line {e.line} column {e.column}"

end ReadError

/-- The failure of reading `document` in its place. -/
def Failure.place (f : Failure) (document : List UInt8) : ReadError :=
  let lines := (document.take (document.length - f.left)).splitOn '\n'.toUInt8
  ⟨f.fault, lines.length, (lines.getLastD []).length⟩

namespace Json

/-- Bytes that are left to read. -/
abbrev Bytes := List UInt8

/-- A reader takes a value off the bytes that are left. -/
abbrev Reader (α : Type) := Bytes → Except Failure (α × Bytes)

/-- Failing after what has been read. -/
def fail {α : Type} (fault : Fault) (rest : Bytes) : Except Failure α :=
  .error ⟨fault, rest.length⟩

/-- Failing at the next byte, if there is one. -/
def failAhead {α : Type} (fault : Fault) (rest : Bytes) : Except Failure α :=
  .error ⟨fault, rest.length - 1⟩

/-- Whether a byte may stand between the parts of a document. -/
def isSpace (c : UInt8) : Bool :=
  c == ' '.toUInt8 || c == '\n'.toUInt8 || c == '\t'.toUInt8 || c == '\r'.toUInt8

/-- Bytes without the spaces before them. -/
def skipSpace (rest : Bytes) : Bytes :=
  rest.dropWhile isSpace

/-! ## Words and numbers -/

/-- The rest of a word whose first letter was read. -/
def readWord (word : List Char) (rest : Bytes) : Except Failure Bytes :=
  match word, rest with
  | [], rest => .ok rest
  | _ :: _, [] => fail .endInValue []
  | c :: word, b :: rest => if b = c.toUInt8 then readWord word rest else fail .noWord rest

/-- Whether a byte is a decimal digit. -/
def isDigit (c : UInt8) : Bool :=
  '0'.toUInt8 ≤ c && c ≤ '9'.toUInt8

/-- Whether a digit comes next. -/
def digitAhead : Bytes → Bool
  | [] => false
  | c :: _ => isDigit c

/-- The digits of an exponent. There is none once it is past the largest of 31 bits, and then the
digits after the one that took it there are left. -/
def readExponentDigits (n : Nat) : Bytes → Option Nat × Bytes
  | [] => (some n, [])
  | c :: rest =>
    if isDigit c then
      let n := n * 10 + Numeral.digitValue c
      if n < Nat.pow 2 31 then readExponentDigits n rest else (none, rest)
    else
      (some n, c :: rest)

/-- The exponent of a number, from its sign on, after the digits before and after the point. Past 31
bits it makes the number zero or takes it out of range. -/
def readExponent (whole fraction : Bytes) : Reader Numeral := fun rest =>
  let (down, rest) :=
    match rest with
    | c :: after =>
      if c = '-'.toUInt8 then (true, after)
      else if c = '+'.toUInt8 then (false, after)
      else (false, rest)
    | [] => (false, [])
  match rest with
  | [] => fail .endInValue []
  | c :: after =>
    if isDigit c then
      match readExponentDigits 0 rest with
      | (some size, rest) =>
        .ok (⟨whole, fraction, some (if down then -(size : Int) else size)⟩, rest)
      | (none, rest) =>
        if (Numeral.mk whole fraction none).significand = 0 ∨ down then
          .ok (.zero, rest.dropWhile isDigit)
        else
          fail .numberRange rest
    else
      fail .badNumber after

/-- The exponent of a number, if it has one. -/
def readExponent? (whole fraction : Bytes) : Reader Numeral := fun rest =>
  match rest with
  | c :: after =>
    if c = 'e'.toUInt8 ∨ c = 'E'.toUInt8 then readExponent whole fraction after
    else .ok (⟨whole, fraction, none⟩, rest)
  | [] => .ok (⟨whole, fraction, none⟩, [])

/-- The text of a number after its sign. -/
def readNumeral : Reader Numeral := fun rest =>
  match rest with
  | [] => fail .endInValue []
  | c :: after =>
    if !isDigit c then fail .badNumber after
    else if c = '0'.toUInt8 ∧ digitAhead after then failAhead .badNumber after
    else
      let whole := rest.takeWhile isDigit
      match rest.dropWhile isDigit with
      | [] => .ok (⟨whole, [], none⟩, [])
      | mark :: after =>
        if mark = '.'.toUInt8 then
          if digitAhead after then
            readExponent? whole (after.takeWhile isDigit) (after.dropWhile isDigit)
          else
            failAhead (if after.isEmpty then .endInValue else .badNumber) after
        else
          readExponent? whole [] (mark :: after)

/-- A number after its sign. -/
def readNumber (negative : Bool) : Reader JsonNumber := fun rest => do
  let (a, rest) ← readNumeral rest
  match JsonNumber.ofNumeral? negative a with
  | some n => return (n, rest)
  | none => fail .numberRange rest

/-! ## Strings -/

/-- The value of a hexadecimal digit. -/
def hexDigit? (c : UInt8) : Option Nat :=
  let n := c.toNat
  if isDigit c then some (n - '0'.toNat)
  else if 'a'.toNat ≤ n ∧ n ≤ 'f'.toNat then some (n - 'a'.toNat + 10)
  else if 'A'.toNat ≤ n ∧ n ≤ 'F'.toNat then some (n - 'A'.toNat + 10)
  else none

/-- The character that an escape of one letter stands for. -/
def escaped? (c : UInt8) : Option Char :=
  match Char.ofNat c.toNat with
  | '"' => some '"'
  | '\\' => some '\\'
  | '/' => some '/'
  | 'b' => some '\x08'
  | 'f' => some '\x0c'
  | 'n' => some '\n'
  | 'r' => some '\r'
  | 't' => some '\t'
  | _ => none

/-- Where within a string the reading is. -/
inductive Escape where
  /-- Between escapes. -/
  | none
  /-- After a backslash. -/
  | mark
  /-- Within a hexadecimal escape of which `left` digits are to come; those before make `value`,
  unless one of them is no digit. The first half of a pair may stand before it. -/
  | digits (first : Option Nat) (left : Nat) (value : Option Nat)
  /-- After the first half of a pair: a backslash must come. -/
  | pair (first : Nat)
  /-- After that backslash: the letter `u` must come. -/
  | pairMark (first : Nat)

/-- Where the reading is after a hexadecimal escape with the given value, and the character that is
complete with it. -/
def Escape.afterDigits (first : Option Nat) (value : Nat) : Except Fault (Escape × Option Char) :=
  match first with
  | some first =>
    if 0xdc00 ≤ value ∧ value ≤ 0xdfff then
      .ok (.none, some (Char.ofNat ((first - 0xd800) * 0x400 + (value - 0xdc00) + 0x10000)))
    else
      .error .loneSurrogate
  | Option.none =>
    if 0xdc00 ≤ value ∧ value ≤ 0xdfff then .error .loneSurrogate
    else if 0xd800 ≤ value ∧ value ≤ 0xdbff then .ok (.pair value, Option.none)
    else .ok (.none, some (Char.ofNat value))

/-- Bytes followed by those of a character. -/
def pushChar (out : ByteArray) (c : Char) : ByteArray :=
  out ++ c.toString.toUTF8

/-- A string from after its first quote, or from within an escape; `out` holds what was read of
it. -/
def readStringFrom (out : ByteArray) (escape : Escape) : Reader String := fun rest =>
  match rest with
  | [] => fail .endInString []
  | c :: rest =>
    match escape with
    | .none =>
      if c = '"'.toUInt8 then
        match String.fromUTF8? out with
        | some s => .ok (s, rest)
        | Option.none => fail .badUnicode (c :: rest)
      else if c = '\\'.toUInt8 then readStringFrom out .mark rest
      else if c < ' '.toUInt8 then fail .control rest
      else readStringFrom (out.push c) .none rest
    | .mark =>
      if c = 'u'.toUInt8 then readStringFrom out (.digits Option.none 4 (some 0)) rest
      else
        match escaped? c with
        | some d => readStringFrom (pushChar out d) .none rest
        | Option.none => fail .badEscape rest
    | .digits first left value =>
      let value := do return (← value) * 16 + (← hexDigit? c)
      if 1 < left then readStringFrom out (.digits first (left - 1) value) rest
      else
        match value with
        | Option.none => fail .badEscape rest
        | some value =>
          match Escape.afterDigits first value with
          | .ok (escape, some d) => readStringFrom (pushChar out d) escape rest
          | .ok (escape, Option.none) => readStringFrom out escape rest
          | .error fault => fail fault rest
    | .pair first =>
      if c = '\\'.toUInt8 then readStringFrom out (.pairMark first) rest
      else fail .cutSurrogate rest
    | .pairMark first =>
      if c = 'u'.toUInt8 then readStringFrom out (.digits (some first) 4 (some 0)) rest
      else fail .cutSurrogate rest

/-- A string from after its first quote. -/
def readString : Reader String :=
  readStringFrom .empty .none

/-! ## Lists and objects -/

/-- Whether another item of a list comes next; if so, the bytes from it on. -/
def nextItem (first : Bool) (rest : Bytes) : Except Failure (Option Bytes) :=
  match skipSpace rest with
  | [] => failAhead .endInList []
  | c :: after =>
    if c = ']'.toUInt8 then .ok none
    else if first then .ok (some (c :: after))
    else if c = ','.toUInt8 then
      match skipSpace after with
      | [] => failAhead .endInValue []
      | d :: after =>
        if d = ']'.toUInt8 then failAhead .trailingComma (d :: after) else .ok (some (d :: after))
    else
      failAhead .noListComma (c :: after)

/-- The end of a list. -/
def closeList (rest : Bytes) : Except Failure Bytes :=
  match skipSpace rest with
  | [] => failAhead .endInList []
  | c :: after =>
    if c = ']'.toUInt8 then .ok after
    else if c = ','.toUInt8 then
      let rest := skipSpace after
      if rest.head? = some ']'.toUInt8 then failAhead .trailingComma rest
      else failAhead .trailingText rest
    else
      failAhead .trailingText (c :: after)

/-- The items of a list up to its bracket, at most `bound` of them. -/
def readItems {α : Type} (item : Reader α) : Nat → Bool → Reader (List α)
  | 0, _, rest => .ok ([], rest)
  | bound + 1, first, rest => do
    match ← nextItem first rest with
    | none => return ([], rest)
    | some rest =>
      let (x, rest) ← item rest
      let (xs, rest) ← readItems item bound false rest
      return (x :: xs, rest)

/-- The key of an entry, from its quote on. -/
def readKey : Reader String := fun rest =>
  match rest with
  | [] => failAhead .endInValue []
  | c :: after =>
    if c = '"'.toUInt8 then readString after
    else failAhead .keyNotString rest

/-- The key of the next entry of an object, if there is one. -/
def nextKey (first : Bool) (rest : Bytes) : Except Failure (Option (String × Bytes)) :=
  match skipSpace rest with
  | [] => failAhead .endInObject []
  | c :: after =>
    if c = '\x7d'.toUInt8 then .ok none
    else if first then some <$> readKey (c :: after)
    else if c = ','.toUInt8 then
      let rest := skipSpace after
      if rest.head? = some '\x7d'.toUInt8 then failAhead .trailingComma rest
      else some <$> readKey rest
    else
      failAhead .noObjectComma (c :: after)

/-- The colon after a key. -/
def readColon (rest : Bytes) : Except Failure Bytes :=
  match skipSpace rest with
  | [] => failAhead .endInObject []
  | c :: after => if c = ':'.toUInt8 then .ok after else failAhead .noColon (c :: after)

/-- The end of an object. -/
def closeObject (rest : Bytes) : Except Failure Bytes :=
  match skipSpace rest with
  | [] => failAhead .endInObject []
  | c :: after =>
    if c = '\x7d'.toUInt8 then .ok after
    else if c = ','.toUInt8 then failAhead .trailingComma (c :: after)
    else failAhead .trailingText (c :: after)

/-- The entries of an object up to its brace, at most `bound` of them. -/
def readEntries {α : Type} (value : Reader α) : Nat → Bool → Reader (List (String × α))
  | 0, _, rest => .ok ([], rest)
  | bound + 1, first, rest => do
    match ← nextKey first rest with
    | none => return ([], rest)
    | some (key, rest) =>
      let (x, rest) ← value (← readColon rest)
      let (xs, rest) ← readEntries value bound false rest
      return ((key, x) :: xs, rest)

/-! ## Values -/

/-- A value that holds no other: a word, a number or a string. -/
def readScalar : Reader Json := fun rest =>
  match rest with
  | [] => failAhead .endInValue []
  | c :: after =>
    match Char.ofNat c.toNat with
    | 'n' => do return (.null, ← readWord ['u', 'l', 'l'] after)
    | 't' => do return (.boolean true, ← readWord ['r', 'u', 'e'] after)
    | 'f' => do return (.boolean false, ← readWord ['a', 'l', 's', 'e'] after)
    | '"' => do
      let (s, rest) ← readString after
      return (.string s, rest)
    | '-' => do
      let (n, rest) ← readNumber true after
      return (.number n, rest)
    | _ =>
      if isDigit c then do
        let (n, rest) ← readNumber false rest
        return (.number n, rest)
      else
        failAhead .noValue rest

/-- A value, in which at most `depth` lists and objects stand within each other, each of no more
than `bound` items. Of two entries with one key the last counts, in the place of the first. -/
def readValue (bound : Nat) : Nat → Reader Json
  | depth, rest =>
    match skipSpace rest with
    | [] => failAhead .endInValue []
    | c :: after =>
      if c = '['.toUInt8 then
        match depth with
        | 0 => failAhead .tooDeep (c :: after)
        | depth + 1 => do
          let (items, rest) ← readItems (readValue bound depth) bound true after
          return (.array items, ← closeList rest)
      else if c = '\x7b'.toUInt8 then
        match depth with
        | 0 => failAhead .tooDeep (c :: after)
        | depth + 1 => do
          let (entries, rest) ← readEntries (readValue bound depth) bound true after
          return (.object (insertAll entries), ← closeObject rest)
      else
        readScalar (c :: after)

/-- How deep the lists and objects of a document may stand within each other. -/
def nestingLimit : Nat := 127

/-- A whole document: what a reader takes and nothing else. -/
def readWhole {α : Type} (reader : Reader α) (document : Bytes) : Except ReadError α :=
  let result := do
    let (x, rest) ← reader document
    match skipSpace rest with
    | [] => .ok x
    | rest => failAhead .trailingText rest
  match result with
  | .ok x => .ok x
  | .error failure => .error (failure.place document)

/-- Reads a document whose lists and objects stand no deeper than `depth` within each other. -/
def read (depth : Nat) (document : Bytes) : Except ReadError Json :=
  readWhole (readValue document.length depth) document

/-- Reads a document from text. -/
def ofText (s : String) : Except ReadError Json :=
  read nestingLimit s.toUTF8.toList

end Json

end CampusQuery
