import CampusQuery.Text.Blank
import CampusQuery.Time.Calendar

/-!
# Instants

An `Instant` is a moment in coordinated universal time to the nanosecond; the second inserted at
the end of some minutes is the minute's last second held on to for another one.

* `Instant.text` writes an instant: date, `T`, time, a fraction of as few of 0, 3, 6 or 9 digits as
  lose nothing, and `Z`.
* `Instant.ofText` reads a date and time with an offset, blanks allowed between their parts, and
  says what is wrong with any other text.
-/

namespace CampusQuery

/-- A moment: a day from the first of January 1970, a second of it, and nanoseconds, which go on
past one second within an inserted one. -/
structure Instant where
  day : Int
  second : Nat
  nanosecond : Nat
  deriving DecidableEq, Repr, Inhabited

namespace Instant

/-- The first and the last year of an instant. -/
def firstYear : Int := -262143
def lastYear : Int := 262142

/-- Whether a clock can show an instant: within the years there are and the seconds of a day, and
past a whole second only in the last one of a minute. -/
def isValid (t : Instant) : Bool :=
  let year := (Date.ofDay t.day).year
  firstYear ≤ year && year ≤ lastYear && t.second < 86400 &&
    (t.nanosecond < 1000000000 || (t.second % 60 == 59 && t.nanosecond < 2000000000))

end Instant

/-- What is wrong with the text of an instant. -/
inductive TimeFault where
  | outOfRange
  | impossible
  | invalidCharacter
  | tooShort
  | trailing
  deriving DecidableEq, Repr

namespace TimeFault

/-- The wording of a fault. -/
def message : TimeFault → String
  | .outOfRange => "input is out of range"
  | .impossible => "no possible date and time matching input"
  | .invalidCharacter => "input contains invalid characters"
  | .tooShort => "premature end of input"
  | .trailing => "trailing input"

end TimeFault

namespace Instant

/-! ## Writing -/

/-- A number in at least `width` digits. -/
def padded (width n : Nat) : String :=
  let digits := toString n
  "".pushn '0' (width - digits.length) ++ digits

/-- A year of four digits, with a sign before year 0 and after year 9999. -/
def yearText (year : Int) : String :=
  if 0 ≤ year ∧ year ≤ 9999 then padded 4 year.natAbs
  else (if year < 0 then "-" else "+") ++ padded 4 year.natAbs

/-- The fraction of a second, of as few groups of three digits as lose nothing. -/
def fractionText (nanosecond : Nat) : String :=
  if nanosecond = 0 then ""
  else if nanosecond % 1000000 = 0 then "." ++ padded 3 (nanosecond / 1000000)
  else if nanosecond % 1000 = 0 then "." ++ padded 6 (nanosecond / 1000)
  else "." ++ padded 9 nanosecond

/-- An instant as text. -/
def text (t : Instant) : String :=
  let date := Date.ofDay t.day
  let inserted := t.nanosecond / 1000000000
  s!"{yearText date.year}-{padded 2 date.month}-{padded 2 date.day}T" ++
    s!"{padded 2 (t.second / 3600)}:{padded 2 (t.second / 60 % 60)}:" ++
    s!"{padded 2 (t.second % 60 + inserted)}{fractionText (t.nanosecond % 1000000000)}Z"

/-! ## Reading -/

/-- A text without its leading blanks. -/
def skipBlanks (cs : List Char) : List Char :=
  cs.dropWhile isBlank

/-- The number that the digits of a text denote. -/
def digitsValue (cs : List Char) : Nat :=
  cs.foldl (fun n c => n * 10 + (c.toNat - '0'.toNat)) 0

/-- One to `width` digits, or any number of them if there is no width. -/
def readNumber (width : Option Nat) (cs : List Char) : Except TimeFault (Nat × List Char) :=
  let digits := (match width with | some n => cs.take n | none => cs).takeWhile Char.isDigit
  if digits.isEmpty then .error (if cs.isEmpty then .tooShort else .invalidCharacter)
  else .ok (digitsValue digits, cs.drop digits.length)

/-- A given character. -/
def readChar (c : Char) (cs : List Char) : Except TimeFault (List Char) :=
  match cs with
  | [] => .error .tooShort
  | d :: rest => if d = c then .ok rest else .error .invalidCharacter

/-- A number of one or two digits between two bounds, behind blanks. -/
def readField (least greatest : Nat) (cs : List Char) : Except TimeFault (Nat × List Char) := do
  let (n, rest) ← readNumber (some 2) (skipBlanks cs)
  if least ≤ n ∧ n ≤ greatest then .ok (n, rest) else .error .outOfRange

/-- A year: up to four digits, or a sign and any number of them. -/
def readYear (cs : List Char) : Except TimeFault (Int × List Char) := do
  let bounded (year : Int) (rest : List Char) : Except TimeFault (Int × List Char) :=
    if -2147483648 ≤ year ∧ year ≤ 2147483647 then .ok (year, rest) else .error .outOfRange
  match skipBlanks cs with
  | '-' :: cs =>
    let (n, rest) ← readNumber none cs
    bounded (-(n : Int)) rest
  | '+' :: cs =>
    let (n, rest) ← readNumber none cs
    bounded n rest
  | cs =>
    let (n, rest) ← readNumber (some 4) cs
    bounded n rest

/-- A fraction of a second in nanoseconds, if there is one. Digits past the ninth are skipped. -/
def readFraction (cs : List Char) : Except TimeFault (Nat × List Char) :=
  match cs with
  | '.' :: cs => do
    let (n, rest) ← readNumber (some 9) cs
    let kept := cs.length - rest.length
    .ok (n * Nat.pow 10 (9 - kept), rest.dropWhile Char.isDigit)
  | cs => .ok (0, cs)

/-- Two digits. A text of fewer than two bytes is too short for them. -/
def readTwoDigits (cs : List Char) : Except TimeFault (Char × Char × List Char) :=
  match cs with
  | a :: b :: rest => if a.isDigit && b.isDigit then .ok (a, b, rest) else .error .invalidCharacter
  | [a] => .error (if a.utf8Size = 1 then .tooShort else .invalidCharacter)
  | [] => .error .tooShort

/-- An offset from universal time in seconds: `Z`, `UTC`, or a sign, two digits of hours and two of
minutes, with any colons and blanks between. -/
def readOffset (cs : List Char) : Except TimeFault (Int × List Char) := do
  if ((cs.take 3).map Char.toUpper) = ['U', 'T', 'C'] then .ok (0, cs.drop 3)
  else
    match cs with
    | [] => .error .tooShort
    | c :: rest =>
      if c = 'Z' ∨ c = 'z' then .ok (0, rest)
      else if c ≠ '+' ∧ c ≠ '-' ∧ c ≠ '−' then .error .invalidCharacter
      else
        let (h, i, rest) ← readTwoDigits rest
        let (m, n, rest) ← readTwoDigits (rest.dropWhile fun c => c == ':' || isBlank c)
        if '6' ≤ m then .error .outOfRange
        else
          let seconds : Int := (digitsValue [h, i] * 3600 + digitsValue [m, n] * 60 : Nat)
          .ok (if c = '+' then seconds else -seconds, rest)

/-- The instant at which clocks with the given offset show a date and time. -/
def ofLocal (date : Date) (second nanosecond : Nat) (offset : Int) : Except TimeFault Instant :=
  if !(date.isValid && firstYear ≤ date.year && date.year ≤ lastYear) then .error .outOfRange
  else if 86400 ≤ offset.natAbs then .error .outOfRange
  else
    let universal := (second : Int) - offset
    let day := date.toDay + universal.fdiv 86400
    let year := (Date.ofDay day).year
    if firstYear ≤ year ∧ year ≤ lastYear then
      .ok ⟨day, (universal.fmod 86400).toNat, nanosecond⟩
    else
      .error .impossible

/-- Reads a date and time with an offset. -/
def ofText (s : String) : Except TimeFault Instant := do
  let (year, cs) ← readYear s.toList
  let cs ← readChar '-' (skipBlanks cs)
  let (month, cs) ← readField 1 12 cs
  let cs ← readChar '-' (skipBlanks cs)
  let (day, cs) ← readField 1 31 cs
  let cs ←
    match cs with
    | [] => .error .tooShort
    | c :: rest =>
      if c = 'T' ∨ c = 't' ∨ c = ' ' then .ok rest else .error .invalidCharacter
  let (hour, cs) ← readField 0 23 cs
  let cs ← readChar ':' (skipBlanks cs)
  let (minute, cs) ← readField 0 59 cs
  let cs ← readChar ':' (skipBlanks cs)
  let (second, cs) ← readField 0 60 cs
  let (nanosecond, cs) ← readFraction cs
  let (offset, cs) ← readOffset (skipBlanks cs)
  if !(skipBlanks cs).isEmpty then .error .trailing
  else
    let inserted := second / 60
    ofLocal ⟨year, month, day⟩ (hour * 3600 + minute * 60 + (second - inserted))
      (nanosecond + inserted * 1000000000) offset

end Instant

end CampusQuery
