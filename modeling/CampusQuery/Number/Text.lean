import CampusQuery.Number.Shortest

/-!
# Numbers as text

`NumberStyle` holds what a written form decides beyond the digits: which numbers are written
without an exponent, whether a whole number keeps `.0`, and which of two equally near digits is
taken. `NumberStyle.document` is the form of numbers in documents and messages, `NumberStyle.plain`
the one without exponents that sums are read from.

`Binary64.ofText?` reads the usual written forms.
-/

namespace CampusQuery

/-- What a written form of numbers decides. -/
structure NumberStyle where
  /-- Whether a number whose first digit stands at this power of ten is written without an
  exponent. -/
  positional : Int → Bool
  /-- Whether a whole number without exponent ends in `.0`. -/
  keepsPoint : Bool
  /-- Which of two equally near last digits is taken. -/
  tie : Tie

namespace NumberStyle

/-- Numbers from `10⁻⁵` up to `10¹⁶` are written out and whole ones end in `.0`; the rest have an
exponent with its sign. -/
def document : NumberStyle :=
  ⟨fun power => -5 ≤ power && power < 16, true, .toEven⟩

/-- All digits are written out and whole numbers have no point. -/
def plain : NumberStyle :=
  ⟨fun _ => true, false, .up⟩

/-- Digits with the decimal point `places` from the right. -/
def withPoint (digits : String) (places : Nat) : String :=
  let padded := "".pushn '0' (places + 1 - digits.length) ++ digits
  let whole := padded.length - places
  s!"{(padded.take whole).toString}.{(padded.drop whole).toString}"

/-- The digits of a decimal without an exponent. -/
def renderPlain (style : NumberStyle) (s : Scientific) : String :=
  let digits := toString s.digits
  if s.exponent < 0 then withPoint digits (-s.exponent).toNat
  else digits.pushn '0' s.exponent.toNat ++ (if style.keepsPoint then ".0" else "")

/-- The digits of a decimal with one digit before the point and a signed exponent. -/
def renderExponent (digits : String) (power : Int) : String :=
  let lead := if digits.length ≤ 1 then digits else withPoint digits (digits.length - 1)
  let sign := if power < 0 then "-" else "+"
  s!"{lead}e{sign}{power.natAbs}"

/-- A number in the given form. -/
def render (style : NumberStyle) (x : Binary64) : String :=
  let s := x.shortest style.tie
  let digits := toString s.digits
  let power := s.exponent + digits.length - 1
  let body := if style.positional power then style.renderPlain s else renderExponent digits power
  if x.negative then "-" ++ body else body

end NumberStyle

/-! ## Reading -/

namespace Binary64

/-- The value of a list of decimal digits. -/
def digitsValue (cs : List Char) : Nat :=
  cs.foldl (fun n c => n * 10 + (c.toNat - '0'.toNat)) 0

/-- An optional sign and the rest. -/
def splitSign : List Char → Bool × List Char
  | '-' :: rest => (true, rest)
  | '+' :: rest => (false, rest)
  | rest => (false, rest)

/-- An exponent: nothing, or `e` or `E` and a signed integer that ends the text. -/
def exponentOfText? : List Char → Option Int
  | [] => some 0
  | mark :: rest =>
    let (negative, digits) := splitSign rest
    if (mark = 'e' ∨ mark = 'E') ∧ digits ≠ [] ∧ digits.all Char.isDigit then
      let size : Int := digitsValue digits
      some (if negative then -size else size)
    else
      none

/-- The number that a text such as `-12.5e3` denotes, if it is one within the format's range. There
is a digit before or after the point, and no blank anywhere. -/
def ofText? (text : String) : Option Binary64 :=
  let (negative, body) := splitSign text.toList
  let whole := body.takeWhile Char.isDigit
  let rest := body.dropWhile Char.isDigit
  let (fraction, rest) :=
    match rest with
    | '.' :: rest => (rest.takeWhile Char.isDigit, rest.dropWhile Char.isDigit)
    | rest => ([], rest)
  if whole = [] ∧ fraction = [] then none
  else do
    let exponent ← exponentOfText? rest
    ofDecimal negative (digitsValue (whole ++ fraction)) (exponent - fraction.length)

end Binary64

end CampusQuery
