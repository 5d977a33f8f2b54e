/-!
# Blank characters

`isBlank` is the Unicode property `White_Space`, and `isBlankText` says that a text has no other
character. `isControl` is the property of being a control character.
-/

namespace CampusQuery

/-- Whether a character is a blank: a tab, line or paragraph separator or any space. -/
def isBlank (c : Char) : Bool :=
  let n := c.toNat
  (0x09 ≤ n && n ≤ 0x0d) || n == 0x20 || n == 0x85 || n == 0xa0 || n == 0x1680 ||
    (0x2000 ≤ n && n ≤ 0x200a) || n == 0x2028 || n == 0x2029 || n == 0x202f || n == 0x205f ||
    n == 0x3000

/-- Whether a text has no character that is not a blank. -/
def isBlankText (s : String) : Bool :=
  s.toList.all isBlank

/-- Whether a character is a control character: below the space, or from `U+007F` to `U+009F`. -/
def isControl (c : Char) : Bool :=
  c.toNat < 0x20 || (0x7f ≤ c.toNat && c.toNat ≤ 0x9f)

end CampusQuery
