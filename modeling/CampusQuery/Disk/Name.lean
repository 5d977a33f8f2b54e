import CampusQuery.Disk.Path

/-!
# Names in directories

A name in a directory is a sequence of bytes. Most are the bytes of a text, and only under such
names does the program make files, but a directory that it lists may hold others.

* `RawName.shown` spells a name that is not a text as messages do.
* `Name.hasExtension`, `Name.stem?` and `Name.within` divide a name and put it behind a directory.
-/

namespace CampusQuery

/-- Bytes that are not those of a text. -/
abbrev RawName : Type :=
  { bytes : List UInt8 // String.fromUTF8? (ByteArray.mk bytes.toArray) = none }

/-- A name in a directory. -/
inductive Name where
  | text (s : String)
  | raw (name : RawName)
  deriving DecidableEq, Repr

namespace RawName

/-- A character of which the first bytes have been read: what they contribute, how many are to come
and between which the next has to be. -/
structure Begun where
  value : Nat
  left : Nat
  least : UInt8
  greatest : UInt8

/-- The character that a byte is outside of one, or the one that it begins. A byte that does neither
is shown as the character `U+FFFD`. -/
def begin (b : UInt8) : List Char × Option Begun :=
  if b < 0x80 then ([Char.ofNat b.toNat], none)
  else if 0xc2 ≤ b ∧ b ≤ 0xdf then ([], some ⟨b.toNat - 0xc0, 1, 0x80, 0xbf⟩)
  else if 0xe0 ≤ b ∧ b ≤ 0xef then
    ([], some ⟨b.toNat - 0xe0, 2, if b = 0xe0 then 0xa0 else 0x80, if b = 0xed then 0x9f else 0xbf⟩)
  else if 0xf0 ≤ b ∧ b ≤ 0xf4 then
    ([], some ⟨b.toNat - 0xf0, 3, if b = 0xf0 then 0x90 else 0x80, if b = 0xf4 then 0x8f else 0xbf⟩)
  else (['\ufffd'], none)

/-- What a byte adds, and the character that is begun after it. Bytes that have begun one with which
the next does not go on are shown as one character `U+FFFD`. -/
def step (begun : Option Begun) (b : UInt8) : List Char × Option Begun :=
  match begun with
  | none => begin b
  | some c =>
    if c.least ≤ b ∧ b ≤ c.greatest then
      let value := c.value * 64 + (b.toNat - 0x80)
      if c.left = 1 then ([Char.ofNat value], none) else ([], some ⟨value, c.left - 1, 0x80, 0xbf⟩)
    else
      let (characters, begun) := begin b
      ('\ufffd' :: characters, begun)

/-- The characters of some bytes, after those that have begun one. -/
def characters (begun : Option Begun) : List UInt8 → List Char
  | [] => if begun.isSome then ['\ufffd'] else []
  | b :: rest =>
    let (before, begun) := step begun b
    before ++ characters begun rest

/-- A name that is not a text as messages show it. -/
def shown (name : RawName) : String :=
  String.ofList (characters none name.1)

end RawName

namespace Name

/-- The bytes of a name. -/
def bytes : Name → List UInt8
  | .text s => s.toUTF8.toList
  | .raw name => name.1

/-- Whether a name has a given extension, in which there is no dot. -/
def hasExtension (extension : String) : Name → Bool
  | .text s => Path.extension? s == some extension
  | .raw name => ("." ++ extension).toUTF8.toList.isSuffixOf name.1

/-- A name without its extension, if it is a text. -/
def stem? : Name → Option String
  | .text s => some (Path.stem s)
  | .raw _ => none

/-- The path of a name within a directory, as messages show it. -/
def within (directory : String) : Name → String
  | .text s => Path.join directory s
  | .raw name => Path.join directory name.shown

end Name

end CampusQuery
