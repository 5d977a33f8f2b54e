import CampusQuery.Text.Blank
import CampusQuery.Text.Collator
import CampusQuery.Text.Decomposition

/-!
# A collator from tables

Texts are ordered by their letters first, then by accents, then by case and the like. Each character
stands for `Weight`s of three levels, and two texts compare by their nonzero weights of the first
level, then of the second, then of the third; a list of weights that begins another is the smaller.
Blanks and punctuation count as letters, and control characters not at all.

The tables hold a small part of the root collation, so that the program can be run: the letters of
Latin, Greek and Russian and a few more, with the marks of `accents`, the signs of `letters`, some
hiragana and katakana, the Hangul syllables and the unified Han characters. Any other character, be
it a mark such as `U+0309` or a letter of another script, has one weight greater than all these,
which is not its place in the root collation. So the tables are one consistent collator among
others, and agree with the root collation on texts of the characters that they list.

* `Collation.order` — the comparison by the tables.
-/

namespace CampusQuery

namespace Collation

/-! ## Tables -/

/-- The characters with a letter weight of their own, from least to greatest. Han characters come
after all of these. -/
def letters : String :=
  "\t\n\x0b\r\u0085 _-‐–—,;:!¡?¿.·'\"«»()[]{}§¶@*/\\&#%`´^¯¨¸°©®←→+±÷×<=>¬|¦~⁄★☆♥🎓😀¤¢$£¥€" ++
  "0123456789abcdefghiıjklmnŋopqĸrstŧuvwxyzƶþʼαβγδεζηθικλμνξοπρστυφχψω" ++
  "абвгдежзиклмнопрстуфхцчшщъыьэюя"

/-- The kana with a letter weight of their own, from least to greatest. -/
def kana : String := "あいうえおかきくけこさしすせそた"

/-- The combining marks, from the least accent to the greatest. -/
def accents : String :=
  "\u0301\u0300\u0306\u0302\u030c\u030a\u0308\u030b\u0303\u0307\u0338\u0327\u0328\u0304\u3099\u0335\u0323"

/-- The third weight of a character as it stands. -/
def common : Nat := 2

/-- For a third weight, letters in turn with the form of them that has it: wide, compatible,
encircled, upper case, wide upper case, small and full hiragana, small and full katakana, raised,
final and unbreakable. -/
def forms : List (Nat × String) := [
  (3, " \u3000aａ"),
  (4, " \u2003μµ"),
  (6, "1①"),
  (8, "aAbBcCdDeEfFgGhHiIjJkKlLmMnNŋŊoOpPqQrRsStTŧŦuUvVwWxXyYzZþÞ"),
  (8, "αΑβΒγΓδΔεΕζΖηΗθΘιΙκΚλΛμΜνΝξΞοΟπΠρΡσΣτΤυΥφΦχΧψΨωΩ"),
  (8, "аАбБвВгГдДеЕжЖзЗиИкКлЛмМнНоОпПрРсСтТуУфФхХцЦчЧшШщЩъЪыЫьЬэЭюЮяЯ"),
  (9, "aＡ"),
  (13, "あぁいぃうぅえぇおぉ"),
  (14, "ああいいううええおおかかききくくけけここささししすすせせそそたた"),
  (15, "あァいィうゥえェおォ"),
  (17, "あアいイうウえエおオかカきキくクけケこコさサしシすスせセそソたタ"),
  (20, "aªoº1¹2²3³"),
  (25, "σς"),
  (27, " \u00a0")
]

/-- What a part of an expansion adds: a letter as it stands elsewhere, or an accent that no mark
writes. -/
inductive Part where
  | letter (c : Char)
  | accent (rank : Nat)

/-- Characters that weigh like several, with the third weight of all their parts where it is not
that of the parts themselves. -/
def expansions : List (Char × Option Nat × List Part) := [
  ('ĳ', some 4, [.letter 'i', .letter 'j']), ('Ĳ', some 10, [.letter 'i', .letter 'j']),
  ('ŉ', some 4, [.letter 'ʼ', .letter 'n']),
  ('ǆ', some 4, [.letter 'd', .letter 'z', .letter '\u030c']),
  ('ﬁ', some 4, [.letter 'f', .letter 'i']), ('ﬂ', some 4, [.letter 'f', .letter 'l']),
  ('™', some 20, [.letter 't', .letter 'm']),
  ('¼', some 30, [.letter '1', .letter '⁄', .letter '4']),
  ('½', some 30, [.letter '1', .letter '⁄', .letter '2']),
  ('¾', some 30, [.letter '3', .letter '⁄', .letter '4']),
  ('…', some 4, [.letter '.', .letter '.', .letter '.']),
  ('æ', some 4, [.letter 'a', .accent 0, .letter 'e']),
  ('Æ', some 10, [.letter 'a', .accent 0, .letter 'e']),
  ('œ', some 4, [.letter 'o', .accent 0, .letter 'e']),
  ('Œ', some 10, [.letter 'o', .accent 0, .letter 'e']),
  ('ß', some 4, [.letter 's', .accent 0, .letter 's']),
  ('ẞ', some 10, [.letter 's', .accent 0, .letter 's']),
  ('ø', none, [.letter 'o', .letter '\u0338']), ('Ø', none, [.letter 'O', .letter '\u0338']),
  ('đ', none, [.letter 'd', .letter '\u0335']), ('Đ', none, [.letter 'D', .letter '\u0335']),
  ('ł', none, [.letter 'l', .letter '\u0335']), ('Ł', none, [.letter 'L', .letter '\u0335']),
  ('ħ', none, [.letter 'h', .letter '\u0335']), ('Ħ', none, [.letter 'H', .letter '\u0335']),
  ('ŀ', none, [.letter 'l', .accent 0]), ('Ŀ', none, [.letter 'L', .accent 0]),
  ('ð', none, [.letter 'd', .accent 0]), ('Ð', none, [.letter 'D', .accent 0]),
  ('ſ', some 4, [.letter 's', .accent 0]),
  ('٢', none, [.letter '2']),
  ('‘', none, [.letter '\'', .accent 0]), ('’', none, [.letter '\'', .accent 1]),
  ('“', none, [.letter '"', .accent 0]), ('”', none, [.letter '"', .accent 1])
]

/-! ## Weights -/

/-- The weights of a character or a part of one: letter, accent and form. -/
structure Weight where
  letter : Nat
  accent : Nat
  form : Nat
  deriving DecidableEq, Repr

/-- The accent weight of a letter without accent. -/
def unaccented : Nat := 1

/-- The weights of an accent that no mark writes; these are greater than all marks. -/
def hiddenAccent (rank form : Nat) : Weight :=
  ⟨0, unaccented + accents.length + 1 + rank, form⟩

/-- The single weights of the characters that the tables list by themselves, by code point. -/
def listedWeights : Std.HashMap Nat Weight :=
  let plain := letters.toList.zipIdx.map fun (c, i) => (c.toNat, Weight.mk (i + 1) unaccented common)
  let kana := kana.toList.zipIdx.map fun (c, i) =>
    (c.toNat, Weight.mk (2000 + i) unaccented common)
  let marks := accents.toList.zipIdx.map fun (c, i) =>
    (c.toNat, Weight.mk 0 (unaccented + 1 + i) common)
  let base : Std.HashMap Nat Weight := Std.HashMap.ofList (plain ++ kana ++ marks)
  forms.foldl (fun table (form, pairs) =>
    (inPairs pairs.toList).foldl (fun table (c, variant) =>
      match base[c.toNat]? with
      | some w => table.insert variant.toNat ⟨w.letter, w.accent, form⟩
      | none => table) table) base

/-- Whether a character has no weight at all: control characters and invisible joiners. -/
def isIgnored (c : Char) : Bool :=
  isControl c || c == '\u00ad' || ('\u200b' ≤ c && c ≤ '\u200f') || c == '\u2060' || c == '\ufeff'

/-- The letter weight of a character that no table lists: conjoining Hangul in code point order
before kana, then Han of the first block, Han of the extensions, and the rest. -/
def unlistedLetter (c : Char) : Nat :=
  let n := c.toNat
  if 0x1100 ≤ n ∧ n ≤ 0x11ff then 1000 + (n - 0x1100)
  else if 0x4e00 ≤ n ∧ n ≤ 0x9fff then 0x200000 + n
  else if (0x3400 ≤ n ∧ n ≤ 0x4dbf) ∨ (0x20000 ≤ n ∧ n ≤ 0x323af) then 0x400000 + n
  else 0x600000 + n

/-- The weight of a character that does not expand. -/
def singleWeight (c : Char) : Weight :=
  match listedWeights[c.toNat]? with
  | some w => w
  | none => if isIgnored c then ⟨0, 0, 0⟩ else ⟨unlistedLetter c, unaccented, common⟩

/-- The weight of a part of an expansion. -/
def partWeight (form : Option Nat) : Part → Weight
  | .letter c =>
    let w := singleWeight c
    ⟨w.letter, w.accent, form.getD w.form⟩
  | .accent rank => hiddenAccent rank (form.getD common)

/-- The weights of the characters that expand, by code point. -/
def expandedWeights : Std.HashMap Nat (List Weight) :=
  Std.HashMap.ofList (expansions.map fun (c, form, parts) =>
    (c.toNat, parts.map (partWeight form)))

/-- The weights of a character. -/
def charWeights (c : Char) : List Weight :=
  match expandedWeights[c.toNat]? with
  | some ws => ws
  | none => [singleWeight c]

/-- The weights of a decomposed text. A raised dot after `l` is an accent of it. -/
def weights : List Char → List Weight
  | [] => []
  | [c] => charWeights c
  | c :: d :: rest =>
    if (c = 'l' ∨ c = 'L') ∧ d = '·' then charWeights c ++ hiddenAccent 0 common :: weights rest
    else charWeights c ++ weights (d :: rest)

/-! ## Comparing -/

/-- What of a text is compared: the nonzero weights of each level. -/
structure Key where
  letters : List Nat
  accents : List Nat
  forms : List Nat
  deriving DecidableEq, Repr

/-- The key of a text. -/
def key (s : String) : Key :=
  let ws := weights (decompose s)
  let level (f : Weight → Nat) := (ws.map f).filter (· ≠ 0)
  ⟨level Weight.letter, level Weight.accent, level Weight.form⟩

/-- The order of keys: letters, then accents, then forms. -/
def Key.order (a b : Key) : Ordering :=
  ((compare a.letters b.letters).then (compare a.accents b.accents)).then (compare a.forms b.forms)

instance : Std.TransCmp Key.order :=
  inferInstanceAs (Std.TransCmp
    (compareLex (compareLex (compareOn Key.letters) (compareOn Key.accents)) (compareOn Key.forms)))

/-- The order of two texts by their keys. -/
def order (a b : String) : Ordering :=
  (key a).order (key b)

instance : Std.TransCmp order :=
  letI : Ord Key := ⟨Key.order⟩
  haveI : Std.TransOrd Key := inferInstanceAs (Std.TransCmp Key.order)
  inferInstanceAs (Std.TransCmp (compareOn key))

/-- The collator of the tables. -/
instance tables : Collator :=
  ⟨order, inferInstance⟩

end Collation

end CampusQuery
