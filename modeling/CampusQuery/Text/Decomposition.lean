import Std.Data.HashMap.Basic

/-!
# Canonical decomposition

`decompose` takes letters apart into a base letter and combining marks, and puts marks that follow
one another into their canonical order, so that texts which only differ in how accents are written
decompose alike. The tables hold the marks of `markClasses` and the letters composed with these over
the Latin, Greek, Cyrillic and kana alphabets; Hangul syllables are taken apart by rule. Any other
mark, such as `U+0309` or `U+031B`, is taken for a letter, and what is composed with it stays whole.
-/

namespace CampusQuery

/-! ## Tables -/

/-- The combining marks, each with its class: marks of different classes commute. -/
def markClasses : List (Char × Nat) :=
  [('\u0300', 230), ('\u0301', 230), ('\u0302', 230), ('\u0303', 230), ('\u0304', 230),
   ('\u0306', 230), ('\u0307', 230), ('\u0308', 230), ('\u030a', 230), ('\u030b', 230),
   ('\u030c', 230), ('\u0323', 220), ('\u0327', 202), ('\u0328', 202), ('\u0335', 1),
   ('\u0338', 1), ('\u3099', 8)]

/-- For a combining mark, letters in turn without it and with it. -/
def composedLetters : List (Char × String) := [
  ('\u0300', "AÀEÈIÌOÒUÙaàeèiìoòuùÜǛüǜNǸnǹЕЀИЍеѐиѝĒḔēḕŌṐōṑWẀwẁÂẦâầĂẰăằÊỀêềÔỒôồYỲyỳαὰεὲηὴιὶοὸυὺ"),
  ('\u0300', "ωὼΑᾺΕῈΗῊϊῒΙῚϋῢΥῪ¨῭ΟῸΩῺ"),
  ('\u0301', "AÁEÉIÍOÓUÚYÝaáeéiíoóuúyýCĆcćLĹlĺNŃnńRŔrŕSŚsśZŹzźÜǗüǘGǴgǵÅǺåǻÆǼæǽØǾøǿ\u0308\u0344¨΅ΑΆΕΈΗΉΙΊ"),
  ('\u0301', "ΟΌΥΎΩΏϊΐαάεέηήιίϋΰοόυύωώГЃКЌгѓкќÇḈçḉĒḖēḗÏḮïḯKḰkḱMḾmḿÕṌõṍŌṒōṓPṔpṕŨṸũṹWẂwẃÂẤâấĂẮăắ"),
  ('\u0301', "ÊẾêếÔỐôố"),
  ('\u0302', "AÂEÊIÎOÔUÛaâeêiîoôuûCĈcĉGĜgĝHĤhĥJĴjĵSŜsŝWŴwŵYŶyŷZẐzẑẠẬạậẸỆẹệỌỘọộ"),
  ('\u0303', "AÃNÑOÕaãnñoõIĨiĩUŨuũVṼvṽÂẪâẫĂẴăẵEẼeẽÊỄêễÔỖôỗYỸyỹ"),
  ('\u0304', "AĀaāEĒeēIĪiīOŌoōUŪuūÜǕüǖÄǞäǟȦǠȧǡÆǢæǣǪǬǫǭÖȪöȫÕȬõȭȮȰȯȱYȲyȳИӢиӣУӮуӯGḠgḡḶḸḷḹṚṜṛṝαᾱΑᾹ"),
  ('\u0304', "ιῑΙῙυῡΥῩ"),
  ('\u0306', "AĂaăEĔeĕGĞgğIĬiĭOŎoŏUŬuŭУЎИЙийуўЖӁжӂАӐаӑЕӖеӗȨḜȩḝẠẶạặαᾰΑᾸιῐΙῘυῠΥῨ"),
  ('\u0307', "CĊcċEĖeėGĠgġIİZŻzżAȦaȧOȮoȯBḂbḃDḊdḋFḞfḟHḢhḣMṀmṁNṄnṅPṖpṗRṘrṙSṠsṡŚṤśṥŠṦšṧṢṨṣṩTṪtṫWẆ"),
  ('\u0307', "wẇXẊxẋYẎyẏſẛ"),
  ('\u0308', "AÄEËIÏOÖUÜaäeëiïoöuüyÿYŸΙΪΥΫιϊυϋЕЁеёАӒаӓЖӜжӝЗӞзӟИӤиӥОӦоӧЭӬэӭУӰуӱЧӴчӵЫӸыӹHḦhḧÕṎõṏ"),
  ('\u0308', "ŪṺūṻWẄwẅXẌxẍtẗ"),
  ('\u030a', "AÅaåUŮuůwẘyẙ"),
  ('\u030b', "OŐoőUŰuűУӲуӳ"),
  ('\u030c', "CČcčDĎdďEĚeěLĽlľNŇnňRŘrřSŠsšTŤtťZŽzžAǍaǎIǏiǐOǑoǒUǓuǔÜǙüǚGǦgǧKǨkǩjǰHȞhȟ"),
  ('\u0323', "BḄbḅDḌdḍHḤhḥKḲkḳLḶlḷMṂmṃNṆnṇRṚrṛSṢsṣTṬtṭVṾvṿWẈwẉZẒzẓAẠaạEẸeẹIỊiịOỌoọUỤuụYỴyỵ"),
  ('\u0327', "CÇcçGĢgģKĶkķLĻlļNŅnņRŖrŗSŞsşTŢtţEȨeȩDḐdḑHḨhḩ"),
  ('\u0328', "AĄaąEĘeęIĮiįUŲuųOǪoǫ"),
  ('\u0338', "←↚→↛=≠<≮>≯"),
  ('\u3099', "かがきぎくぐけげこごさざしじすずせぜそぞただうゔカガキギクグケゲコゴサザシジスズセゼソゾタダウヴ")
]

/-- Characters in turn with another that is only a second spelling of them. -/
def respelled : String :=
  "\u0300\u0340\u0301\u0341;;··άάέέήήίίόόύύώώΆΆιιΈΈΉΉΐΐΊΊΰΰΎΎ΅΅``ΌΌΏΏ´´\u2003\u2001ΩΩKKÅÅ"

/-- The elements of a list, taken two at a time. -/
def inPairs {α : Type} : List α → List (α × α)
  | a :: b :: rest => (a, b) :: inPairs rest
  | _ => []

/-- One step of decomposition for every character of the tables, by code point. -/
def decompositionSteps : Std.HashMap Nat (List Char) :=
  let composed := composedLetters.flatMap fun (mark, letters) =>
    (inPairs letters.toList).map fun (base, letter) => (letter.toNat, [base, mark])
  let spelled := (inPairs respelled.toList).map fun (target, character) => (character.toNat, [target])
  Std.HashMap.ofList (composed ++ spelled)

/-! ## Decomposing -/

/-- The combining class of a character, zero for one that is no mark. -/
def markClass (c : Char) : Nat :=
  if c.toNat < 0x300 then 0 else (markClasses.lookup c).getD 0

/-- A Hangul syllable as a leading consonant, a vowel and perhaps a trailing consonant. -/
def hangulParts (c : Char) : List Char :=
  let n := c.toNat - 0xac00
  let lead := Char.ofNat (0x1100 + n / 588)
  let vowel := Char.ofNat (0x1161 + n % 588 / 28)
  if n % 28 = 0 then [lead, vowel] else [lead, vowel, Char.ofNat (0x11a7 + n % 28)]

/-- One step of decomposition of a character. -/
def decomposeStep (c : Char) : List Char :=
  if c.toNat < 0xa0 then [c]
  else if 0xac00 ≤ c.toNat ∧ c.toNat ≤ 0xd7a3 then hangulParts c
  else decompositionSteps.getD c.toNat [c]

/-- A character taken apart in full; no character of the tables takes more than four steps. -/
def decomposeChar (c : Char) : List Char :=
  if c.toNat < 0xa0 then [c]
  else ((decomposeStep c).flatMap decomposeStep).flatMap decomposeStep |>.flatMap decomposeStep

/-- A character put before an ordered text: a mark goes behind the marks of smaller class. -/
def insertMark (c : Char) : List Char → List Char
  | [] => [c]
  | d :: rest =>
    if markClass c ≠ 0 ∧ markClass d ≠ 0 ∧ markClass d < markClass c then d :: insertMark c rest
    else c :: d :: rest

/-- A text with every run of marks in the order of their classes, those of one class as written. -/
def reorder (cs : List Char) : List Char :=
  cs.foldr insertMark []

/-- The canonical decomposition of a text. -/
def decompose (s : String) : List Char :=
  reorder (s.toList.flatMap decomposeChar)

end CampusQuery
