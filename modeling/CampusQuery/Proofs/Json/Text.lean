import Mathlib
import CampusQuery.Json.Printer
import CampusQuery.Proofs.Text.Digits

/-!
# Texts in the bytes of a document

A text between quotes is read as that text, if what is written of each character is read as that
character; `Quoted.document` writes it so.

* `Json.bytesOf_append`, `Json.bytesOf_ofList` — the bytes of a text, from its characters.
* `Json.readStringFrom_hex`, `Json.readStringFrom_literal` — a character as its code or as it is.
* `Json.IsQuoting` — a way to write characters that are read back, and `Json.readString_quotedBy`,
  that whole texts are then; `Json.isQuoting_documentChar` — documents write them so.
-/

namespace CampusQuery

namespace Json

/-! ## Bytes -/

theorem toList_loop (b : ByteArray) (i : Nat) (r : List UInt8) :
    ByteArray.toList.loop b i r = r.reverse ++ b.data.toList.drop i := by
  induction hn : b.size - i generalizing i r with
  | zero =>
    have hle : b.data.toList.length ≤ i := by
      change b.data.size ≤ i
      exact Nat.sub_eq_zero_iff_le.mp hn
    rw [ByteArray.toList.loop, if_neg (by omega), List.drop_eq_nil_of_le hle, List.append_nil]
  | succ n ih =>
    have hlt : i < b.size := by omega
    have hlt' : i < b.data.toList.length := hlt
    rw [ByteArray.toList.loop, if_pos hlt, ih _ _ (by omega), List.drop_eq_getElem_cons hlt']
    have hget : b.get! i = b.data.toList[i] := by
      change b.data[i]! = _
      rw [getElem!_pos b.data i hlt, Array.getElem_toList]
    simp [hget]

theorem toList_eq_data (b : ByteArray) : b.toList = b.data.toList :=
  toList_loop b 0 []

/-- The bytes of a text. -/
def bytesOf (s : String) : Bytes :=
  s.toUTF8.toList

theorem bytesOf_ofList (cs : List Char) :
    bytesOf (String.ofList cs) = cs.flatMap String.utf8EncodeChar := by
  simp [bytesOf, toList_eq_data, List.utf8Encode]

theorem bytesOf_eq (s : String) : bytesOf s = s.toList.flatMap String.utf8EncodeChar := by
  rw [← bytesOf_ofList, String.ofList_toList]

@[simp] theorem bytesOf_append (s t : String) : bytesOf (s ++ t) = bytesOf s ++ bytesOf t := by
  simp [bytesOf_eq]

@[simp] theorem bytesOf_empty : bytesOf "" = [] := by
  simp [bytesOf_eq]

theorem bytesOf_toByteArray (s : String) : (bytesOf s).toByteArray = s.toByteArray := by
  rw [bytesOf_eq, ← String.utf8Encode_toList]
  rfl

/-- A character of the first 128 takes one byte. -/
theorem utf8EncodeChar_of_lt {c : Char} (h : c.toNat < 128) :
    String.utf8EncodeChar c = [c.toUInt8] := by
  have hle : c.val.toNat ≤ 0x7f := Nat.le_of_lt_succ h
  simp only [String.utf8EncodeChar, hle, if_true]
  rfl

/-- A text of one character of the first 128 is one byte. -/
theorem bytesOf_single {s : String} {c : Char} (hs : s.toList = [c]) (hc : c.toNat < 128) :
    bytesOf s = [c.toUInt8] := by
  rw [bytesOf_eq, hs, List.flatMap_singleton, utf8EncodeChar_of_lt hc]

theorem bytesOf_of_forall_lt {s : String} (h : ∀ c ∈ s.toList, c.toNat < 128) :
    bytesOf s = s.toList.map Char.toUInt8 := by
  rw [bytesOf_eq]
  generalize s.toList = cs at h
  induction cs with
  | nil => rfl
  | cons c cs ih =>
    obtain ⟨hc, hcs⟩ := List.forall_mem_cons.mp h
    rw [List.flatMap_cons, utf8EncodeChar_of_lt hc, ih hcs]
    rfl

/-! ## Within quotes -/

/-- A byte that stands for itself within quotes. -/
def IsLiteral (b : UInt8) : Prop :=
  b ≠ '"'.toUInt8 ∧ b ≠ '\\'.toUInt8 ∧ ¬ b < ' '.toUInt8

theorem isLiteral_of_le {b : UInt8} (h : 128 ≤ b.toNat) : IsLiteral b := by
  refine ⟨?_, ?_, ?_⟩
  · rintro rfl
    exact absurd h (by decide)
  · rintro rfl
    exact absurd h (by decide)
  · rw [UInt8.lt_iff_toNat_lt, show ' '.toUInt8.toNat = 32 from rfl]
    omega

/-- The bytes of a character that is written as it is stand for themselves. -/
theorem isLiteral_of_mem_utf8EncodeChar {c : Char} (hquote : c ≠ '"') (hmark : c ≠ '\\')
    (hspace : 0x20 ≤ c.toNat) {b : UInt8} (h : b ∈ String.utf8EncodeChar c) : IsLiteral b := by
  by_cases hc : c.toNat < 128
  · rw [utf8EncodeChar_of_lt hc, List.mem_singleton] at h
    subst h
    have htoNat : c.toUInt8.toNat = c.toNat := Nat.mod_eq_of_lt (by omega : c.toNat < 256)
    refine ⟨fun he => hquote ?_, fun he => hmark ?_, ?_⟩
    · exact Char.toNat_inj.mp (htoNat.symm.trans (congrArg UInt8.toNat he))
    · exact Char.toNat_inj.mp (htoNat.symm.trans (congrArg UInt8.toNat he))
    · rw [UInt8.lt_iff_toNat_lt, htoNat]
      exact Nat.not_lt.mpr hspace
  · -- every byte of a longer sequence has its highest bit set
    apply isLiteral_of_le
    have hlarge : ¬ c.val.toNat ≤ 0x7f := fun hle => hc (Nat.lt_succ_of_le hle)
    simp only [String.utf8EncodeChar, hlarge, if_false] at h
    split at h
    · simp only [List.mem_cons, List.not_mem_nil, or_false] at h
      rcases h with rfl | rfl <;> simp only [UInt8.toNat_ofNat'] <;> omega
    · split at h
      · simp only [List.mem_cons, List.not_mem_nil, or_false] at h
        rcases h with rfl | rfl | rfl <;> simp only [UInt8.toNat_ofNat'] <;> omega
      · simp only [List.mem_cons, List.not_mem_nil, or_false] at h
        rcases h with rfl | rfl | rfl | rfl <;> simp only [UInt8.toNat_ofNat'] <;> omega

theorem readStringFrom_literals {bs : Bytes} (h : ∀ b ∈ bs, IsLiteral b) (out : ByteArray)
    (rest : Bytes) :
    readStringFrom out .none (bs ++ rest) = readStringFrom (out ++ bs.toByteArray) .none rest := by
  induction bs generalizing out with
  | nil => simp
  | cons b bs ih =>
    obtain ⟨⟨hquote, hmark, hspace⟩, hbs⟩ := List.forall_mem_cons.mp h
    have hpush : out.push b ++ bs.toByteArray = out ++ (b :: bs).toByteArray := by
      rw [← ByteArray.append_toByteArray_singleton, ByteArray.append_assoc,
        ← List.toByteArray_append, List.singleton_append]
    rw [List.cons_append, readStringFrom]
    simp only [if_neg hquote, if_neg hmark, if_neg hspace]
    rw [ih hbs, hpush]

theorem hexDigit?_digitChar : ∀ d < 16, hexDigit? d.digitChar.toUInt8 = some d := by
  decide

/-- The code of one of the first 256 characters, in four digits. -/
theorem toList_hex {n : Nat} (h : n < 0x100) :
    (Quoted.hex n 4).toList = ['0', '0', (n / 16).digitChar, (n % 16).digitChar] := by
  have hdigits : ∀ n < 0x100, List.replicate (4 - (Nat.toDigits 16 n).length) '0' ++
      Nat.toDigits 16 n = ['0', '0', (n / 16).digitChar, (n % 16).digitChar] := by decide +kernel
  simpa [Quoted.hex, toList_pushn] using hdigits n h

/-- The bytes of the escape of one of the first 256 characters. -/
theorem bytesOf_hex {n : Nat} (h : n < 0x100) :
    bytesOf ("\\u" ++ Quoted.hex n 4) =
      ['\\'.toUInt8, 'u'.toUInt8, '0'.toUInt8, '0'.toUInt8, (n / 16).digitChar.toUInt8,
        (n % 16).digitChar.toUInt8] := by
  have hascii : ∀ d < 16, d.digitChar.toNat < 128 := by decide
  rw [bytesOf_of_forall_lt]
  · simp [toList_hex h]
  · simp [toList_hex h, hascii (n / 16) (by omega), hascii (n % 16) (by omega)]

/-- An escape of one letter. -/
theorem readStringFrom_letter {s : String} {l c : Char} (hs : s.toList = ['\\', l])
    (hascii : l.toNat < 128) (hl : escaped? l.toUInt8 = some c) (out : ByteArray) (rest : Bytes) :
    readStringFrom out .none (bytesOf s ++ rest) = readStringFrom (pushChar out c) .none rest := by
  have hbytes : bytesOf s = ['\\'.toUInt8, l.toUInt8] := by
    rw [bytesOf_of_forall_lt] <;> simp [hs, hascii]
  have hquote : '\\'.toUInt8 ≠ '"'.toUInt8 := by decide
  have hu : l.toUInt8 ≠ 'u'.toUInt8 := by
    intro h
    rw [h] at hl
    cases hl
  rw [hbytes, List.cons_append, readStringFrom]
  simp only [if_neg hquote, if_pos, List.cons_append, List.nil_append]
  rw [readStringFrom]
  simp only [if_neg hu, hl]

theorem readStringFrom_hex {c : Char} (h : c.toNat < 0x100) (out : ByteArray) (rest : Bytes) :
    readStringFrom out .none (bytesOf ("\\u" ++ Quoted.hex c.toNat 4) ++ rest) =
      readStringFrom (pushChar out c) .none rest := by
  have hhigh := hexDigit?_digitChar (c.toNat / 16) (by omega)
  have hlow := hexDigit?_digitChar (c.toNat % 16) (by omega)
  have hvalue : c.toNat / 16 * 16 + c.toNat % 16 = c.toNat := by omega
  have hplain : Escape.afterDigits Option.none c.toNat = .ok (.none, some c) := by
    rw [Escape.afterDigits, if_neg (by omega), if_neg (by omega), Char.ofNat_toNat]
  have hzero : hexDigit? '0'.toUInt8 = some 0 := by decide
  have hquote : '\\'.toUInt8 ≠ '"'.toUInt8 := by decide
  rw [bytesOf_hex h]
  simp [readStringFrom, hquote, hzero, hhigh, hlow, hvalue, hplain]

/-- A character that is written as it is. -/
theorem readStringFrom_literal {c : Char} (hquote : c ≠ '"') (hmark : c ≠ '\\')
    (hplain : 0x20 ≤ c.toNat) (out : ByteArray) (rest : Bytes) :
    readStringFrom out .none (bytesOf c.toString ++ rest) =
      readStringFrom (pushChar out c) .none rest := by
  have hbytes : bytesOf c.toString = String.utf8EncodeChar c := by
    simp [bytesOf_eq]
  rw [readStringFrom_literals, bytesOf_toByteArray]
  · rfl
  · intro b hb
    rw [hbytes] at hb
    exact isLiteral_of_mem_utf8EncodeChar hquote hmark hplain hb

/-! ## Between quotes -/

/-- A way to write a character within quotes from which it is read back. -/
def IsQuoting (write : Char → String) : Prop :=
  ∀ c out rest, readStringFrom out .none (bytesOf (write c) ++ rest) =
    readStringFrom (pushChar out c) .none rest

theorem isQuoting_documentChar : IsQuoting Quoted.documentChar := by
  intro c out rest
  unfold Quoted.documentChar
  split
  case h_8 hquote hmark _ _ _ _ _ =>
    split
    · exact readStringFrom_hex (by omega) out rest
    · exact readStringFrom_literal hquote hmark (by omega) out rest
  · exact readStringFrom_letter (l := '"') (by simp) (by decide) (by decide) out rest
  · exact readStringFrom_letter (l := '\\') (by simp) (by decide) (by decide) out rest
  · exact readStringFrom_letter (l := 'n') (by simp) (by decide) (by decide) out rest
  · exact readStringFrom_letter (l := 'r') (by simp) (by decide) (by decide) out rest
  · exact readStringFrom_letter (l := 't') (by simp) (by decide) (by decide) out rest
  · exact readStringFrom_letter (l := 'b') (by simp) (by decide) (by decide) out rest
  · exact readStringFrom_letter (l := 'f') (by simp) (by decide) (by decide) out rest

/-- A text between double quotes, each of its characters written in a given way. -/
def quotedBy (write : Char → String) (s : String) : String :=
  s.foldl (fun out c => out ++ write c) "\"" ++ "\""

theorem toList_quotedBy (write : Char → String) (s : String) :
    (quotedBy write s).toList =
      '"' :: (s.toList.flatMap fun c => (write c).toList) ++ ['"'] := by
  have hfold : ∀ (cs : List Char) (out : String),
      (cs.foldl (fun out c => out ++ write c) out).toList =
        out.toList ++ cs.flatMap fun c => (write c).toList := by
    intro cs
    induction cs with
    | nil => simp
    | cons c cs ih => simp [ih]
  rw [quotedBy, String.foldl_eq_foldl_toList, String.toList_append, hfold]
  rfl

theorem bytesOf_quotedBy (write : Char → String) (s : String) :
    bytesOf (quotedBy write s) =
      '"'.toUInt8 :: (s.toList.flatMap fun c => bytesOf (write c)) ++ ['"'.toUInt8] := by
  have hquote : String.utf8EncodeChar '"' = ['"'.toUInt8] := utf8EncodeChar_of_lt (by decide)
  rw [bytesOf_eq, toList_quotedBy]
  simp only [List.flatMap_append, List.flatMap_cons, List.flatMap_nil, hquote, List.flatMap_assoc,
    ← bytesOf_eq, List.append_nil]
  rfl

/-- A quoted text is read back, from after its first quote. -/
theorem readString_quotedBy {write : Char → String} (h : IsQuoting write) (s : String)
    (rest : Bytes) :
    readString ((s.toList.flatMap fun c => bytesOf (write c)) ++ '"'.toUInt8 :: rest) =
      .ok (s, rest) := by
  have hread : ∀ (cs : List Char) (out : ByteArray),
      readStringFrom out .none ((cs.flatMap fun c => bytesOf (write c)) ++ '"'.toUInt8 :: rest) =
      readStringFrom (out ++ (cs.flatMap String.utf8EncodeChar).toByteArray) .none
        ('"'.toUInt8 :: rest) := by
    intro cs
    induction cs with
    | nil => simp
    | cons c cs ih =>
      intro out
      have hpush : pushChar out c = out ++ (String.utf8EncodeChar c).toByteArray := by
        simp [pushChar, ← bytesOf_toByteArray, bytesOf_eq]
      rw [List.flatMap_cons, List.append_assoc, h, ih, hpush, List.flatMap_cons,
        List.toByteArray_append, ByteArray.append_assoc]
  have hbytes : (s.toList.flatMap String.utf8EncodeChar).toByteArray = s.toByteArray := by
    rw [← bytesOf_eq, bytesOf_toByteArray]
  have hs : String.fromUTF8? s.toByteArray = some s := by
    rw [String.fromUTF8?, dif_pos s.isValidUTF8]
    rfl
  rw [readString, hread, hbytes, ByteArray.empty_append, readStringFrom]
  simp [hs]

theorem bytesOf_document (s : String) :
    bytesOf (Quoted.document s) =
      '"'.toUInt8 :: (s.toList.flatMap fun c => bytesOf (Quoted.documentChar c)) ++
        ['"'.toUInt8] :=
  bytesOf_quotedBy Quoted.documentChar s

theorem readString_document (s : String) (rest : Bytes) :
    readString ((s.toList.flatMap fun c => bytesOf (Quoted.documentChar c)) ++
      '"'.toUInt8 :: rest) = .ok (s, rest) :=
  readString_quotedBy isQuoting_documentChar s rest

end Json

end CampusQuery
