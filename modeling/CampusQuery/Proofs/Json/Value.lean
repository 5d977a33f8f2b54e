import Mathlib
import CampusQuery.Proofs.Json.Number

/-!
# Values in the bytes of a document

A compact text of a value is read as that value, wherever it stands in a document, but for the
floating-point numbers, each of which is read as `Binary64.reread` says.

* `Json.bytesOf_array`, `Json.bytesOf_object` — what a text holds of a list or an object.
* `Json.readItems_separated`, `Json.readEntries_separated` — items and entries between commas are
  read one by one.
* `Json.reread` — the value that is read of the text of a value.
* `Json.readValue_compact` — a storable value is read so, as part of a longer document.
* `Json.compact_inj` — storable values that hold no other are told apart by their texts.
-/

namespace CampusQuery

namespace Json

/-! ## Layout -/

theorem appendItems_cons_cons (out : String) (item next : Json) (rest : List Json) :
    appendItems out (item :: next :: rest) =
      appendItems (appendTo out item ++ ",") (next :: rest) := by
  rw [appendItems]
  rintro ⟨⟩

theorem appendEntries_cons_cons (out key : String) (value : Json) (next : String × Json)
    (rest : List (String × Json)) :
    appendEntries out ((key, value) :: next :: rest) =
      appendEntries (appendTo (out ++ Quoted.document key ++ ":") value ++ ",") (next :: rest) := by
  rw [appendEntries]
  rintro ⟨⟩

mutual

theorem appendTo_eq (out : String) : ∀ v : Json, appendTo out v = out ++ appendTo "" v
  | .null => by simp [appendTo]
  | .boolean b => by simp [appendTo]
  | .number n => by simp [appendTo]
  | .string s => by simp [appendTo]
  | .array items => by
    rw [appendTo, appendTo, appendItems_eq, appendItems_eq ("" ++ "[")]
    simp [String.append_assoc]
  | .object entries => by
    rw [appendTo, appendTo, appendEntries_eq, appendEntries_eq ("" ++ "\x7b")]
    simp [String.append_assoc]

theorem appendItems_eq (out : String) :
    ∀ items : List Json, appendItems out items = out ++ appendItems "" items
  | [] => by simp [appendItems]
  | [item] => by
    rw [appendItems, appendItems]
    exact appendTo_eq out item
  | item :: next :: rest => by
    rw [appendItems_cons_cons, appendItems_cons_cons, appendTo_eq out,
      appendItems_eq (out ++ appendTo "" item ++ ","), appendItems_eq (appendTo "" item ++ ",")]
    simp [String.append_assoc]

theorem appendEntries_eq (out : String) :
    ∀ entries : List (String × Json), appendEntries out entries = out ++ appendEntries "" entries
  | [] => by simp [appendEntries]
  | [(key, value)] => by
    rw [appendEntries, appendEntries, appendTo_eq (out ++ Quoted.document key ++ ":"),
      appendTo_eq ("" ++ Quoted.document key ++ ":")]
    simp [String.append_assoc]
  | (key, value) :: next :: rest => by
    rw [appendEntries_cons_cons, appendEntries_cons_cons,
      appendTo_eq (out ++ Quoted.document key ++ ":"),
      appendTo_eq ("" ++ Quoted.document key ++ ":"),
      appendEntries_eq (out ++ Quoted.document key ++ ":" ++ appendTo "" value ++ ","),
      appendEntries_eq ("" ++ Quoted.document key ++ ":" ++ appendTo "" value ++ ",")]
    simp [String.append_assoc]

end

/-- Texts, each after a comma. -/
def following (texts : List Bytes) : Bytes :=
  texts.flatMap fun text => ','.toUInt8 :: text

/-- Texts with commas between. -/
def separated : List Bytes → Bytes
  | [] => []
  | text :: texts => text ++ following texts

/-- The bytes of a compact text. -/
def compactBytes (v : Json) : Bytes :=
  bytesOf v.compact

/-- The bytes of an entry of an object. -/
def entryBytes (entry : String × Json) : Bytes :=
  bytesOf (Quoted.document entry.1) ++ ':'.toUInt8 :: compactBytes entry.2

theorem bytesOf_comma : bytesOf "," = [','.toUInt8] :=
  bytesOf_single (by decide) (by decide)

theorem bytesOf_colon : bytesOf ":" = [':'.toUInt8] :=
  bytesOf_single (by decide) (by decide)

theorem bytesOf_leftBrace : bytesOf "\x7b" = ['\x7b'.toUInt8] :=
  bytesOf_single (by decide) (by decide)

theorem bytesOf_rightBrace : bytesOf "\x7d" = ['\x7d'.toUInt8] :=
  bytesOf_single (by decide) (by decide)

theorem bytesOf_items (items : List Json) :
    bytesOf (appendItems "" items) = separated (items.map compactBytes) := by
  induction items with
  | nil => simp [appendItems, separated]
  | cons item rest ih =>
    cases rest with
    | nil => simp [appendItems, separated, following, compactBytes, compact]
    | cons next rest =>
      rw [appendItems_cons_cons, appendItems_eq, bytesOf_append, ih, bytesOf_append, bytesOf_comma]
      simp [separated, following, compactBytes, compact]

theorem bytesOf_entries (entries : List (String × Json)) :
    bytesOf (appendEntries "" entries) = separated (entries.map entryBytes) := by
  induction entries with
  | nil => simp [appendEntries, separated]
  | cons entry rest ih =>
    obtain ⟨key, value⟩ := entry
    cases rest with
    | nil =>
      rw [appendEntries, appendTo_eq]
      simp [separated, following, entryBytes, compactBytes, compact, bytesOf_colon]
    | cons next rest =>
      rw [appendEntries_cons_cons, appendEntries_eq, bytesOf_append, ih, appendTo_eq]
      simp [separated, following, entryBytes, compactBytes, compact, bytesOf_colon,
        bytesOf_comma]

theorem bytesOf_array (items : List Json) :
    compactBytes (.array items) =
      '['.toUInt8 :: (separated (items.map compactBytes) ++ [']'.toUInt8]) := by
  have hopen : bytesOf "[" = ['['.toUInt8] := bytesOf_single (by decide) (by decide)
  have hclose : bytesOf "]" = [']'.toUInt8] := bytesOf_single (by decide) (by decide)
  rw [compactBytes, compact, appendTo, appendItems_eq]
  simp [bytesOf_items, hopen, hclose]

theorem bytesOf_object (entries : List (String × Json)) :
    compactBytes (.object entries) =
      '\x7b'.toUInt8 :: (separated (entries.map entryBytes) ++ ['\x7d'.toUInt8]) := by
  rw [compactBytes, compact, appendTo, appendEntries_eq]
  simp [bytesOf_entries, bytesOf_leftBrace, bytesOf_rightBrace]

/-! ## Items and entries -/

/-- A text that can stand before the end of a list or after its comma. -/
def IsItem (text : Bytes) : Prop :=
  ∃ b bs, text = b :: bs ∧ isSpace b = false ∧ b ≠ ']'.toUInt8

theorem nextItem_first {text : Bytes} (h : IsItem text) (rest : Bytes) :
    nextItem true (text ++ rest) = .ok (some (text ++ rest)) := by
  obtain ⟨b, bs, rfl, hspace, hclose⟩ := h
  rw [nextItem, List.cons_append, skipSpace_cons hspace]
  simp [hclose]

theorem nextItem_comma {text : Bytes} (h : IsItem text) (rest : Bytes) :
    nextItem false (','.toUInt8 :: (text ++ rest)) = .ok (some (text ++ rest)) := by
  obtain ⟨b, bs, rfl, hspace, hclose⟩ := h
  have hcomma : ','.toUInt8 ≠ ']'.toUInt8 := by decide
  rw [nextItem, skipSpace_cons (by decide)]
  simp only [if_neg hcomma, Bool.false_eq_true, if_false, if_true, List.cons_append,
    skipSpace_cons hspace, if_neg hclose]

theorem nextItem_close (first : Bool) (rest : Bytes) :
    nextItem first (']'.toUInt8 :: rest) = .ok none := by
  rw [nextItem, skipSpace_cons (by decide)]
  simp

/-- A reader finds certain values where some are written, if a number ends with them. -/
def Reads {α β : Type} (reader : Reader β) (text : α → Bytes) (found : α → β) (xs : List α) :
    Prop :=
  ∀ x ∈ xs, ∀ rest, EndsNumber rest → reader (text x ++ rest) = .ok (found x, rest)

theorem endsNumber_following {texts : List Bytes} {close : UInt8}
    (hclose : close = ']'.toUInt8 ∨ close = '\x7d'.toUInt8) (rest : Bytes) :
    EndsNumber (following texts ++ close :: rest) := by
  cases texts with
  | nil =>
    rintro b ⟨⟩
    rcases hclose with rfl | rfl <;> decide
  | cons text texts =>
    rintro b ⟨⟩
    decide

section Items

variable {α β : Type} {item : Reader β} {text : α → Bytes} {found : α → β}

theorem readItems_following {xs : List α} (hitem : ∀ x ∈ xs, IsItem (text x))
    (hread : Reads item text found xs) {bound : Nat} (hbound : xs.length ≤ bound) (rest : Bytes) :
    readItems item bound false (following (xs.map text) ++ ']'.toUInt8 :: rest) =
      .ok (xs.map found, ']'.toUInt8 :: rest) := by
  induction xs generalizing bound with
  | nil =>
    cases bound with
    | zero => rfl
    | succ bound =>
      simp only [readItems, List.map_nil, following, List.flatMap_nil, List.nil_append,
        nextItem_close, bind, Except.bind, pure, Except.pure]
  | cons x xs ih =>
    obtain ⟨bound, rfl⟩ : ∃ b, bound = b + 1 := ⟨bound - 1, by simp at hbound; omega⟩
    obtain ⟨hx, hxs⟩ := List.forall_mem_cons.mp hitem
    obtain ⟨hreadx, hreadxs⟩ := List.forall_mem_cons.mp hread
    have hlayout : following ((x :: xs).map text) ++ ']'.toUInt8 :: rest =
        ','.toUInt8 :: (text x ++ (following (xs.map text) ++ ']'.toUInt8 :: rest)) := by
      simp [following]
    rw [hlayout, readItems]
    simp only [nextItem_comma hx, bind, Except.bind,
      hreadx _ (endsNumber_following (Or.inl rfl) rest),
      ih hxs hreadxs (by simpa using hbound), pure, Except.pure, List.map_cons]

/-- The items of a list, up to its bracket. -/
theorem readItems_separated {xs : List α} (hitem : ∀ x ∈ xs, IsItem (text x))
    (hread : Reads item text found xs) {bound : Nat} (hbound : xs.length ≤ bound) (rest : Bytes) :
    readItems item bound true (separated (xs.map text) ++ ']'.toUInt8 :: rest) =
      .ok (xs.map found, ']'.toUInt8 :: rest) := by
  cases xs with
  | nil =>
    cases bound with
    | zero => rfl
    | succ bound =>
      simp only [readItems, List.map_nil, separated, List.nil_append, nextItem_close, bind,
        Except.bind, pure, Except.pure]
  | cons x xs =>
    obtain ⟨bound, rfl⟩ : ∃ b, bound = b + 1 := ⟨bound - 1, by simp at hbound; omega⟩
    obtain ⟨hx, hxs⟩ := List.forall_mem_cons.mp hitem
    obtain ⟨hreadx, hreadxs⟩ := List.forall_mem_cons.mp hread
    rw [List.map_cons, separated, List.append_assoc, readItems]
    simp only [nextItem_first hx, bind, Except.bind,
      hreadx _ (endsNumber_following (Or.inl rfl) rest),
      readItems_following hxs hreadxs (by simpa using hbound), pure, Except.pure, List.map_cons]

end Items

section Keys

variable {write : Char → String}

theorem exists_cons_quotedBy (write : Char → String) (key : String) :
    ∃ bs, bytesOf (quotedBy write key) = '"'.toUInt8 :: bs :=
  ⟨_, bytesOf_quotedBy write key⟩

theorem readKey_quotedBy (h : IsQuoting write) (key : String) (rest : Bytes) :
    readKey (bytesOf (quotedBy write key) ++ rest) = .ok (key, rest) := by
  rw [bytesOf_quotedBy, List.append_assoc, List.cons_append, readKey]
  simp only [if_true]
  exact readString_quotedBy h key rest

theorem nextKey_first_quotedBy (h : IsQuoting write) (key : String) (rest : Bytes) :
    nextKey true (bytesOf (quotedBy write key) ++ rest) = .ok (some (key, rest)) := by
  have hkey := readKey_quotedBy h key rest
  obtain ⟨bs, hbs⟩ := exists_cons_quotedBy write key
  have hclose : '"'.toUInt8 ≠ '\x7d'.toUInt8 := by decide
  rw [hbs, List.cons_append] at hkey ⊢
  rw [nextKey, skipSpace_cons (by decide)]
  simp only [if_neg hclose, if_true, hkey]
  rfl

theorem nextKey_comma_quotedBy (h : IsQuoting write) (key : String) (rest : Bytes) :
    nextKey false (','.toUInt8 :: (bytesOf (quotedBy write key) ++ rest)) =
      .ok (some (key, rest)) := by
  have hkey := readKey_quotedBy h key rest
  obtain ⟨bs, hbs⟩ := exists_cons_quotedBy write key
  have hclose : ','.toUInt8 ≠ '\x7d'.toUInt8 := by decide
  have hquote : '"'.toUInt8 ≠ '\x7d'.toUInt8 := by decide
  rw [hbs, List.cons_append] at hkey ⊢
  rw [nextKey, skipSpace_cons (by decide)]
  simp only [if_neg hclose, Bool.false_eq_true, if_false, if_true, skipSpace_cons (by decide :
    isSpace '"'.toUInt8 = false), List.head?_cons, Option.some.injEq, if_neg hquote, hkey]
  rfl

end Keys

theorem exists_cons_document (key : String) :
    ∃ bs, bytesOf (Quoted.document key) = '"'.toUInt8 :: bs :=
  exists_cons_quotedBy Quoted.documentChar key

theorem nextKey_first (key : String) (rest : Bytes) :
    nextKey true (bytesOf (Quoted.document key) ++ rest) = .ok (some (key, rest)) :=
  nextKey_first_quotedBy isQuoting_documentChar key rest

theorem nextKey_comma (key : String) (rest : Bytes) :
    nextKey false (','.toUInt8 :: (bytesOf (Quoted.document key) ++ rest)) =
      .ok (some (key, rest)) :=
  nextKey_comma_quotedBy isQuoting_documentChar key rest

theorem nextKey_close (first : Bool) (rest : Bytes) :
    nextKey first ('\x7d'.toUInt8 :: rest) = .ok none := by
  rw [nextKey, skipSpace_cons (by decide)]
  simp

theorem closeList_cons (rest : Bytes) : closeList (']'.toUInt8 :: rest) = .ok rest := by
  rw [closeList, skipSpace_cons (by decide)]
  simp

theorem closeObject_cons (rest : Bytes) : closeObject ('\x7d'.toUInt8 :: rest) = .ok rest := by
  rw [closeObject, skipSpace_cons (by decide)]
  simp

theorem readColon_cons (rest : Bytes) : readColon (':'.toUInt8 :: rest) = .ok rest := by
  rw [readColon, skipSpace_cons (by decide)]
  simp

section Entries

variable {α β : Type} {value : Reader β} {write : Char → String} {text : α → Bytes} {found : α → β}
  {entries : List (String × α)}

/-- The bytes of an entry whose key and value are written in given ways. -/
def entryText (write : Char → String) (text : α → Bytes) (entry : String × α) : Bytes :=
  bytesOf (quotedBy write entry.1) ++ ':'.toUInt8 :: text entry.2

theorem readEntries_following (hwrite : IsQuoting write)
    (hread : Reads value text found (entries.map Prod.snd)) {bound : Nat}
    (hbound : entries.length ≤ bound) (rest : Bytes) :
    readEntries value bound false
        (following (entries.map (entryText write text)) ++ '\x7d'.toUInt8 :: rest) =
      .ok (entries.map (Prod.map id found), '\x7d'.toUInt8 :: rest) := by
  induction entries generalizing bound with
  | nil =>
    cases bound with
    | zero => rfl
    | succ bound =>
      simp only [readEntries, List.map_nil, following, List.flatMap_nil, List.nil_append,
        nextKey_close, bind, Except.bind, pure, Except.pure]
  | cons entry entries ih =>
    obtain ⟨bound, rfl⟩ : ∃ b, bound = b + 1 := ⟨bound - 1, by simp at hbound; omega⟩
    obtain ⟨hx, hxs⟩ := List.forall_mem_cons.mp hread
    have hlayout : following ((entry :: entries).map (entryText write text)) ++
        '\x7d'.toUInt8 :: rest =
        ','.toUInt8 :: (bytesOf (quotedBy write entry.1) ++ ':'.toUInt8 ::
          (text entry.2 ++ (following (entries.map (entryText write text)) ++
            '\x7d'.toUInt8 :: rest))) := by
      simp [following, entryText]
    rw [hlayout, readEntries]
    simp only [nextKey_comma_quotedBy hwrite, readColon_cons, bind, Except.bind,
      hx _ (endsNumber_following (Or.inr rfl) rest),
      ih hxs (by simpa using hbound), pure, Except.pure, List.map_cons, Prod.map, id]

/-- The entries of an object, up to its brace. -/
theorem readEntries_separated (hwrite : IsQuoting write)
    (hread : Reads value text found (entries.map Prod.snd)) {bound : Nat}
    (hbound : entries.length ≤ bound) (rest : Bytes) :
    readEntries value bound true
        (separated (entries.map (entryText write text)) ++ '\x7d'.toUInt8 :: rest) =
      .ok (entries.map (Prod.map id found), '\x7d'.toUInt8 :: rest) := by
  cases entries with
  | nil =>
    cases bound with
    | zero => rfl
    | succ bound =>
      simp only [readEntries, List.map_nil, separated, List.nil_append, nextKey_close, bind,
        Except.bind, pure, Except.pure]
  | cons entry entries =>
    obtain ⟨bound, rfl⟩ : ∃ b, bound = b + 1 := ⟨bound - 1, by simp at hbound; omega⟩
    obtain ⟨hx, hxs⟩ := List.forall_mem_cons.mp hread
    have hlayout : separated ((entry :: entries).map (entryText write text)) ++
        '\x7d'.toUInt8 :: rest =
        bytesOf (quotedBy write entry.1) ++ ':'.toUInt8 ::
          (text entry.2 ++ (following (entries.map (entryText write text)) ++
            '\x7d'.toUInt8 :: rest)) := by
      simp [separated, entryText]
    rw [hlayout, readEntries]
    simp only [nextKey_first_quotedBy hwrite, readColon_cons, bind, Except.bind,
      hx _ (endsNumber_following (Or.inr rfl) rest),
      readEntries_following hwrite hxs (by simpa using hbound), pure, Except.pure, List.map_cons,
      Prod.map, id]

end Entries

theorem insert_of_notMem {key : String} {entries : List (String × Json)}
    (h : key ∉ entries.map Prod.fst) (value : Json) :
    insert key value entries = entries ++ [(key, value)] := by
  induction entries with
  | nil => rfl
  | cons entry entries ih =>
    rw [List.map_cons, List.mem_cons, not_or] at h
    rw [insert, if_neg (Ne.symm h.1), ih h.2]
    rfl

/-- Entries with different keys stay as they are. -/
theorem insertAll_of_nodup {entries : List (String × Json)} (h : (entries.map Prod.fst).Nodup) :
    insertAll entries = entries := by
  have hfold : ∀ (built : List (String × Json)), ((built ++ entries).map Prod.fst).Nodup →
      entries.foldl (fun built entry => insert entry.1 entry.2 built) built =
        built ++ entries := by
    clear h
    induction entries with
    | nil => simp
    | cons entry entries ih =>
      intro built hnodup
      obtain ⟨key, value⟩ := entry
      have hnot : key ∉ built.map Prod.fst := by
        rw [List.map_append, List.map_cons, List.nodup_append] at hnodup
        exact fun hmem => hnodup.2.2 _ hmem _ List.mem_cons_self rfl
      rw [List.foldl_cons]
      dsimp only
      rw [insert_of_notMem hnot, ih _ (by simpa using hnodup)]
      simp
  exact hfold [] h

/-! ## Values -/

mutual

/-- The value that is read of the text of a value. -/
def reread : Json → Json
  | .number (.float x) => .number (.float x.reread)
  | .array items => .array (rereadItems items)
  | .object entries => .object (rereadEntries entries)
  | v => v

/-- The values that are read of the texts of some values. -/
def rereadItems : List Json → List Json
  | [] => []
  | item :: items => item.reread :: rereadItems items

/-- The entries that are read of the texts of some entries. -/
def rereadEntries : List (String × Json) → List (String × Json)
  | [] => []
  | (key, value) :: entries => (key, value.reread) :: rereadEntries entries

end

theorem rereadItems_eq_map (items : List Json) : rereadItems items = items.map reread := by
  induction items with
  | nil => rfl
  | cons item items ih => rw [rereadItems, ih, List.map_cons]

theorem rereadEntries_eq_map (entries : List (String × Json)) :
    rereadEntries entries = entries.map (Prod.map id reread) := by
  induction entries with
  | nil => rfl
  | cons entry entries ih => rw [rereadEntries, ih, List.map_cons, Prod.map_apply, id]

/-- A value that holds no other. -/
def IsScalar : Json → Prop
  | .array _ | .object _ => False
  | _ => True

/-- A value that documents hold without loss but for its floating-point numbers, in which at most
`depth` lists and objects stand within each other: the keys of an object differ, and integers are of
64 bits. -/
def IsStorable : Nat → Json → Prop
  | _, .number (.integer i) => IsMachineInteger i
  | 0, .array _ => False
  | 0, .object _ => False
  | depth + 1, .array items => ∀ item ∈ items, IsStorable depth item
  | depth + 1, .object entries =>
    (entries.map Prod.fst).Nodup ∧ ∀ v ∈ entries.map Prod.snd, IsStorable depth v
  | _, _ => True

theorem readWord_append (word : List Char) (rest : Bytes) :
    readWord word (word.map Char.toUInt8 ++ rest) = .ok rest := by
  induction word with
  | nil => cases rest <;> rfl
  | cons c word ih => simp [readWord, ih]

theorem readScalar_compact {depth : Nat} {v : Json} (h : v.IsStorable depth) (hscalar : v.IsScalar)
    {rest : Bytes} (hrest : EndsNumber rest) :
    readScalar (compactBytes v ++ rest) = .ok (v.reread, rest) := by
  cases v with
  | null =>
    have hbytes : compactBytes .null = 'n'.toUInt8 :: ['u', 'l', 'l'].map Char.toUInt8 := by
      simp [compactBytes, compact, appendTo, bytesOf_eq, utf8EncodeChar_of_lt]
    have hchar : Char.ofNat 'n'.toUInt8.toNat = 'n' := by decide
    rw [hbytes, List.cons_append, readScalar, hchar]
    simp only [readWord_append, bind, Except.bind, pure, Except.pure, reread]
  | boolean b =>
    cases b with
    | true =>
      have hbytes : compactBytes (.boolean true) =
          't'.toUInt8 :: ['r', 'u', 'e'].map Char.toUInt8 := by
        simp [compactBytes, compact, appendTo, bytesOf_eq, utf8EncodeChar_of_lt]
      have hchar : Char.ofNat 't'.toUInt8.toNat = 't' := by decide
      rw [hbytes, List.cons_append, readScalar, hchar]
      simp only [readWord_append, bind, Except.bind, pure, Except.pure, reread]
    | false =>
      have hbytes : compactBytes (.boolean false) =
          'f'.toUInt8 :: ['a', 'l', 's', 'e'].map Char.toUInt8 := by
        simp [compactBytes, compact, appendTo, bytesOf_eq, utf8EncodeChar_of_lt]
      have hchar : Char.ofNat 'f'.toUInt8.toNat = 'f' := by decide
      rw [hbytes, List.cons_append, readScalar, hchar]
      simp only [readWord_append, bind, Except.bind, pure, Except.pure, reread]
  | number n =>
    have hbytes : compactBytes (.number n) = bytesOf n.text := by
      simp [compactBytes, compact, appendTo]
    rw [hbytes]
    cases n with
    | integer i =>
      have hi : IsMachineInteger i := by cases depth <;> exact h
      exact readScalar_integer hi hrest
    | float x => exact readScalar_float x hrest
  | string s =>
    have hbytes : compactBytes (.string s) = bytesOf (Quoted.document s) := by
      simp [compactBytes, compact, appendTo]
    have hchar : Char.ofNat '"'.toUInt8.toNat = '"' := by decide
    rw [hbytes, bytesOf_document, List.append_assoc, List.cons_append, readScalar, hchar]
    simp only [List.singleton_append, readString_document, bind, Except.bind, pure, Except.pure,
      reread]
  | array items => cases hscalar
  | object entries => cases hscalar

theorem isItem_compactBytes {depth : Nat} {v : Json} (h : v.IsStorable depth) :
    IsItem (compactBytes v) := by
  cases v with
  | array items =>
    rw [bytesOf_array]
    exact ⟨_, _, rfl, by decide, by decide⟩
  | object entries =>
    rw [bytesOf_object]
    exact ⟨_, _, rfl, by decide, by decide⟩
  | null | boolean | number | string =>
    have hend : EndsNumber [] := fun b hb => nomatch hb
    have hread := readScalar_compact h trivial hend
    rw [List.append_nil] at hread
    obtain ⟨b, bs, hbytes, hspace, -, -, hclose⟩ := head_of_readScalar hread
    exact ⟨b, bs, hbytes, hspace, hclose⟩

theorem length_le_separated {texts : List Bytes} (h : ∀ text ∈ texts, text ≠ []) :
    texts.length ≤ (separated texts).length ∧
      ∀ text ∈ texts, text.length ≤ (separated texts).length := by
  have hfollowing : ∀ texts : List Bytes, texts.length ≤ (following texts).length ∧
      ∀ text ∈ texts, text.length ≤ (following texts).length := by
    intro texts
    induction texts with
    | nil => simp [following]
    | cons text texts ih =>
      have hlength : (following (text :: texts)).length =
          1 + text.length + (following texts).length := by
        simp [following]
        omega
      rw [hlength, List.length_cons]
      refine ⟨by omega, List.forall_mem_cons.mpr ⟨by omega, fun t ht => ?_⟩⟩
      have := ih.2 t ht
      omega
  cases texts with
  | nil => simp
  | cons text texts =>
    obtain ⟨hlength, hmem⟩ := hfollowing texts
    have hpos := List.length_pos_iff.mpr (h text List.mem_cons_self)
    rw [separated, List.length_append, List.length_cons]
    refine ⟨by omega, List.forall_mem_cons.mpr ⟨by omega, fun t ht => ?_⟩⟩
    have := hmem t ht
    omega

theorem length_le_separated_entries {α : Type} (write : Char → String) (text : α → Bytes)
    (entries : List (String × α)) :
    entries.length ≤ (separated (entries.map (entryText write text))).length ∧
      ∀ entry ∈ entries,
        (entryText write text entry).length ≤
          (separated (entries.map (entryText write text))).length := by
  have hne : ∀ bytes ∈ entries.map (entryText write text), bytes ≠ [] := by
    intro bytes hbytes
    obtain ⟨entry, -, rfl⟩ := List.mem_map.mp hbytes
    simp [entryText]
  obtain ⟨hcount, hlength⟩ := length_le_separated hne
  rw [List.length_map] at hcount
  exact ⟨hcount, fun entry hentry => hlength _ (List.mem_map_of_mem hentry)⟩

/-- Values that are storable at a depth are read of their texts. -/
def ReadsStorable (bound depth : Nat) : Prop :=
  ∀ v : Json, v.IsStorable depth → (compactBytes v).length ≤ bound → ∀ rest, EndsNumber rest →
    readValue bound depth (compactBytes v ++ rest) = .ok (v.reread, rest)

theorem readItems_compact {bound depth : Nat} (hread : ReadsStorable bound depth)
    {items : List Json} (h : ∀ item ∈ items, item.IsStorable depth)
    (hbound : (separated (items.map compactBytes)).length ≤ bound) (rest : Bytes) :
    readItems (readValue bound depth) bound true
        (separated (items.map compactBytes) ++ ']'.toUInt8 :: rest) =
      .ok (items.map reread, ']'.toUInt8 :: rest) := by
  have hitem : ∀ item ∈ items, IsItem (compactBytes item) := fun item hmem =>
    isItem_compactBytes (h item hmem)
  have hne : ∀ text ∈ items.map compactBytes, text ≠ [] := by
    rintro _ htext
    obtain ⟨item, hmem, rfl⟩ := List.mem_map.mp htext
    obtain ⟨b, bs, hbytes, -⟩ := hitem item hmem
    simp [hbytes]
  obtain ⟨hcount, hlength⟩ := length_le_separated hne
  rw [List.length_map] at hcount
  refine readItems_separated hitem (fun item hmem rest hrest => ?_) (hcount.trans hbound) rest
  exact hread item (h item hmem) ((hlength _ (List.mem_map_of_mem hmem)).trans hbound) rest hrest

theorem readEntries_compact {bound depth : Nat} (hread : ReadsStorable bound depth)
    {entries : List (String × Json)} (h : ∀ v ∈ entries.map Prod.snd, v.IsStorable depth)
    (hbound : (separated (entries.map entryBytes)).length ≤ bound) (rest : Bytes) :
    readEntries (readValue bound depth) bound true
        (separated (entries.map entryBytes) ++ '\x7d'.toUInt8 :: rest) =
      .ok (entries.map (Prod.map id reread), '\x7d'.toUInt8 :: rest) := by
  obtain ⟨hcount, hlength⟩ := length_le_separated_entries Quoted.documentChar compactBytes entries
  refine readEntries_separated isQuoting_documentChar (fun v hv rest hrest => ?_)
    (hcount.trans hbound) rest
  obtain ⟨entry, hentry, rfl⟩ := List.mem_map.mp hv
  have hentryLength := (hlength entry hentry).trans hbound
  simp only [entryText, List.length_append, List.length_cons] at hentryLength
  exact hread _ (h _ hv) (by omega) rest hrest

/-- A storable value is read of its text, wherever it stands in a document. -/
theorem readValue_compact (bound depth : Nat) : ReadsStorable bound depth := by
  induction depth with
  | zero =>
    intro v h hbound rest hrest
    cases v with
    | array items => cases h
    | object entries => cases h
    | null | boolean | number | string =>
      exact readValue_of_readScalar (readScalar_compact h trivial hrest)
  | succ depth ih =>
    intro v h hbound rest hrest
    cases v with
    | array items =>
      rw [bytesOf_array] at hbound ⊢
      rw [List.length_cons, List.length_append] at hbound
      have hitems := readItems_compact ih h (by omega) rest
      rw [List.cons_append, List.append_assoc, readValue, skipSpace_cons (by decide)]
      simp only [if_true, List.singleton_append, hitems, closeList_cons, bind, Except.bind, pure,
        Except.pure, reread, rereadItems_eq_map]
    | object entries =>
      obtain ⟨hnodup, hvalues⟩ := h
      rw [bytesOf_object] at hbound ⊢
      rw [List.length_cons, List.length_append] at hbound
      have hentries := readEntries_compact ih hvalues (by omega) rest
      have hlist : '\x7b'.toUInt8 ≠ '['.toUInt8 := by decide
      have hkeys : ((entries.map (Prod.map id reread)).map Prod.fst).Nodup := by
        rwa [List.map_map]
      rw [List.cons_append, List.append_assoc, readValue, skipSpace_cons (by decide)]
      simp only [if_neg hlist, if_true, List.singleton_append, hentries, closeObject_cons,
        insertAll_of_nodup hkeys, bind, Except.bind, pure, Except.pure, reread,
        rereadEntries_eq_map]
    | null | boolean | number | string =>
      exact readValue_of_readScalar (readScalar_compact h trivial hrest)

/-- Of the values that hold no other only floating-point numbers are read as others. -/
theorem reread_eq_self {v : Json} (h : v.IsStorable 0) (hfloat : ∀ x, v ≠ .number (.float x)) :
    v.reread = v := by
  cases v with
  | array | object => cases h
  | number n =>
    cases n with
    | float x => exact absurd rfl (hfloat x)
    | integer => rfl
  | null | boolean | string => rfl

/-- Storable values that hold no other are told apart by their texts. -/
theorem compact_inj {v w : Json} (hv : v.IsStorable 0) (hw : w.IsStorable 0) :
    v.compact = w.compact ↔ v = w := by
  refine ⟨fun h => ?_, congrArg compact⟩
  have hends : EndsNumber [] := fun b hb => nomatch hb
  have hbytes : compactBytes v = compactBytes w := congrArg bytesOf h
  have hreadv := readValue_compact (compactBytes v).length 0 v hv le_rfl [] hends
  have hreadw := readValue_compact (compactBytes v).length 0 w hw (by rw [hbytes]) [] hends
  rw [← hbytes, hreadv] at hreadw
  have hreread : w.reread = v.reread := (Prod.mk.inj (Except.ok.inj hreadw)).1.symm
  by_cases hfloatv : ∃ x, v = .number (.float x)
  · obtain ⟨x, rfl⟩ := hfloatv
    by_cases hfloatw : ∃ y, w = .number (.float y)
    · obtain ⟨y, rfl⟩ := hfloatw
      have htext (x : Binary64) : (number (.float x)).compact = (JsonNumber.float x).text := by
        simp [compact, appendTo]
      rw [htext, htext] at h
      rw [float_text_inj h]
    · rw [reread_eq_self hw (not_exists.mp hfloatw)] at hreread
      exact absurd ⟨_, hreread⟩ hfloatw
  · rw [reread_eq_self hv (not_exists.mp hfloatv)] at hreread
    by_cases hfloatw : ∃ y, w = .number (.float y)
    · obtain ⟨y, rfl⟩ := hfloatw
      exact absurd ⟨_, hreread.symm⟩ hfloatv
    · rw [reread_eq_self hw (not_exists.mp hfloatw)] at hreread
      exact hreread.symm

end Json

end CampusQuery
