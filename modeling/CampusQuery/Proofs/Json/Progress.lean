import Mathlib
import CampusQuery.Json.Form

/-!
# Readers go forward

Whatever is read, no more bytes are left than there were. So a loop that is given as many steps as
there are bytes ends where its list or object ends, and never for want of steps.

* `Json.Leaves` — a bound on what reading leaves, with `Leaves.bind` for one reading after another.
* `Json.leaves_readValue`, `Json.leaves_skipValue` and so on — the readers one by one.
* `Form.isSet_of_read` — a document that is read has every field that may not be left out.
-/

namespace CampusQuery

namespace Json

variable {α β : Type}

/-- No more than `n` bytes are left of what has been read, if the reading does not fail. -/
def Leaves (left : α → Nat) (n : Nat) (result : Except Failure α) : Prop :=
  ∀ a, result = .ok a → left a ≤ n

/-- The bytes that are left when a value has been read. -/
def afterValue (read : α × Bytes) : Nat :=
  read.2.length

/-- The bytes that are left when something may have been found. -/
def afterFound (left : α → Nat) (n : Nat) (found : Option α) : Nat :=
  found.elim n left

namespace Leaves

variable {left : α → Nat} {left' : β → Nat} {n n' : Nat}

theorem ok {a : α} (h : left a ≤ n) : Leaves left n (.ok a) := by
  rintro b ⟨⟩
  exact h

theorem fail (fault : Fault) (rest : Bytes) : Leaves left n (Json.fail fault rest) :=
  nofun

theorem failAhead (fault : Fault) (rest : Bytes) : Leaves left n (Json.failAhead fault rest) :=
  nofun

theorem mono {result : Except Failure α} (h : Leaves left n result) (hle : n ≤ n') :
    Leaves left n' result :=
  fun a ha => (h a ha).trans hle

theorem bind {result : Except Failure α} {next : α → Except Failure β}
    (h : Leaves left n result) (hnext : ∀ a, left a ≤ n → Leaves left' n' (next a)) :
    Leaves left' n' (result >>= next) := by
  cases result with
  | error => exact nofun
  | ok a => exact hnext a (h a rfl)

end Leaves

theorem length_skipSpace_le (rest : Bytes) : (skipSpace rest).length ≤ rest.length :=
  List.length_dropWhile_le _ _

/-- What stands after the first byte that is no space. -/
theorem length_of_skipSpace {rest after : Bytes} {c : UInt8} (h : skipSpace rest = c :: after) :
    after.length + 1 ≤ rest.length := by
  have := length_skipSpace_le rest
  rwa [h] at this

theorem length_le_of_skipSpace {rest after : Bytes} {c : UInt8} (h : skipSpace rest = c :: after) :
    after.length ≤ rest.length :=
  (Nat.le_succ _).trans (length_of_skipSpace h)

/-! ## Words, numbers and strings -/

theorem leaves_readWord (word : List Char) (rest : Bytes) :
    Leaves List.length rest.length (readWord word rest) := by
  induction word generalizing rest with
  | nil => exact .ok le_rfl
  | cons c word ih =>
    cases rest with
    | nil => exact .fail _ _
    | cons b rest =>
      rw [readWord]
      split_ifs
      · exact (ih rest).mono (Nat.le_succ _)
      · exact .fail _ _

theorem length_readExponentDigits_le (n : Nat) (rest : Bytes) :
    (readExponentDigits n rest).2.length ≤ rest.length := by
  induction rest generalizing n with
  | nil => exact le_rfl
  | cons c rest ih =>
    rw [readExponentDigits]
    dsimp only
    split_ifs
    · exact (ih _).trans (Nat.le_succ _)
    · exact Nat.le_succ _
    · exact le_rfl

theorem leaves_readExponent (whole fraction rest : Bytes) :
    Leaves afterValue rest.length (readExponent whole fraction rest) := by
  unfold readExponent
  split
  rename_i down signed hsigned
  have hle : signed.length ≤ rest.length := by
    cases rest with
    | nil => cases hsigned; exact le_rfl
    | cons c after =>
      dsimp only at hsigned
      split_ifs at hsigned <;> cases hsigned <;> simp
  cases signed with
  | nil => exact .fail _ _
  | cons c after =>
    dsimp only
    by_cases hc : isDigit c = true
    · rw [if_pos hc]
      have hdigits := length_readExponentDigits_le 0 (c :: after)
      generalize readExponentDigits 0 (c :: after) = digits at hdigits
      obtain ⟨_ | size, rest'⟩ := digits
      · have hdrop : (rest'.dropWhile isDigit).length ≤ rest'.length :=
          List.length_dropWhile_le _ _
        dsimp only
        split_ifs
        · exact .ok ((hdrop.trans hdigits).trans hle)
        · exact .fail _ _
      · exact .ok (hdigits.trans hle)
    · rw [if_neg hc]
      exact .fail _ _

theorem leaves_readExponent? (whole fraction rest : Bytes) :
    Leaves afterValue rest.length (readExponent? whole fraction rest) := by
  cases rest with
  | nil => exact .ok le_rfl
  | cons c after =>
    rw [readExponent?]
    split_ifs
    · exact (leaves_readExponent _ _ _).mono (Nat.le_succ _)
    · exact .ok le_rfl

theorem leaves_readNumeral (rest : Bytes) :
    Leaves afterValue rest.length (readNumeral rest) := by
  cases rest with
  | nil => exact .fail _ _
  | cons c after =>
    have hdrop : ((c :: after).dropWhile isDigit).length ≤ (c :: after).length :=
      List.length_dropWhile_le _ _
    rw [readNumeral]
    dsimp only
    split_ifs
    · exact .fail _ _
    · exact .failAhead _ _
    · split
      · exact .ok (Nat.zero_le _)
      · rename_i mark rest' hmark
        rw [hmark] at hdrop
        have hplaces : (rest'.dropWhile isDigit).length ≤ rest'.length :=
          List.length_dropWhile_le _ _
        have hrest : rest'.length ≤ (c :: after).length := (Nat.le_succ _).trans hdrop
        split_ifs
        · exact (leaves_readExponent? _ _ _).mono (hplaces.trans hrest)
        · exact .failAhead _ _
        · exact .failAhead _ _
        · exact (leaves_readExponent? _ _ _).mono hdrop

theorem leaves_readNumber (negative : Bool) (rest : Bytes) :
    Leaves afterValue rest.length (readNumber negative rest) := by
  refine (leaves_readNumeral rest).bind fun (a, rest') hle => ?_
  dsimp only
  split
  · exact .ok hle
  · exact .fail _ _

theorem leaves_readStringFrom (out : ByteArray) (escape : Escape) (rest : Bytes) :
    Leaves afterValue rest.length (readStringFrom out escape rest) := by
  induction rest generalizing out escape with
  | nil => exact .fail _ _
  | cons c rest ih =>
    have hnext (out : ByteArray) (escape : Escape) :
        Leaves afterValue (c :: rest).length (readStringFrom out escape rest) :=
      (ih out escape).mono (Nat.le_succ _)
    cases escape <;> rw [readStringFrom]
    case none =>
      split_ifs
      · split
        · exact .ok (Nat.le_succ _)
        · exact .fail _ _
      · exact hnext _ _
      · exact .fail _ _
      · exact hnext _ _
    case mark =>
      split_ifs
      · exact hnext _ _
      · split
        · exact hnext _ _
        · exact .fail _ _
    case digits =>
      split_ifs
      · exact hnext _ _
      · split
        · exact .fail _ _
        · split
          · exact hnext _ _
          · exact hnext _ _
          · exact .fail _ _
    case pair =>
      split_ifs
      · exact hnext _ _
      · exact .fail _ _
    case pairMark =>
      split_ifs
      · exact hnext _ _
      · exact .fail _ _

theorem leaves_readString (rest : Bytes) : Leaves afterValue rest.length (readString rest) :=
  leaves_readStringFrom _ _ _

theorem leaves_readScalar (rest : Bytes) : Leaves afterValue rest.length (readScalar rest) := by
  cases rest with
  | nil => exact .failAhead _ _
  | cons c after =>
    have hafter : after.length ≤ (c :: after).length := Nat.le_succ _
    have hword (word : List Char) (v : Json) : Leaves afterValue (c :: after).length
        (do return (v, ← readWord word after)) :=
      ((leaves_readWord word after).mono hafter).bind fun _ h => .ok h
    rw [readScalar]
    dsimp only
    split
    · exact hword _ _
    · exact hword _ _
    · exact hword _ _
    · exact ((leaves_readString after).mono hafter).bind fun _ h => .ok h
    · exact ((leaves_readNumber true after).mono hafter).bind fun _ h => .ok h
    · split_ifs
      · exact (leaves_readNumber false _).bind fun _ h => .ok h
      · exact .failAhead _ _

/-! ## Lists and objects -/

theorem leaves_nextItem (first : Bool) (rest : Bytes) :
    Leaves (afterFound List.length rest.length) rest.length (nextItem first rest) := by
  unfold nextItem
  cases hskip : skipSpace rest with
  | nil => exact .failAhead _ _
  | cons c after =>
    have hafter := length_of_skipSpace hskip
    dsimp only
    split_ifs
    · exact .ok le_rfl
    · exact .ok hafter
    · cases hnext : skipSpace after with
      | nil => exact .failAhead _ _
      | cons d rest' =>
        have hrest := length_of_skipSpace hnext
        dsimp only
        split_ifs
        · exact .failAhead _ _
        · exact .ok (hrest.trans ((Nat.le_succ _).trans hafter))
    · exact .failAhead _ _

theorem leaves_closeList (rest : Bytes) : Leaves List.length rest.length (closeList rest) := by
  unfold closeList
  cases hskip : skipSpace rest with
  | nil => exact .failAhead _ _
  | cons c after =>
    dsimp only
    split_ifs
    · exact .ok (length_le_of_skipSpace hskip)
    · exact .failAhead _ _
    · exact .failAhead _ _
    · exact .failAhead _ _

theorem leaves_closeObject (rest : Bytes) : Leaves List.length rest.length (closeObject rest) := by
  unfold closeObject
  cases hskip : skipSpace rest with
  | nil => exact .failAhead _ _
  | cons c after =>
    dsimp only
    split_ifs
    · exact .ok (length_le_of_skipSpace hskip)
    · exact .failAhead _ _
    · exact .failAhead _ _

theorem leaves_readItems {item : Reader α} (hitem : ∀ rest, Leaves afterValue rest.length (item rest))
    (bound : Nat) (first : Bool) (rest : Bytes) :
    Leaves afterValue rest.length (readItems item bound first rest) := by
  induction bound generalizing first rest with
  | zero => exact .ok le_rfl
  | succ bound ih =>
    rw [readItems]
    refine (leaves_nextItem first rest).bind fun found hfound => ?_
    cases found with
    | none => exact .ok le_rfl
    | some rest' =>
      refine ((hitem rest').mono hfound).bind fun read hread => ?_
      exact ((ih false read.2).mono hread).bind fun _ h => .ok h

theorem leaves_readKey (rest : Bytes) : Leaves afterValue rest.length (readKey rest) := by
  cases rest with
  | nil => exact .failAhead _ _
  | cons c after =>
    rw [readKey]
    split_ifs
    · exact (leaves_readString after).mono (Nat.le_succ _)
    · exact .failAhead _ _

theorem leaves_nextKey (first : Bool) (rest : Bytes) :
    Leaves (afterFound afterValue rest.length) rest.length (nextKey first rest) := by
  have hkey {after : Bytes} (h : after.length ≤ rest.length) :
      Leaves (afterFound afterValue rest.length) rest.length (some <$> readKey after) :=
    ((leaves_readKey after).mono h).bind fun _ h => .ok h
  unfold nextKey
  cases hskip : skipSpace rest with
  | nil => exact .failAhead _ _
  | cons c after =>
    have hafter := length_of_skipSpace hskip
    dsimp only
    split_ifs
    · exact .ok le_rfl
    · exact hkey hafter
    · exact .failAhead _ _
    · exact hkey ((length_skipSpace_le after).trans ((Nat.le_succ _).trans hafter))
    · exact .failAhead _ _

/-- After a colon at least one byte less is left. -/
theorem leaves_readColon (rest : Bytes) :
    Leaves (fun rest => rest.length + 1) rest.length (readColon rest) := by
  unfold readColon
  cases hskip : skipSpace rest with
  | nil => exact .failAhead _ _
  | cons c after =>
    dsimp only
    split_ifs
    · exact .ok (length_of_skipSpace hskip)
    · exact .failAhead _ _

/-- After a colon and what stands after it fewer bytes are left. -/
theorem length_lt_of_readColon {rest body rest' : Bytes} (hcolon : readColon rest = .ok body)
    (h : rest'.length ≤ body.length) : rest'.length < rest.length :=
  (Nat.lt_succ_of_le h).trans_le (leaves_readColon rest body hcolon)

theorem leaves_readEntries {value : Reader α}
    (hvalue : ∀ rest, Leaves afterValue rest.length (value rest)) (bound : Nat) (first : Bool)
    (rest : Bytes) : Leaves afterValue rest.length (readEntries value bound first rest) := by
  induction bound generalizing first rest with
  | zero => exact .ok le_rfl
  | succ bound ih =>
    rw [readEntries]
    refine (leaves_nextKey first rest).bind fun found hfound => ?_
    rcases found with _ | ⟨key, rest'⟩
    · exact .ok le_rfl
    · refine ((leaves_readColon rest').mono hfound).bind fun body hbody => ?_
      refine ((hvalue body).mono ((Nat.le_succ _).trans hbody)).bind fun read hread => ?_
      exact ((ih false read.2).mono hread).bind fun _ h => .ok h

theorem leaves_readValue (bound depth : Nat) (rest : Bytes) :
    Leaves afterValue rest.length (readValue bound depth rest) := by
  induction depth generalizing rest with
  | zero =>
    unfold readValue
    cases hskip : skipSpace rest with
    | nil => exact .failAhead _ _
    | cons c after =>
      dsimp only
      split_ifs
      · exact .failAhead _ _
      · exact .failAhead _ _
      · exact (leaves_readScalar _).mono (length_of_skipSpace hskip)
  | succ depth ih =>
    unfold readValue
    cases hskip : skipSpace rest with
    | nil => exact .failAhead _ _
    | cons c after =>
      have hafter : after.length ≤ rest.length := length_le_of_skipSpace hskip
      dsimp only
      split_ifs
      · refine ((leaves_readItems ih bound true after).mono hafter).bind fun read hread => ?_
        exact ((leaves_closeList read.2).mono hread).bind fun _ h => .ok h
      · refine ((leaves_readEntries ih bound true after).mono hafter).bind fun read hread => ?_
        exact ((leaves_closeObject read.2).mono hread).bind fun _ h => .ok h
      · exact (leaves_readScalar _).mono (length_of_skipSpace hskip)

/-! ## Passing over a value -/

theorem leaves_skipString (escaped : Bool) (digits : Nat) (good : Bool) (rest : Bytes) :
    Leaves List.length rest.length (skipString escaped digits good rest) := by
  induction rest generalizing escaped digits good with
  | nil => exact .fail _ _
  | cons c rest ih =>
    have hnext (escaped : Bool) (digits : Nat) (good : Bool) :
        Leaves List.length (c :: rest).length (skipString escaped digits good rest) :=
      (ih escaped digits good).mono (Nat.le_succ _)
    rw [skipString]
    dsimp only
    split_ifs
    all_goals first
      | exact hnext _ _ _
      | exact .fail _ _
      | exact .ok (Nat.le_succ _)

theorem leaves_skipExponent (rest : Bytes) :
    Leaves List.length rest.length (skipExponent rest) := by
  cases rest with
  | nil => exact .ok le_rfl
  | cons c after =>
    have hdigits {signed : Bytes} (h : signed.length ≤ after.length) :
        Leaves List.length (c :: after).length
          (if digitAhead signed then .ok (signed.dropWhile isDigit)
            else failAhead .badNumber signed) := by
      have hdrop : (signed.dropWhile isDigit).length ≤ signed.length :=
        List.length_dropWhile_le _ _
      split_ifs
      · exact .ok (hdrop.trans (h.trans (Nat.le_succ _)))
      · exact .failAhead _ _
    unfold skipExponent
    dsimp only
    by_cases hc : c = 'e'.toUInt8 ∨ c = 'E'.toUInt8
    · rw [if_pos hc]
      apply hdigits
      cases after with
      | nil => exact le_rfl
      | cons sign after =>
        dsimp only
        split_ifs
        · exact Nat.le_succ _
        · exact le_rfl
    · rw [if_neg hc]
      exact .ok le_rfl

theorem leaves_skipNumber (rest : Bytes) : Leaves List.length rest.length (skipNumber rest) := by
  cases rest with
  | nil => exact .fail _ _
  | cons c after =>
    have hdrop : ((c :: after).dropWhile isDigit).length ≤ (c :: after).length :=
      List.length_dropWhile_le _ _
    rw [skipNumber]
    split_ifs
    · exact .fail _ _
    · exact .failAhead _ _
    · cases hmark : (c :: after).dropWhile isDigit with
      | nil => exact .ok (Nat.zero_le _)
      | cons mark rest' =>
        rw [hmark] at hdrop
        have hplaces : (rest'.dropWhile isDigit).length ≤ rest'.length :=
          List.length_dropWhile_le _ _
        dsimp only
        split_ifs
        · exact (leaves_skipExponent _).mono (hplaces.trans ((Nat.le_succ _).trans hdrop))
        · exact .failAhead _ _
        · exact (leaves_skipExponent _).mono hdrop

theorem leaves_skipKey (rest : Bytes) : Leaves List.length rest.length (skipKey rest) := by
  unfold skipKey
  cases hskip : skipSpace rest with
  | nil => exact .failAhead _ _
  | cons c after =>
    dsimp only
    split_ifs
    · refine ((leaves_skipString _ _ _ after).mono
        (length_le_of_skipSpace hskip)).bind fun rest' hrest' => ?_
      exact fun body hbody => (Nat.le_succ _).trans ((leaves_readColon rest' body hbody).trans hrest')
    · exact .failAhead _ _

theorem leaves_skipToItem (open_ : Bracket) (rest : Bytes) :
    Leaves List.length rest.length (skipToItem open_ rest) := by
  cases open_ with
  | list => exact .ok le_rfl
  | object => exact leaves_skipKey rest

/-- The bytes that are left when some brackets are still open. -/
def afterBrackets (left : List Bracket × Bytes) : Nat :=
  left.2.length

theorem leaves_skipPastItem (outer : List Bracket) (rest : Bytes) :
    Leaves afterBrackets rest.length (skipPastItem outer rest) := by
  induction outer generalizing rest with
  | nil => exact .ok le_rfl
  | cons open_ outer ih =>
    rw [skipPastItem]
    cases hskip : skipSpace rest with
    | nil => exact .failAhead _ _
    | cons c after =>
      have hafter : after.length ≤ rest.length := length_le_of_skipSpace hskip
      dsimp only
      split_ifs
      · exact ((leaves_skipToItem open_ after).mono hafter).bind fun _ h => .ok h
      · exact (ih after).mono hafter
      · exact .failAhead _ _

theorem leaves_skipPastOpen (open_ : Bracket) (outer : List Bracket) (rest : Bytes) :
    Leaves afterBrackets rest.length (skipPastOpen open_ outer rest) := by
  unfold skipPastOpen
  cases hskip : skipSpace rest with
  | nil => exact .failAhead _ _
  | cons c after =>
    dsimp only
    split_ifs
    · exact (leaves_skipPastItem outer after).mono (length_le_of_skipSpace hskip)
    · exact ((leaves_skipToItem open_ _).mono (length_of_skipSpace hskip)).bind fun _ h => .ok h

theorem leaves_skipScalar (rest : Bytes) : Leaves List.length rest.length (skipScalar rest) := by
  cases rest with
  | nil => exact .failAhead _ _
  | cons c after =>
    have hafter : after.length ≤ (c :: after).length := Nat.le_succ _
    rw [skipScalar]
    split
    · exact (leaves_readWord _ _).mono hafter
    · exact (leaves_readWord _ _).mono hafter
    · exact (leaves_readWord _ _).mono hafter
    · exact (leaves_skipString _ _ _ _).mono hafter
    · exact (leaves_skipNumber _).mono hafter
    · split_ifs
      · exact leaves_skipNumber _
      · exact .failAhead _ _

theorem leaves_skipWithin (bound : Nat) (outer : List Bracket) (rest : Bytes) :
    Leaves List.length rest.length (skipWithin bound outer rest) := by
  induction bound generalizing outer rest with
  | zero => exact .ok le_rfl
  | succ bound ih =>
    rw [skipWithin]
    have hnext (past : List Bracket × Bytes) (hpast : afterBrackets past ≤ rest.length) :
        Leaves List.length rest.length
          (if past.1.isEmpty then pure past.2 else skipWithin bound past.1 past.2) := by
      split_ifs
      · exact .ok hpast
      · exact (ih past.1 past.2).mono hpast
    cases hskip : skipSpace rest with
    | nil => exact (Leaves.failAhead _ _).bind hnext
    | cons c after =>
      have hafter := length_of_skipSpace hskip
      have hwithin := (Nat.le_succ _).trans hafter
      dsimp only
      split_ifs
      · exact ((leaves_skipPastOpen .list outer after).mono hwithin).bind hnext
      · exact ((leaves_skipPastOpen .object outer after).mono hwithin).bind hnext
      · refine ((leaves_skipScalar _).mono hafter).bind fun rest' hrest' => ?_
        exact ((leaves_skipPastItem outer rest').mono hrest').bind hnext

theorem leaves_skipValue (bound : Nat) (rest : Bytes) :
    Leaves List.length rest.length (skipValue bound rest) :=
  leaves_skipWithin bound [] rest

/-! ## Values of fields -/

theorem leaves_mismatch {left : α → Nat} {n : Nat} (m : Mismatch) (rest : Bytes) :
    Leaves left n (mismatch m rest) :=
  nofun

theorem exists_unwanted_eq_error (wanted : Wanted) (rest : Bytes) :
    ∃ failure, unwanted (α := α) wanted rest = .error failure := by
  cases rest with
  | nil => exact ⟨_, rfl⟩
  | cons c after =>
    rw [unwanted]
    split_ifs
    · exact ⟨_, rfl⟩
    · exact ⟨_, rfl⟩
    · cases readScalar (c :: after) with
      | error failure => exact ⟨failure, rfl⟩
      | ok read => exact ⟨_, rfl⟩

theorem leaves_unwanted {left : α → Nat} {n : Nat} (wanted : Wanted) (rest : Bytes) :
    Leaves left n (unwanted wanted rest) := by
  obtain ⟨failure, hfailure⟩ := exists_unwanted_eq_error (α := α) wanted rest
  rw [hfailure]
  exact nofun

theorem leaves_readTextAs (wanted : Wanted) (rest : Bytes) :
    Leaves afterValue rest.length (readTextAs wanted rest) := by
  unfold readTextAs
  cases hskip : skipSpace rest with
  | nil => exact .failAhead _ _
  | cons c after =>
    dsimp only
    split_ifs
    · exact (leaves_readString after).mono (length_le_of_skipSpace hskip)
    · exact leaves_unwanted _ _

theorem leaves_readTime (rest : Bytes) : Leaves afterValue rest.length (readTime rest) := by
  refine (leaves_readTextAs _ rest).bind fun read hread => ?_
  dsimp only
  split
  · exact .ok hread
  · exact leaves_mismatch _ _

theorem leaves_readName (variants : List (String × α)) (rest : Bytes) :
    Leaves afterValue rest.length (readName variants rest) := by
  refine (leaves_readTextAs _ rest).bind fun read hread => ?_
  dsimp only
  split
  · exact .ok hread
  · exact leaves_mismatch _ _

theorem leaves_readVariant (variants : List (String × α)) (depth : Nat) (rest : Bytes) :
    Leaves afterValue rest.length (readVariant variants depth rest) := by
  unfold readVariant
  cases hskip : skipSpace rest with
  | nil => exact .failAhead _ _
  | cons c after =>
    have hafter := length_of_skipSpace hskip
    dsimp only
    split_ifs
    · exact (leaves_readName variants _).mono hafter
    · exact .failAhead _ _
    · refine ((leaves_readName variants after).mono ((Nat.le_succ _).trans hafter)).bind
        fun read hread => ?_
      refine ((leaves_readColon read.2).mono hread).bind fun body hbody => ?_
      cases hnext : skipSpace body with
      | nil => exact nofun
      | cons d after' =>
        have hafter' := (length_le_of_skipSpace hnext).trans ((Nat.le_succ _).trans hbody)
        dsimp only
        split_ifs
        · refine ((leaves_readWord _ after').mono hafter').bind fun word hword => ?_
          cases hend : skipSpace word with
          | nil => exact .fail _ _
          | cons e after'' =>
            dsimp only
            split_ifs
            · exact .ok ((length_le_of_skipSpace hend).trans hword)
            · exact .fail _ _
        · obtain ⟨failure, hfailure⟩ := exists_unwanted_eq_error (α := Bytes) .nothing (d :: after')
          rw [hfailure]
          exact nofun
    · exact .failAhead _ _

theorem leaves_readList (bound depth : Nat) (rest : Bytes) :
    Leaves afterValue rest.length (readList bound depth rest) := by
  unfold readList
  cases hskip : skipSpace rest with
  | nil => exact .failAhead _ _
  | cons c after =>
    dsimp only
    split_ifs
    · cases depth with
      | zero => exact .failAhead _ _
      | succ depth =>
        refine ((leaves_readItems (leaves_readValue bound depth) bound true after).mono
          (length_le_of_skipSpace hskip)).bind fun read hread => ?_
        exact ((leaves_closeList read.2).mono hread).bind fun _ h => .ok h
    · exact leaves_unwanted _ _

end Json

/-! ## Whole forms -/

namespace Form

open Json

variable {δ : Type} {form : Form δ} {bound depth : Nat}

/-- The reader of each field goes forward, gives the field a value and no other field loses one. -/
structure Collects (form : Form δ) : Prop where
  forward : ∀ field ∈ form.fields, ∀ depth draft rest,
    Leaves afterValue rest.length (field.reader depth draft rest)
  sets : ∀ field ∈ form.fields, ∀ {depth draft rest read},
    field.reader depth draft rest = .ok read → field.isSet read.1 = true
  keeps : ∀ field ∈ form.fields, ∀ {depth draft rest read},
    field.reader depth draft rest = .ok read →
      ∀ other ∈ form.fields, other.isSet draft = true → other.isSet read.1 = true

/-- A draft has every field that may not be left out. -/
def IsComplete (form : Form δ) (draft : δ) : Prop :=
  ∀ field ∈ form.fields, field.optional = false → field.isSet draft = true

theorem exists_of_bind {α β : Type} {result : Except Failure α} {next : α → Except Failure β} {b : β}
    (h : (result >>= next) = .ok b) : ∃ a, result = .ok a ∧ next a = .ok b := by
  cases result with
  | error => cases h
  | ok a => exact ⟨a, rfl, h⟩

/-- With more steps than bytes, only the brace at its end ends an object. -/
theorem isComplete_of_readNamed (h : form.Collects) {steps : Nat} {first : Bool} {draft draft' : δ}
    {rest rest' : Bytes} (hsteps : rest.length < steps)
    (hread : readNamed form bound depth steps first draft rest = .ok (.ok draft', rest')) :
    form.IsComplete draft' := by
  induction steps generalizing first draft rest with
  | zero => exact absurd hsteps (Nat.not_lt_zero _)
  | succ steps ih =>
    rw [readNamed] at hread
    obtain ⟨found, hfound, hread⟩ := exists_of_bind hread
    have hleft := leaves_nextKey first rest found hfound
    rcases found with _ | ⟨key, rest₁⟩
    · dsimp only at hread
      split at hread
      · cases hread
      · rename_i hnone
        cases hread
        intro field hfield hrequired
        have := List.find?_eq_none.mp hnone field hfield
        simpa [hrequired] using this
    · have hfewer : rest₁.length ≤ steps := hleft.trans (Nat.le_of_lt_succ hsteps)
      dsimp only at hread
      split at hread
      · rename_i field hfield
        split_ifs at hread
        · cases hread
        · obtain ⟨body, hcolon, hread⟩ := exists_of_bind hread
          obtain ⟨⟨draft₁, rest₂⟩, hvalue, hread⟩ := exists_of_bind hread
          have hrest := h.forward field (List.mem_of_find?_eq_some hfield) _ _ _ _ hvalue
          exact ih ((length_lt_of_readColon hcolon hrest).trans_le hfewer) hread
      · split_ifs at hread
        · cases hread
        · obtain ⟨body, hcolon, hread⟩ := exists_of_bind hread
          obtain ⟨rest₂, hskip, hread⟩ := exists_of_bind hread
          have hrest := leaves_skipValue bound body rest₂ hskip
          exact ih ((length_lt_of_readColon hcolon hrest).trans_le hfewer) hread

/-- A list that ends early has left out none but the fields that may be left out. -/
theorem isSet_of_readPositional (h : form.Collects) {fields : List (FormField δ)}
    (hfields : ∀ field ∈ fields, field ∈ form.fields) {index : Nat} {draft draft' : δ}
    {rest rest' : Bytes}
    (hread : readPositional form depth fields index draft rest = .ok (.ok draft', rest')) :
    (∀ field ∈ form.fields, field.isSet draft = true → field.isSet draft' = true) ∧
      ∀ field ∈ fields, field.optional = false → field.isSet draft' = true := by
  induction fields generalizing index draft rest with
  | nil =>
    cases hread
    exact ⟨fun _ _ hset => hset, nofun⟩
  | cons field fields ih =>
    obtain ⟨hfield, hfields⟩ := List.forall_mem_cons.mp hfields
    rw [readPositional] at hread
    obtain ⟨found, -, hread⟩ := exists_of_bind hread
    cases found with
    | some rest₁ =>
      obtain ⟨⟨draft₁, rest₂⟩, hvalue, hread⟩ := exists_of_bind hread
      obtain ⟨hkeeps, hsets⟩ := ih hfields hread
      refine ⟨fun other hother hset => ?_, List.forall_mem_cons.mpr ⟨fun _ => ?_, hsets⟩⟩
      · exact hkeeps other hother (h.keeps field hfield hvalue other hother hset)
      · exact hkeeps field hfield (h.sets field hfield hvalue)
    | none =>
      dsimp only at hread
      split at hread
      · cases hread
      · rename_i hnone
        cases hread
        refine ⟨fun _ _ hset => hset, fun other hother hrequired => ?_⟩
        have := List.findIdx?_eq_none_iff.mp hnone other hother
        simp [hrequired] at this

theorem exists_of_readWhole {α : Type} {reader : Reader α} {document : Bytes} {x : α}
    (h : readWhole reader document = .ok x) : ∃ rest, reader document = .ok (x, rest) := by
  unfold readWhole at h
  dsimp only at h
  split at h
  · rename_i y hresult
    obtain rfl := Except.ok.inj h
    obtain ⟨⟨z, rest⟩, hread, hend⟩ := exists_of_bind hresult
    dsimp only at hend
    split at hend
    · obtain rfl := Except.ok.inj hend
      exact ⟨rest, hread⟩
    · cases hend
  · cases h

/-- A document that is read has every field that may not be left out. -/
theorem isComplete_of_read (h : form.Collects) {empty draft : δ} {document : Bytes}
    (hread : form.read empty document = .ok draft) : form.IsComplete draft := by
  obtain ⟨rest, hread⟩ := exists_of_readWhole hread
  have hlimit : nestingLimit = (nestingLimit - 1) + 1 := rfl
  rw [reader, hlimit] at hread
  cases hskip : skipSpace document with
  | nil => simp [hskip, failAhead] at hread
  | cons c after =>
    have hafter := length_of_skipSpace hskip
    rw [hskip] at hread
    dsimp only at hread
    split_ifs at hread
    · obtain ⟨⟨result, rest'⟩, hfields, hclose⟩ := exists_of_bind hread
      cases result with
      | error m => cases hclose
      | ok draft' =>
        obtain ⟨_, -, hdraft⟩ := exists_of_bind hclose
        cases hdraft
        exact (isSet_of_readPositional h (fun _ hfield => hfield) hfields).2
    · obtain ⟨⟨result, rest'⟩, hfields, hclose⟩ := exists_of_bind hread
      cases result with
      | error m => cases hclose
      | ok draft' =>
        obtain ⟨_, -, hdraft⟩ := exists_of_bind hclose
        cases hdraft
        exact isComplete_of_readNamed h hafter hfields
    · obtain ⟨failure, hfailure⟩ := exists_unwanted_eq_error (α := δ × Bytes)
        (.form form.name) (c :: after)
      rw [hfailure] at hread
      cases hread

end Form

end CampusQuery
