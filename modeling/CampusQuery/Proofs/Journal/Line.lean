import Mathlib
import CampusQuery.Journal.Journal
import CampusQuery.Proofs.Json.Value
import CampusQuery.Proofs.StableSort
import CampusQuery.Proofs.Text.ByteOrder

/-!
# Lines of the journal

A line of the journal is one object of JSON, and its end is its only control character. Whatever the
keys and values of an entry hold, a reader of documents finds them again in the order of the keys.

* `Json.entriesOf` — the entries of an object as they stand in a text, those of one key included.
* `Entry.controlFree_line`, `Entry.entriesOf_line` — what a line holds and how it is read.
* `Entry.line_eq_iff`, `Entry.line_eq_of_perm` — which entries have the same line.
* `Entry.splitOn_textOf` — the lines of a journal are those of its entries.
* `Entry.line_faithful` — all this of one line.
-/

namespace CampusQuery

namespace Json

/-! ## The entries of an object as they stand -/

/-- An object, with all of its entries in the order in which they stand. -/
def readObject (bound depth : Nat) : Reader (List (String × Json)) := fun rest =>
  match skipSpace rest with
  | [] => failAhead .endInValue []
  | c :: after =>
    if c = '\x7b'.toUInt8 then do
      let (entries, rest) ← readEntries (readValue bound depth) bound true after
      return (entries, ← closeObject rest)
    else
      failAhead .noValue (c :: after)

/-- The entries of the one object that a text holds. -/
def entriesOf (s : String) : Except ReadError (List (String × Json)) :=
  readWhole (readObject (bytesOf s).length (nestingLimit - 1)) (bytesOf s)

theorem readWhole_of_eq_ok {α : Type} {reader : Reader α} {document rest : Bytes} {x : α}
    (h : reader document = .ok (x, rest)) (hrest : skipSpace rest = []) :
    readWhole reader document = .ok x := by
  simp only [readWhole, h, hrest, bind, Except.bind]

/-- What is read as one object is the value that these entries make. -/
theorem readValue_of_readObject {bound depth : Nat} {bytes rest : Bytes}
    {entries : List (String × Json)} (h : readObject bound depth bytes = .ok (entries, rest)) :
    readValue bound (depth + 1) bytes = .ok (.object (insertAll entries), rest) := by
  have hlist : '\x7b'.toUInt8 ≠ '['.toUInt8 := by decide
  rw [readObject] at h
  rw [readValue]
  cases hskip : skipSpace bytes with
  | nil => simp only [hskip] at h; cases h
  | cons c after =>
    simp only [hskip] at h ⊢
    by_cases hc : c = '\x7b'.toUInt8
    · subst hc
      simp only [if_neg hlist, if_true] at h ⊢
      cases hread : readEntries (readValue bound depth) bound true after with
      | error failure => simp [hread, bind, Except.bind] at h
      | ok result =>
        obtain ⟨read, left⟩ := result
        simp only [hread, bind, Except.bind] at h ⊢
        cases hclose : closeObject left with
        | error failure => simp [hclose] at h
        | ok left' =>
          simp only [hclose, pure, Except.pure, Except.ok.injEq, Prod.mk.injEq] at h ⊢
          obtain ⟨rfl, rfl⟩ := h
          exact ⟨rfl, rfl⟩
    · simp only [if_neg hc] at h
      cases h

end Json

open Json

/-! ## Characters -/

/-- A text without control characters. -/
def ControlFree (s : String) : Prop :=
  ∀ c ∈ s.toList, isControl c = false

theorem controlFree_ofList {cs : List Char} (h : cs.any isControl = false) :
    ControlFree (String.ofList cs) := by
  rw [ControlFree, String.toList_ofList]
  exact fun c hc => Bool.eq_false_iff.mpr (List.any_eq_false.mp h c hc)

theorem ControlFree.append {s t : String} (hs : ControlFree s) (ht : ControlFree t) :
    ControlFree (s ++ t) := by
  intro c hc
  rw [String.toList_append, List.mem_append] at hc
  exact hc.elim (hs c) (ht c)

theorem ControlFree.intercalate {s : String} (hs : ControlFree s) {texts : List String}
    (h : ∀ text ∈ texts, ControlFree text) : ControlFree (s.intercalate texts) := by
  induction texts with
  | nil =>
    intro c hc
    simp at hc
  | cons text texts ih =>
    obtain ⟨htext, htexts⟩ := List.forall_mem_cons.mp h
    cases texts with
    | nil =>
      rw [String.intercalate_singleton]
      exact htext
    | cons next texts =>
      rw [String.intercalate_cons_cons]
      exact (htext.append hs).append (ih htexts)

theorem toNat_lt_of_isControl {c : Char} (h : isControl c = true) : c.toNat < 0x100 := by
  simp only [isControl, Bool.or_eq_true, Bool.and_eq_true, decide_eq_true_eq] at h
  omega

theorem le_toNat_of_not_isControl {c : Char} (h : ¬ isControl c = true) : 0x20 ≤ c.toNat := by
  simp only [isControl, Bool.or_eq_true, decide_eq_true_eq, not_or] at h
  omega

namespace Entry

theorem isQuoting_escapedChar : IsQuoting escapedChar := by
  intro c out rest
  unfold escapedChar
  split
  case h_6 hquote hmark _ _ _ =>
    split
    next hcontrol => exact readStringFrom_hex (toNat_lt_of_isControl hcontrol) out rest
    next hcontrol =>
      exact readStringFrom_literal hquote hmark (le_toNat_of_not_isControl hcontrol) out rest
  · exact readStringFrom_letter (l := '"') (by simp) (by decide) (by decide) out rest
  · exact readStringFrom_letter (l := '\\') (by simp) (by decide) (by decide) out rest
  · exact readStringFrom_letter (l := 'n') (by simp) (by decide) (by decide) out rest
  · exact readStringFrom_letter (l := 'r') (by simp) (by decide) (by decide) out rest
  · exact readStringFrom_letter (l := 't') (by simp) (by decide) (by decide) out rest

theorem controlFree_escapedChar (c : Char) : ControlFree (escapedChar c) := by
  have hdigit : ∀ d < 16, isControl d.digitChar = false := by decide
  unfold escapedChar
  split
  case h_6 =>
    split
    next hcontrol =>
      have hlt := toNat_lt_of_isControl hcontrol
      refine ControlFree.append (controlFree_ofList (by decide)) ?_
      rw [ControlFree, toList_hex hlt]
      simp only [List.forall_mem_cons]
      exact ⟨by decide, by decide, hdigit _ (by omega), hdigit _ (by omega), nofun⟩
    next hcontrol =>
      intro d hd
      obtain rfl : d = c := by simpa using hd
      exact Bool.not_eq_true _ ▸ hcontrol
  all_goals exact controlFree_ofList (by decide)

theorem quoted_eq_quotedBy : quoted = quotedBy escapedChar :=
  rfl

theorem controlFree_quoted (s : String) : ControlFree (quoted s) := by
  intro d hd
  rw [quoted_eq_quotedBy, toList_quotedBy] at hd
  simp only [List.cons_append, List.mem_cons, List.mem_append, List.mem_flatMap, List.not_mem_nil,
    or_false] at hd
  rcases hd with rfl | ⟨c, -, hd⟩ | rfl
  · decide
  · exact controlFree_escapedChar c d hd
  · decide

/-- No character of a line is a control character. -/
theorem controlFree_line (e : Entry) : ControlFree e.line := by
  have hopen : ControlFree "\x7b" := controlFree_ofList (by decide)
  have hcomma : ControlFree "," := controlFree_ofList (by decide)
  have hcolon : ControlFree ":" := controlFree_ofList (by decide)
  have hclose : ControlFree "\x7d" := controlFree_ofList (by decide)
  refine (hopen.append (hcomma.intercalate fun text htext => ?_)).append hclose
  obtain ⟨⟨key, value⟩, -, rfl⟩ := List.mem_map.mp htext
  exact ((controlFree_quoted key).append hcolon).append (controlFree_quoted value)

/-! ## Reading a line -/

/-- What a line tells, in the order in which it stands there. -/
def told (e : Entry) : List (String × Json) :=
  (("event", e.event) :: ("severity", e.severity.label) :: e.sortedFields).map fun f =>
    (f.1, .string f.2)

/-- The bytes of a text as a line holds it. -/
def valueBytes : Json → Bytes
  | .string s => bytesOf (quoted s)
  | _ => []

theorem bytesOf_intercalate (texts : List String) :
    bytesOf (",".intercalate texts) = separated (texts.map bytesOf) := by
  induction texts with
  | nil => simp [separated]
  | cons text texts ih =>
    cases texts with
    | nil => simp [separated, following]
    | cons next texts =>
      rw [String.intercalate_cons_cons, bytesOf_append, bytesOf_append, bytesOf_comma, ih]
      simp [separated, following]

theorem bytesOf_field (f : String × String) :
    bytesOf (quoted f.1 ++ ":" ++ quoted f.2) =
      entryText escapedChar valueBytes (f.1, .string f.2) := by
  simp [entryText, valueBytes, quoted_eq_quotedBy, bytesOf_colon]

/-- A line is an object of what it tells. -/
theorem bytesOf_line (e : Entry) :
    bytesOf e.line = '\x7b'.toUInt8 ::
      (separated (e.told.map (entryText escapedChar valueBytes)) ++ ['\x7d'.toUInt8]) := by
  rw [line, bytesOf_append, bytesOf_append, bytesOf_intercalate, bytesOf_leftBrace,
    bytesOf_rightBrace, told, List.map_map, List.map_map]
  exact congrArg (fun texts => '\x7b'.toUInt8 :: (separated texts ++ ['\x7d'.toUInt8]))
    (List.map_congr_left fun f _ => bytesOf_field f)

theorem reads_told (bound depth : Nat) (e : Entry) :
    Reads (readValue bound depth) valueBytes id (e.told.map Prod.snd) := by
  have hchar : Char.ofNat '"'.toUInt8.toNat = '"' := by decide
  intro v hv rest _
  simp only [told, List.map_map, List.mem_map, Function.comp_apply] at hv
  obtain ⟨⟨_, value⟩, -, rfl⟩ := hv
  apply readValue_of_readScalar
  rw [valueBytes, quoted_eq_quotedBy, bytesOf_quotedBy, List.append_assoc, List.cons_append,
    readScalar, hchar]
  simp only [List.singleton_append, readString_quotedBy isQuoting_escapedChar, bind, Except.bind,
    pure, Except.pure, id]

theorem length_told_le (e : Entry) : e.told.length ≤ (bytesOf (Journal.written e.line)).length := by
  have hle := (length_le_separated_entries escapedChar valueBytes e.told).1
  rw [Journal.written, bytesOf_append, bytesOf_line]
  simp only [List.length_append, List.length_cons]
  omega

/-- A line is read as one object, and then only its end is left. -/
theorem readObject_line (e : Entry) {bound : Nat} (hbound : e.told.length ≤ bound) (depth : Nat)
    (rest : Bytes) : readObject bound depth (bytesOf e.line ++ rest) = .ok (e.told, rest) := by
  have hentries :=
    readEntries_separated isQuoting_escapedChar (reads_told bound depth e) hbound rest
  rw [Prod.map_id, List.map_id] at hentries
  rw [bytesOf_line, List.cons_append, List.append_assoc, readObject, skipSpace_cons (by decide)]
  simp only [if_true, List.singleton_append, hentries, closeObject_cons, bind, Except.bind, pure,
    Except.pure]

theorem readObject_written (e : Entry) (depth : Nat) :
    readObject (bytesOf (Journal.written e.line)).length depth (bytesOf (Journal.written e.line)) =
      .ok (e.told, bytesOf "\n") := by
  have h := readObject_line e (length_told_le e) depth (bytesOf "\n")
  rwa [← bytesOf_append] at h

theorem skipSpace_newline : skipSpace (bytesOf "\n") = [] := by
  rw [bytesOf_single (c := '\n') (by decide) (by decide)]
  decide

theorem entriesOf_line (e : Entry) : entriesOf (Journal.written e.line) = .ok e.told :=
  readWhole_of_eq_ok (readObject_written e _) skipSpace_newline

theorem ofText_line (e : Entry) :
    Json.ofText (Journal.written e.line) = .ok (.object (insertAll e.told)) :=
  readWhole_of_eq_ok (readValue_of_readObject (readObject_written e _)) skipSpace_newline

/-! ## Fields in order -/

/-- Two fields compare as their keys do, by code point. -/
def byKey : String × String → String × String → Ordering :=
  compareOn fun f => codePoints f.1

instance : Std.TransCmp byKey :=
  inferInstanceAs (Std.TransCmp (compareOn fun f : String × String => codePoints f.1))

theorem byKey_ne_gt_iff {f g : String × String} : byKey f g ≠ .gt ↔ f.1 ≤ g.1 := by
  rw [byKey, compareOn, compare_codePoints, compare_le_iff_le]

theorem isStableSort_sortedFields (e : Entry) : IsStableSort byKey e.fields e.sortedFields := by
  have hle : (fun f g : String × String => decide (f.1 ≤ g.1)) = fun f g => byKey f g != .gt := by
    funext f g
    simp [← byKey_ne_gt_iff, bne, beq_eq_decide]
  rw [sortedFields, hle]
  exact isStableSort_mergeSort byKey e.fields

/-- Fields of different keys are sorted in one way only, in whatever order they are given. -/
theorem sortedFields_eq_of_perm {e e' : Entry} (hnodup : (e.fields.map Prod.fst).Nodup)
    (hperm : e'.fields.Perm e.fields) : e'.sortedFields = e.sortedFields := by
  have hsort := isStableSort_sortedFields e
  have hsort' := isStableSort_sortedFields e'
  refine List.Perm.eq_of_pairwise (fun f g hf hg hfg hgf => ?_) hsort'.ordered hsort.ordered
    (hsort'.perm.trans (hperm.trans hsort.perm.symm))
  have hkey : f.1 = g.1 := le_antisymm (byKey_ne_gt_iff.mp hfg) (byKey_ne_gt_iff.mp hgf)
  exact List.inj_on_of_nodup_map hnodup (hperm.mem_iff.mp (hsort'.perm.mem_iff.mp hf))
    (hsort.perm.mem_iff.mp hg) hkey

/-! ## Entries with the same line -/

theorem label_injective : Function.Injective Severity.label := by
  intro a b h
  cases a <;> cases b <;> first | rfl | exact absurd h (by decide)

/-- A line tells an entry, but for the order of its fields. -/
theorem line_eq_iff {e e' : Entry} :
    e'.line = e.line ↔
      e'.severity = e.severity ∧ e'.event = e.event ∧ e'.sortedFields = e.sortedFields := by
  constructor
  · intro h
    have htold : e'.told = e.told := by
      have hread := entriesOf_line e'
      rw [h, entriesOf_line] at hread
      exact (Except.ok.inj hread).symm
    have hinj : Function.Injective fun f : String × String => (f.1, Json.string f.2) := by
      rintro ⟨key, value⟩ ⟨key', value'⟩ hf
      simpa using hf
    have hparts := List.map_injective_iff.mpr hinj htold
    simp only [List.cons.injEq, Prod.mk.injEq, true_and] at hparts
    exact ⟨label_injective hparts.2.1, hparts.1, hparts.2.2⟩
  · rintro ⟨hseverity, hevent, hfields⟩
    rw [line, line, hseverity, hevent, hfields]

theorem line_eq_of_perm {e e' : Entry} (hseverity : e'.severity = e.severity)
    (hevent : e'.event = e.event) (hnodup : (e.fields.map Prod.fst).Nodup)
    (hperm : e'.fields.Perm e.fields) : e'.line = e.line :=
  line_eq_iff.mpr ⟨hseverity, hevent, sortedFields_eq_of_perm hnodup hperm⟩

/-! ## Lines one after the other -/

/-- The text of a journal that holds some entries. -/
def textOf (es : List Entry) : String :=
  String.join (es.map fun e => Journal.written e.line)

theorem toList_written (e : Entry) : (Journal.written e.line).toList = e.line.toList ++ ['\n'] := by
  simp [Journal.written]

theorem newline_notMem_line (e : Entry) : '\n' ∉ e.line.toList := fun hmem =>
  absurd (controlFree_line e '\n' hmem) (by decide)

/-- The lines of a journal are those of its entries, and nothing follows the last. -/
theorem splitOn_textOf (es : List Entry) :
    (textOf es).toList.splitOn '\n' = es.map (fun e => e.line.toList) ++ [[]] := by
  rw [textOf, String.toList_join, List.flatMap_map]
  induction es with
  | nil => simp
  | cons e es ih =>
    rw [List.flatMap_cons, toList_written, List.append_assoc, List.singleton_append,
      List.splitOn_append_cons_self_of_not_mem (newline_notMem_line e), ih]
    rfl

/-- A line has no control character before its end, and is read as one object: the event, the
severity and the fields, stably sorted by their keys. It tells its entry but for the order in which
fields of different keys were given, and it is one line of every journal that holds the entry. -/
theorem line_faithful (e : Entry) :
    (Journal.written e.line).toList = e.line.toList ++ ['\n'] ∧
      (∀ c ∈ e.line.toList, isControl c = false) ∧
      IsStableSort byKey e.fields e.sortedFields ∧
      entriesOf (Journal.written e.line) =
        .ok (("event", .string e.event) :: ("severity", .string e.severity.label) ::
          e.sortedFields.map fun f => (f.1, .string f.2)) ∧
      Json.ofText (Journal.written e.line) =
        .ok (.object (insertAll (("event", .string e.event) ::
          ("severity", .string e.severity.label) ::
          e.sortedFields.map fun f => (f.1, .string f.2)))) ∧
      (∀ e' : Entry, e'.line = e.line ↔
        e'.severity = e.severity ∧ e'.event = e.event ∧ e'.sortedFields = e.sortedFields) ∧
      ((e.fields.map Prod.fst).Nodup → ∀ fields, fields.Perm e.fields →
        line ⟨e.severity, e.event, fields⟩ = e.line) ∧
      ∀ before after : List Entry, (textOf (before ++ e :: after)).toList.splitOn '\n' =
        before.map (fun e => e.line.toList) ++ e.line.toList ::
          (after.map (fun e => e.line.toList) ++ [[]]) := by
  refine ⟨toList_written e, controlFree_line e, isStableSort_sortedFields e, entriesOf_line e,
    ofText_line e, fun e' => line_eq_iff, fun hnodup fields hperm => ?_, fun before after => ?_⟩
  · exact line_eq_of_perm rfl rfl hnodup hperm
  · rw [splitOn_textOf, List.map_append, List.map_cons, List.append_assoc, List.cons_append]

/-- An entry whose fields would end its line and start another, if they stood there as they are. -/
def awkward : Entry :=
  ⟨.warn, "QUERY_REJECTED",
    [("code", "\"\x7d\n\x7b\"event\":\"DATASET_REMOVED"), ("reason\t\\", "\x00\x7f\u0085𝄞")]⟩

theorem line_faithful_awkward :
    entriesOf (Journal.written awkward.line) =
        .ok [("event", .string "QUERY_REJECTED"), ("severity", .string "WARN"),
          ("code", .string "\"\x7d\n\x7b\"event\":\"DATASET_REMOVED"),
          ("reason\t\\", .string "\x00\x7f\u0085𝄞")] ∧
      line ⟨.warn, "QUERY_REJECTED", awkward.fields.reverse⟩ = awkward.line := by
  have hsorted : awkward.sortedFields = awkward.fields :=
    List.mergeSort_of_pairwise (by decide)
  obtain ⟨-, -, -, hread, -, -, hperm, -⟩ := line_faithful awkward
  rw [hsorted] at hread
  exact ⟨hread, hperm (by decide) _ (List.reverse_perm _)⟩

end Entry

end CampusQuery
