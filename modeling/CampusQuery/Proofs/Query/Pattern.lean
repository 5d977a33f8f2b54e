import Mathlib
import CampusQuery.Proofs.Query.WellFormed

/-!
# Patterns as globs

A pattern is read by taking off the marks at its ends and is tested in one of five ways, by the
marks that it had. Both agree with the one meaning of a text with marks, in which each mark stands
for any text, wherever it is, and every other character for itself.

* `Glob` — that meaning, for marks anywhere.
* `Pattern.marks_append_between` — a text is its two marks with what is between them.
* `Pattern.ofBytes?` — the reading that cuts the marks off at byte offsets, which fails at an offset
  outside the text or inside a character.
* `Pattern.ofText?_reads_globs` — the reading through byte offsets never fails, accepts the texts
  with marks at the ends only, and what it accepts is matched as a glob.
-/

namespace CampusQuery

open Pattern (wildcard)

/-! ## Globs -/

/-- The language of a text with marks: a mark stands for any characters, which may be none, and any
other character for itself. -/
inductive Glob : List Char → List Char → Prop
  | nil : Glob [] []
  | star {p s : List Char} (part : List Char) : Glob p s → Glob (wildcard :: p) (part ++ s)
  | char {c : Char} {p s : List Char} : c ≠ wildcard → Glob p s → Glob (c :: p) (c :: s)

namespace Glob

theorem nil_iff {s : List Char} : Glob [] s ↔ s = [] :=
  ⟨fun h => by cases h; rfl, by rintro rfl; exact .nil⟩

theorem star_iff {p s : List Char} : Glob (wildcard :: p) s ↔ ∃ rest, rest <:+ s ∧ Glob p rest := by
  constructor
  · intro h
    cases h with
    | star part h => exact ⟨_, List.suffix_append part _, h⟩
    | char hc _ => exact absurd rfl hc
  · rintro ⟨rest, ⟨part, rfl⟩, h⟩
    exact .star part h

theorem cons_iff {c : Char} (hc : c ≠ wildcard) {p s : List Char} :
    Glob (c :: p) s ↔ ∃ rest, s = c :: rest ∧ Glob p rest := by
  constructor
  · intro h
    cases h with
    | star _ _ => exact absurd rfl hc
    | char _ h => exact ⟨_, rfl, h⟩
  · rintro ⟨rest, rfl, h⟩
    exact .char hc h

/-- Characters without a mark stand for themselves. -/
theorem append_iff {text p : List Char} (htext : wildcard ∉ text) {s : List Char} :
    Glob (text ++ p) s ↔ ∃ rest, s = text ++ rest ∧ Glob p rest := by
  induction text generalizing s with
  | nil => simp
  | cons c text ih =>
    obtain ⟨hc, htext⟩ := not_or.mp (mt List.mem_cons.mpr htext)
    rw [List.cons_append, cons_iff (Ne.symm hc)]
    constructor
    · rintro ⟨_, rfl, h⟩
      obtain ⟨rest, rfl, hrest⟩ := (ih htext).mp h
      exact ⟨rest, rfl, hrest⟩
    · rintro ⟨rest, rfl, hrest⟩
      exact ⟨text ++ rest, rfl, (ih htext).mpr ⟨rest, rfl, hrest⟩⟩

theorem of_mark (s : List Char) : Glob [wildcard] s :=
  star_iff.mpr ⟨[], List.nil_suffix, .nil⟩

theorem of_marks (s : List Char) : Glob [wildcard, wildcard] s :=
  star_iff.mpr ⟨[], List.nil_suffix, of_mark []⟩

variable {text s : List Char} (htext : wildcard ∉ text)

include htext

theorem text_iff : Glob text s ↔ s = text := by
  rw [← List.append_nil text, append_iff htext]
  simp [nil_iff]

theorem text_mark_iff : Glob (text ++ [wildcard]) s ↔ text <+: s := by
  rw [append_iff htext]
  simp only [of_mark, and_true]
  exact ⟨fun ⟨rest, h⟩ => ⟨rest, h.symm⟩, fun ⟨rest, h⟩ => ⟨rest, h.symm⟩⟩

theorem mark_text_iff : Glob (wildcard :: text) s ↔ text <:+ s := by
  rw [star_iff]
  simp only [text_iff htext]
  exact ⟨fun ⟨_, h, heq⟩ => heq ▸ h, fun h => ⟨text, h, rfl⟩⟩

theorem mark_text_mark_iff : Glob (wildcard :: (text ++ [wildcard])) s ↔ text <:+: s := by
  rw [star_iff, List.infix_iff_prefix_suffix]
  simp only [text_mark_iff htext]
  exact ⟨fun ⟨rest, h, hp⟩ => ⟨rest, hp, h⟩, fun ⟨rest, hp, h⟩ => ⟨rest, h, hp⟩⟩

end Glob

namespace Pattern

/-! ## Marks at the ends -/

/-- A mark that is there or not. -/
def mark (there : Bool) : List Char :=
  if there then [wildcard] else []

/-- Whether characters begin with a mark. -/
def leading (cs : List Char) : Bool :=
  cs.head? == some wildcard

/-- Whether characters end with a mark. -/
def trailing (cs : List Char) : Bool :=
  cs.getLast? == some wildcard

/-- A pattern by the marks that it has and the text between them. -/
def form (leading trailing : Bool) (text : String) : Pattern :=
  match leading, trailing with
  | true, true => .contains text
  | true, false => .endsWith text
  | false, true => .startsWith text
  | false, false => .exact text

theorem ofText?_eq (raw : String) :
    ofText? raw =
      if raw = "*" ∨ raw = "**" then some .any
      else if wildcard ∈ between raw.toList then none
      else some (form (leading raw.toList) (trailing raw.toList)
        (String.ofList (between raw.toList))) := by
  unfold ofText? form leading trailing
  dsimp only
  split_ifs
  case pos => rfl
  case pos => rfl
  case neg =>
    cases raw.toList.head? == some wildcard <;> cases raw.toList.getLast? == some wildcard <;> rfl

/-- Only a single mark is both ends at once; in all other characters the marks at the two ends are
apart. -/
theorem marks_append_between {cs : List Char} (h : cs ≠ [wildcard]) :
    mark (leading cs) ++ between cs ++ mark (trailing cs) = cs := by
  rcases cs with _ | ⟨c, rest⟩
  · rfl
  rcases List.eq_nil_or_concat rest with rfl | ⟨mid, d, rfl⟩
  · have hc : c ≠ wildcard := fun hc => h (by rw [hc])
    simp [mark, leading, trailing, between, hc]
  · have hlast : (c :: (mid ++ [d])).getLast? = some d := by simp [List.getLast?_cons]
    simp only [List.concat_eq_append, mark, leading, trailing, between, hlast, List.head?_cons,
      List.tail_cons, beq_iff_eq, Option.some.injEq]
    split_ifs with hc hd hd
    · simp [hc, hd]
    · simp [hc]
    · simp [hd, List.dropLast_cons_of_ne_nil]
    · simp

/-! ## Byte offsets -/

/-- The part of a text from one byte offset to another. There is none when an offset is outside the
text or inside a character, or when the first is after the second. -/
def slice? (s : String) (start stop : Nat) : Option String :=
  if start ≤ stop ∧ String.Pos.Raw.IsValid s ⟨start⟩ ∧ String.Pos.Raw.IsValid s ⟨stop⟩ then
    some (String.Pos.Raw.extract s ⟨start⟩ ⟨stop⟩)
  else none

theorem isValid_of_eq {s : String} {before after : List Char} (h : s.toList = before ++ after) :
    String.Pos.Raw.IsValid s ⟨String.utf8Len before⟩ := by
  refine String.Pos.Raw.isValid_iff_exists_append.mpr
    ⟨String.ofList before, String.ofList after, ?_, ?_⟩
  · rw [← String.ofList_append, ← h, String.ofList_toList]
  · rw [← String.utf8ByteSize_ofList]
    rfl

/-- A cut where the characters of a text are divided gives the characters between. -/
theorem slice?_of_eq {s : String} {before part after : List Char}
    (h : s.toList = before ++ part ++ after) :
    slice? s (String.utf8Len before) (String.utf8Len before + String.utf8Len part) =
      some (String.ofList part) := by
  have hstop : String.Pos.Raw.IsValid s ⟨String.utf8Len before + String.utf8Len part⟩ := by
    rw [← String.utf8Len_append]
    exact isValid_of_eq h
  have hstart : String.Pos.Raw.IsValid s ⟨String.utf8Len before⟩ :=
    isValid_of_eq (h.trans (List.append_assoc ..))
  rw [slice?, if_pos ⟨Nat.le_add_right _ _, hstart, hstop⟩,
    ← String.extract_of_valid before part after, ← h, String.ofList_toList]

/-- A difference of sizes, which must not be negative. -/
def minus? (a b : Nat) : Option Nat :=
  if b ≤ a then some (a - b) else none

/-- Reads a pattern through byte offsets: a mark is one byte long. The outer result is there when
all offsets are in the text and at the bounds of characters. -/
def ofBytes? (raw : String) : Option (Option Pattern) :=
  if raw = "*" ∨ raw = "**" then some (some .any)
  else do
    let start := (leading raw.toList).toNat
    let stop ← minus? raw.utf8ByteSize (trailing raw.toList).toNat
    let inner ← slice? raw start stop
    if wildcard ∈ inner.toList then return none
    else return some (form (leading raw.toList) (trailing raw.toList) inner)

theorem utf8Len_mark (there : Bool) : String.utf8Len (mark there) = there.toNat := by
  cases there <;> rfl

/-- The offsets that are computed from the two marks are those of what is between them. -/
theorem slice?_between {raw : String} (h : raw ≠ "*") :
    (minus? raw.utf8ByteSize (trailing raw.toList).toNat).bind
        (slice? raw (leading raw.toList).toNat) =
      some (String.ofList (between raw.toList)) := by
  have hparts : raw.toList = mark (leading raw.toList) ++ between raw.toList ++
      mark (trailing raw.toList) :=
    (marks_append_between fun hone => h (String.toList_inj.mp hone)).symm
  have hsize : raw.utf8ByteSize = (leading raw.toList).toNat +
      String.utf8Len (between raw.toList) + (trailing raw.toList).toNat := by
    have hbytes : raw.utf8ByteSize = String.utf8Len raw.toList := by
      rw [← String.utf8ByteSize_ofList, String.ofList_toList]
    rw [hbytes]
    conv_lhs => rw [hparts]
    simp only [String.utf8Len_append, utf8Len_mark]
  rw [minus?, if_pos (by omega), hsize, Nat.add_sub_cancel, Option.bind_some,
    ← utf8Len_mark (leading raw.toList), slice?_of_eq hparts]

/-- No offset is ever at fault. -/
theorem ofBytes?_eq (raw : String) : ofBytes? raw = some (ofText? raw) := by
  rw [ofBytes?, ofText?_eq]
  by_cases hany : raw = "*" ∨ raw = "**"
  · rw [if_pos hany, if_pos hany]
  · rw [if_neg hany, if_neg hany]
    have hcut := slice?_between fun h => hany (Or.inl h)
    simp only [Option.bind_eq_bind, ← Option.bind_assoc, hcut, Option.bind_some,
      String.toList_ofList]
    split_ifs <;> rfl

/-! ## The meaning of what is read -/

/-- Each of the five ways to test a text is the meaning of the marks that it is used for. -/
theorem accepts_form_iff {leading trailing : Bool} {text : List Char} (htext : wildcard ∉ text)
    (s : String) :
    (form leading trailing (String.ofList text)).accepts s = true ↔
      Glob (mark leading ++ text ++ mark trailing) s.toList := by
  cases leading <;> cases trailing <;> simp only [form, mark, accepts, Bool.false_eq_true, if_false,
    if_true, List.nil_append, List.append_nil, List.cons_append,
    String.toList_ofList]
  case false.false =>
    rw [Glob.text_iff htext, beq_iff_eq, ← String.toList_inj, String.toList_ofList]
  case false.true => rw [Glob.text_mark_iff htext, List.isPrefixOf_iff_prefix]
  case true.false => rw [Glob.mark_text_iff htext, List.isSuffixOf_iff_suffix]
  case true.true => rw [Glob.mark_text_mark_iff htext, isWithin_iff]

theorem accepts_iff_glob {raw : String} {p : Pattern} (h : ofText? raw = some p) (s : String) :
    p.accepts s = true ↔ Glob raw.toList s.toList := by
  rw [ofText?_eq] at h
  split_ifs at h with hany hmem
  · obtain rfl := Option.some.inj h
    rcases hany with rfl | rfl
    · exact iff_of_true rfl (Glob.of_mark _)
    · exact iff_of_true rfl (Glob.of_marks _)
  · obtain rfl := Option.some.inj h
    rw [accepts_form_iff hmem, marks_append_between]
    exact fun hone => hany (Or.inl (String.toList_inj.mp hone))

/-- Reading a pattern through byte offsets is never at fault and gives what is read of its
characters: a pattern just when all marks are at the ends, and then the one that accepts the
language of the text as a glob. -/
theorem ofText?_reads_globs (raw : String) :
    ofBytes? raw = some (ofText? raw) ∧ ((ofText? raw).isSome ↔ StarsAtEnds raw) ∧
      ∀ p, ofText? raw = some p → ∀ s, p.accepts s = true ↔ Glob raw.toList s.toList :=
  ⟨ofBytes?_eq raw, isSome_ofText?_iff_starsAtEnds, fun _ h => accepts_iff_glob h⟩

/-- The middle character of this pattern is of two bytes. -/
theorem ofText?_reads_globs_accent :
    ofBytes? "*é*" = some (some (.contains "é")) ∧ Glob "*é*".toList "crédit".toList ∧
      ¬ Glob "*é*".toList "credit".toList := by
  have hread : ofText? "*é*" = some (.contains "é") := by decide
  obtain ⟨hbytes, -, hglob⟩ := ofText?_reads_globs "*é*"
  refine ⟨hbytes.trans (congrArg some hread), ?_, ?_⟩
  · exact (hglob _ hread "crédit").mp (by decide)
  · exact (hglob _ hread "credit").not.mp (by decide)

end Pattern

end CampusQuery
