import Mathlib
import CampusQuery.Proofs.Json.Text

/-!
# Texts in the order of their bytes

Texts are compared character by character, which is by code point. UTF-8 keeps that order: their
bytes, compared one by one without regard to where a character ends, stand in the same order.

* `utf8EncodeChar_append_lt` — a smaller character comes first, whatever follows it.
* `bytesOf_lt_bytesOf_iff` — two texts are in the order of their bytes.
* `compare_codePoints` — two texts are in the order of their code points.
-/

namespace CampusQuery

namespace Json

/-- Of two different characters the smaller one has the smaller bytes, whatever follows. -/
theorem utf8EncodeChar_append_lt {c d : Char} (h : c < d) (xs ys : Bytes) :
    String.utf8EncodeChar c ++ xs < String.utf8EncodeChar d ++ ys := by
  have hlt : c.val.toNat < d.val.toNat := h
  have hd : d.val.toNat < 0x110000 := by
    rcases d.valid with hvalid | ⟨-, hvalid⟩
    · exact hvalid.trans (by decide)
    · exact hvalid
  -- a longer sequence starts with a larger byte; sequences of one length are numbers in base 64
  have hsquare (v : Nat) : v / 4096 = v / 64 / 64 := (Nat.div_div_eq_div_mul v 64 64).symm
  have hcube (v : Nat) : v / 262144 = v / 64 / 64 / 64 := by
    rw [Nat.div_div_eq_div_mul, Nat.div_div_eq_div_mul]
  have hbyte (a b k : Nat) (ha : 0 < a) (hab : a + k ≤ 256) : (b % a + k) % 256 = b % a + k :=
    Nat.mod_eq_of_lt (by have := Nat.mod_lt b ha; omega)
  simp only [String.utf8EncodeChar]
  split_ifs <;>
    simp (disch := decide) only [List.cons_append, List.nil_append, List.cons_lt_cons_iff,
      UInt8.lt_iff_toNat_lt, ← UInt8.toNat_inj, UInt8.toNat_ofNat', hsquare, hcube, hbyte,
      Nat.reducePow] <;>
    omega

theorem flatMap_utf8EncodeChar_lt {cs ds : List Char} (h : cs < ds) :
    cs.flatMap String.utf8EncodeChar < ds.flatMap String.utf8EncodeChar := by
  induction h with
  | @nil d ds =>
    have hne : String.utf8EncodeChar d ≠ [] := String.utf8EncodeChar_ne_nil
    obtain ⟨b, bs, hb⟩ := List.exists_cons_of_ne_nil hne
    simp [hb]
  | rel hcd => exact utf8EncodeChar_append_lt hcd _ _
  | cons _ ih => exact List.append_left_lt ih

/-- Two texts are in the order of their bytes. -/
theorem bytesOf_lt_bytesOf_iff {s t : String} : bytesOf s < bytesOf t ↔ s < t := by
  rw [bytesOf_eq, bytesOf_eq, String.lt_iff_toList_lt]
  refine ⟨fun h => ?_, flatMap_utf8EncodeChar_lt⟩
  rcases lt_trichotomy s.toList t.toList with hlt | heq | hgt
  · exact hlt
  · rw [heq] at h
    exact absurd h (List.lt_irrefl _)
  · exact absurd (List.lt_trans h (flatMap_utf8EncodeChar_lt hgt)) (List.lt_irrefl _)

end Json

/-! ## Code points -/

/-- The code points of a text. -/
def codePoints (s : String) : List Nat :=
  s.toList.map Char.toNat

/-- A list that is less compares so. -/
theorem compare_of_lt {xs ys : List Nat} (h : xs < ys) : compare xs ys = .lt := by
  rw [List.compare_eq_compareLex]
  induction h with
  | nil => exact List.compareLex_nil_cons
  | rel hab => rw [List.compareLex_cons_cons, Nat.compare_eq_lt.mpr hab, Ordering.lt_then]
  | cons _ ih => rw [List.compareLex_cons_cons, Nat.compare_eq_eq.mpr rfl, Ordering.eq_then, ih]

theorem compare_codePoints_of_lt {s t : String} (h : s < t) :
    compare (codePoints s) (codePoints t) = .lt := by
  have hmap {cs ds : List Char} (h : cs < ds) : cs.map Char.toNat < ds.map Char.toNat := by
    induction h with
    | nil => exact .nil
    | rel hcd => exact .rel hcd
    | cons _ ih => exact .cons ih
  exact compare_of_lt (hmap (String.lt_iff_toList_lt.mp h))

/-- Two texts compare as their code points do. -/
theorem compare_codePoints (s t : String) :
    compare (codePoints s) (codePoints t) = compare s t := by
  rcases lt_trichotomy s t with hlt | rfl | hgt
  · rw [compare_codePoints_of_lt hlt, compare_lt_iff_lt.mpr hlt]
  · have hself : compare (codePoints s) (codePoints s) = .eq := Std.ReflCmp.compare_self
    rw [hself, compare_eq_iff_eq.mpr rfl]
  · have hswap : compare (codePoints s) (codePoints t) =
        (compare (codePoints t) (codePoints s)).swap := Std.OrientedCmp.eq_swap
    rw [hswap, compare_codePoints_of_lt hgt, compare_gt_iff_gt.mpr hgt]
    rfl

end CampusQuery
