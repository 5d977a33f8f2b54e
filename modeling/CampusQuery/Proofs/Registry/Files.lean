import Mathlib
import CampusQuery.Proofs.Disk.FileTree
import CampusQuery.Registry.Archive

/-!
# The names of files of datasets

An id without a slash has a file of its own in the directory of the archive, and a draft beside it
that is never taken for the file of a dataset.

* `splitExtension?_eq_some_iff` — a name divides at its last dot.
* `isFileName_text_iff` — the names of files of datasets, as far as they are texts.
* `draftPathOf_eq` — the draft of a file is a name in the same directory.
-/

namespace CampusQuery

namespace Path

theorem takeWhile_ne_append {c : Char} {cs ds : List Char} (h : c ∉ cs) :
    (cs ++ c :: ds).takeWhile (· != c) = cs := by
  rw [List.takeWhile_append_of_pos]
  · simp
  · intro d hd
    have : d ≠ c := fun heq => h (heq ▸ hd)
    simpa using this

theorem toList_extended (stem extension : String) :
    (stem ++ "." ++ extension).toList = stem.toList ++ '.' :: extension.toList := by
  simp

theorem splitExtension?_append {stem extension : String} (h : '.' ∉ extension.toList) :
    splitExtension? (stem ++ "." ++ extension) =
      if stem = "" then none else some (stem, extension) := by
  have hlast : ((stem ++ "." ++ extension).toList.reverse.takeWhile (· != '.')).reverse =
      extension.toList := by
    rw [toList_extended, List.reverse_append, List.reverse_cons, List.append_assoc,
      List.singleton_append, takeWhile_ne_append (by simpa using h), List.reverse_reverse]
  have hstem : (stem ++ "." ++ extension).toList.take
      ((stem ++ "." ++ extension).toList.length - extension.toList.length - 1) = stem.toList := by
    rw [toList_extended]
    exact List.take_left' (by simp; omega)
  unfold splitExtension?
  dsimp only
  rw [hlast, hstem, String.ofList_toList, String.ofList_toList]
  simp [String.toList_eq_nil_iff]

/-- A name divides at its last dot, unless that begins it. -/
theorem splitExtension?_eq_some_iff {name stem extension : String} :
    splitExtension? name = some (stem, extension) ↔
      name = stem ++ "." ++ extension ∧ stem ≠ "" ∧ '.' ∉ extension.toList := by
  constructor
  · intro h
    by_cases hdot : '.' ∈ name.toList
    · obtain ⟨ds, cs, hname, hds⟩ := List.eq_append_cons_of_mem (List.mem_reverse.mpr hdot)
      have hname : name = String.ofList cs.reverse ++ "." ++ String.ofList ds.reverse := by
        rw [← String.toList_inj, toList_extended, ← List.reverse_reverse name.toList, hname]
        simp
      have hds : '.' ∉ (String.ofList ds.reverse).toList := by simpa using hds
      rw [hname, splitExtension?_append hds] at h
      split_ifs at h with hstem
      obtain ⟨rfl, rfl⟩ := Prod.mk.inj (Option.some.inj h)
      exact ⟨hname, hstem, hds⟩
    · have hall : name.toList.reverse.takeWhile (· != '.') = name.toList.reverse := by
        rw [List.takeWhile_eq_self_iff]
        intro c hc
        have : c ≠ '.' := fun heq => hdot (heq ▸ List.mem_reverse.mp hc)
        simpa using this
      simp [splitExtension?, hall] at h
  · rintro ⟨rfl, hstem, hextension⟩
    rw [splitExtension?_append hextension, if_neg hstem]

/-- What stands before a name in the path of a directory. -/
def within (directory : String) : String :=
  if endsInSlash directory then directory else directory ++ "/"

theorem endsInSlash_within (directory : String) : endsInSlash (within directory) = true := by
  unfold within
  split_ifs with h
  · exact h
  · simp [endsInSlash, slash]

theorem join_eq_within {directory name : String} (hdirectory : directory ≠ "")
    (hname : slash ∉ name.toList) : join directory name = within directory ++ name := by
  rw [join_eq hdirectory hname]
  unfold within
  split_ifs <;> rfl

theorem splitName_append {before name : String} (hbefore : endsInSlash before = true)
    (hname : slash ∉ name.toList) : splitName (before ++ name) = (before, name) := by
  obtain ⟨before, rfl⟩ := exists_of_endsInSlash hbefore
  have hlast : ((before ++ "/" ++ name).toList.reverse.takeWhile (· != '/')).reverse =
      name.toList := by
    have hreverse : (before ++ "/" ++ name).toList.reverse =
        name.toList.reverse ++ '/' :: before.toList.reverse := by simp
    rw [hreverse, takeWhile_ne_append (by simpa [slash] using hname), List.reverse_reverse]
  unfold splitName
  dsimp only
  rw [hlast, String.ofList_toList, String.toList_append,
    List.take_left' (by simp; omega),
    String.ofList_toList]

/-- A name behind a dot and a slash is in the directory itself. -/
theorem join_dotted (directory : String) {name : String} (hname : slash ∉ name.toList) :
    join directory ("./" ++ name) = join (join directory ".") name := by
  have hdotted : isAbsolute ("./" ++ name) = false := by simp [isAbsolute, slash]
  have hdot : isAbsolute "." = false := by decide
  have hself : join directory "." ≠ "" ∧ endsInSlash (join directory ".") = false := by
    have hdot' : slash ∉ ".".toList := by decide
    simp only [join, hdot, Bool.false_eq_true, if_false]
    split_ifs <;> exact ⟨by simp, endsInSlash_append (by simp) hdot'⟩
  rw [join_eq hself.1 hname, hself.2]
  simp only [join, hdotted, hdot, Bool.false_eq_true, if_false]
  split_ifs <;> simp only [String.append_assoc] <;> rfl

end Path

namespace Archive

open CampusQuery.Path CampusQuery.FileTree

theorem fileName_inj {id id' : String} (h : fileName id = fileName id') : id = id' := by
  unfold fileName at h
  rw [String.append_left_inj, String.append_left_inj] at h
  exact h

theorem isFileName_text_iff {name : String} :
    isFileName (.text name) = true ↔ ∃ id, id ≠ "" ∧ name = fileName id := by
  have hdot : '.' ∉ extension.toList := by decide
  have hextension : isFileName (.text name) = true ↔
      ∃ id, splitExtension? name = some (id, extension) := by
    simp [isFileName, Name.hasExtension, extension?]
  rw [hextension]
  refine exists_congr fun id => ?_
  rw [splitExtension?_eq_some_iff]
  exact ⟨fun h => ⟨h.2.1, h.1⟩, fun h => ⟨h.2, h.1, hdot⟩⟩

theorem stem_fileName {id : String} (h : id ≠ "") : stem (.text (fileName id)) = id := by
  have hdot : '.' ∉ extension.toList := by decide
  simp [stem, Name.stem?, Path.stem, splitExtension?_eq_some_iff.mpr ⟨rfl, h, hdot⟩, fileName]

theorem undivided_fileName {id : String} : slash ∉ (fileName id).toList ↔ slash ∉ id.toList := by
  have hdot : slash ≠ '.' := by decide
  have hextension : slash ∉ extension.toList := by decide
  simp [fileName, hdot, hextension]

theorem isPlain_fileName {id : String} (h : slash ∉ id.toList) : IsPlain (fileName id) := by
  have hmem : 'j' ∈ (fileName id).toList := by simp [fileName, extension]
  refine ⟨?_, undivided_fileName.mpr h, ?_, ?_⟩ <;> intro heq <;> simp [heq] at hmem

/-! ## Drafts -/

/-- The name of the draft of the file of a dataset. -/
def draftName (id : String) : String :=
  fileName id ++ ".tmp"

theorem isPlain_draftName {id : String} (h : slash ∉ id.toList) : IsPlain (draftName id) := by
  have hmem : 'j' ∈ (draftName id).toList := by simp [draftName, fileName, extension]
  have hundivided : slash ∉ (draftName id).toList := by
    have htmp : slash ∉ (".tmp").toList := by decide
    rw [draftName, String.toList_append, List.mem_append, not_or]
    exact ⟨undivided_fileName.mpr h, htmp⟩
  refine ⟨?_, hundivided, ?_, ?_⟩ <;> intro heq <;> simp [heq] at hmem

theorem isFileName_draftName (id : String) : isFileName (.text (draftName id)) = false := by
  have hsplit : splitExtension? (draftName id) = some (fileName id, "tmp") := by
    refine splitExtension?_eq_some_iff.mpr ⟨?_, ?_, by decide⟩
    · rw [draftName, String.append_assoc]; rfl
    · simp [fileName]
  simp [isFileName, Name.hasExtension, extension?, hsplit, extension]

theorem draftName_ne_fileName {id id' : String} (h : id' ≠ "") : draftName id ≠ fileName id' := by
  intro heq
  have hfile := isFileName_text_iff.mpr ⟨id', h, rfl⟩
  rw [← heq, isFileName_draftName] at hfile
  cases hfile

/-- The draft of a file stands beside it; only for a lone dot the name of the draft is cut down to
that of the directory above. -/
theorem draftPathOf_eq {a : Archive} {id : String} (hroot : a.root ≠ "") (hid : id ≠ "")
    (hslash : slash ∉ id.toList) :
    a.draftPathOf id = join a.root (if id = "." then ".." else draftName id) := by
  have hdot : '.' ∉ extension.toList := by decide
  unfold draftPathOf pathOf withExtension
  rw [join_eq_within hroot (undivided_fileName.mpr hslash),
    splitName_append (endsInSlash_within _) (undivided_fileName.mpr hslash)]
  simp only [splitExtension?_eq_some_iff.mpr ⟨rfl, hid, hdot⟩, fileName]
  split_ifs
  · rw [join_eq_within hroot (by decide)]
  · rw [join_eq_within hroot (isPlain_draftName hslash).undivided, draftName, fileName]
    simp only [String.append_assoc]
    rfl

end Archive

end CampusQuery
