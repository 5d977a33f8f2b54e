import Mathlib
import CampusQuery.Proofs.Registry.Files

/-!
# Drafts anywhere

Whatever the id, also with slashes or dots in it, the draft of its file is under a name that ends as
those of drafts do, wherever its path leads. So no file of a dataset is touched while one is being
written.

* `Path.withExtension_cases` — how the path of a draft ends.
* `Archive.IsDraft` — the names of drafts, none of which is that of the file of a dataset.
* `Archive.write_draft` — what the writing of a draft changes.
-/

namespace CampusQuery

namespace Path

/-- What stands before a name in a path: nothing, or names up to a slash. -/
def IsLead (before : String) : Prop :=
  before = "" ∨ endsInSlash before = true

theorem endsInSlash_ofList_reverse (cs : List Char) :
    endsInSlash (String.ofList (slash :: cs).reverse) = true := by
  simp [endsInSlash]

/-- A path divides into what leads to its last name and the name. -/
theorem splitName_eq (path : String) :
    path = (splitName path).1 ++ (splitName path).2 ∧ IsLead (splitName path).1 ∧
      slash ∉ (splitName path).2.toList := by
  have hcs : (path.toList.reverse.dropWhile (· != '/')).reverse ++
      (path.toList.reverse.takeWhile (· != '/')).reverse = path.toList := by
    rw [← List.reverse_append, List.takeWhile_append_dropWhile, List.reverse_reverse]
  have hname : slash ∉ (path.toList.reverse.takeWhile (· != '/')).reverse := by
    intro hmem
    exact absurd (List.mem_takeWhile_imp (List.mem_reverse.mp hmem)) (by decide)
  have hlead : path.toList.take
      (path.toList.length - (path.toList.reverse.takeWhile (· != '/')).reverse.length) =
      (path.toList.reverse.dropWhile (· != '/')).reverse := by
    generalize (path.toList.reverse.dropWhile (· != '/')).reverse = before at hcs ⊢
    generalize (path.toList.reverse.takeWhile (· != '/')).reverse = name at hcs ⊢
    rw [← hcs]
    exact List.take_left' (by simp)
  unfold splitName
  dsimp only
  rw [hlead]
  refine ⟨?_, ?_, by rwa [String.toList_ofList]⟩
  · rw [← String.toList_inj, String.toList_append, String.toList_ofList, String.toList_ofList, hcs]
  · cases hdrop : path.toList.reverse.dropWhile (· != '/') with
    | nil => exact Or.inl rfl
    | cons c cs =>
      have hc : c = slash := by
        have := List.head?_dropWhile_not (· != '/') path.toList.reverse
        rw [hdrop] at this
        simpa [slash] using this
      rw [hc]
      exact Or.inr (endsInSlash_ofList_reverse cs)

/-- A path with another extension ends in a name with that extension, or in two dots. -/
theorem withExtension_cases (path extension : String) :
    ∃ before, IsLead before ∧ (withExtension path extension = before ++ ".." ∨
      ∃ stem, slash ∉ stem.toList ∧
        withExtension path extension = before ++ (stem ++ "." ++ extension)) := by
  obtain ⟨-, hlead, hname⟩ := splitName_eq path
  refine ⟨(splitName path).1, hlead, ?_⟩
  unfold withExtension
  cases hsplit : splitExtension? (splitName path).2 with
  | none => exact Or.inr ⟨_, hname, by simp only [hsplit, String.append_assoc]⟩
  | some parts =>
    obtain ⟨stem, old⟩ := parts
    obtain ⟨heq, -, -⟩ := splitExtension?_eq_some_iff.mp hsplit
    have hstem : slash ∉ stem.toList := by
      rw [heq, toList_extended] at hname
      exact fun hmem => hname (List.mem_append_left _ hmem)
    simp only [hsplit]
    split_ifs
    · exact Or.inl rfl
    · exact Or.inr ⟨stem, hstem, by simp only [String.append_assoc]⟩

/-- The names of a path, of which the last is given. -/
theorem names_of_isLead {before name : String} (hbefore : IsLead before) (hne : name ≠ "")
    (hname : slash ∉ name.toList) : ∃ above, names (before ++ name) = above ++ [name] := by
  have hend : endsInSlash (before ++ name) = false := endsInSlash_append hne hname
  rcases hbefore with rfl | hslash
  · refine ⟨[], ?_⟩
    have hlone : endsInSlash name = false := by simpa using hend
    simp [names, steps_of_undivided hname, hlone, hne]
  · obtain ⟨directory, rfl⟩ := exists_of_endsInSlash hslash
    refine ⟨(steps directory).filter (· != ""), ?_⟩
    simp [names, steps_append_slash, steps_of_undivided hname, hend, hne]

end Path

namespace FileTree

variable {t t' : FileTree}

/-- The last step of a path is made from a directory. -/
theorem exists_walk_of_locate {before name : String} {place : List String}
    (hbefore : Path.IsLead before) (hne : name ≠ "") (hname : Path.slash ∉ name.toList)
    (h : t.locate (before ++ name) = .ok place) :
    ∃ above, t.Reached above ∧ t.walk above [name] = .ok place := by
  obtain ⟨-, -, -, hwalk⟩ := locate_eq_ok_iff.mp h
  obtain ⟨names, hnames⟩ := Path.names_of_isLead hbefore hne hname
  rw [hnames, walk_append] at hwalk
  cases habove : t.walk (t.start (before ++ name)) names with
  | error fault => simp [habove, Except.bind] at hwalk
  | ok above =>
    rw [habove] at hwalk
    exact ⟨above, (reached_start t _).walk habove, hwalk⟩

/-- A path that ends in two dots leads to a directory. -/
theorem find?_of_locate_above {before : String} {place : List String}
    (hbefore : Path.IsLead before) (h : t.locate (before ++ "..") = .ok place) :
    t.find? place = some .directory := by
  obtain ⟨above, hreached, hwalk⟩ := exists_walk_of_locate hbefore (by decide) (by decide) h
  rw [walk] at hwalk
  cases hdirectory : t.find? above with
  | none => simp [hdirectory] at hwalk
  | some node =>
    cases node with
    | file => simp [hdirectory] at hwalk
    | directory =>
      have hplace : above.dropLast = place := by simpa [hdirectory, walk] using hwalk
      rw [← hplace]
      by_cases hroot : above.dropLast = above
      · rw [hroot, hdirectory]
      · exact hreached _ (List.dropLast_prefix above) hroot

end FileTree

namespace Archive

open CampusQuery.Path CampusQuery.FileTree

/-- A place with the name of a draft. -/
def IsDraft (place : List String) : Prop :=
  ∃ above stem, place = above ++ [stem ++ "." ++ draftExtension]

/-- A place with the name of the file of a dataset. -/
def IsDocument (place : List String) : Prop :=
  ∃ above stem, place = above ++ [stem ++ "." ++ extension]

theorem IsDocument.not_isDraft {place : List String} (h : IsDocument place) : ¬ IsDraft place := by
  obtain ⟨above, stem, rfl⟩ := h
  rintro ⟨above', stem', heq⟩
  -- The last characters of the two extensions differ.
  have hname := List.singleton_inj.mp (List.append_inj' heq rfl).2
  have hlast := congrArg List.getLast? (congrArg String.toList hname)
  simp [extension, draftExtension] at hlast

theorem isPlain_of_draftExtension {stem : String} (h : slash ∉ stem.toList) :
    IsPlain (stem ++ "." ++ draftExtension) := by
  have hmem : 'j' ∈ (stem ++ "." ++ draftExtension).toList := by simp [draftExtension]
  refine ⟨?_, ?_, ?_, ?_⟩
  · intro heq; simp [heq] at hmem
  · have hdot : slash ≠ '.' := by decide
    have hextension : slash ∉ draftExtension.toList := by decide
    simp [h, hdot, hextension]
  · intro heq; simp [heq] at hmem
  · intro heq; simp [heq] at hmem

/-- Where a draft can be written, its place has the name of one. -/
theorem isDraft_of_locate {a : Archive} {id : String} {t : FileTree} {place : List String}
    (h : t.locate (a.draftPathOf id) = .ok place) (hplace : t.find? place ≠ some .directory) :
    IsDraft place := by
  obtain ⟨before, hbefore, habove | ⟨stem, hstem, hpath⟩⟩ :=
    withExtension_cases (a.pathOf id) draftExtension
  · rw [draftPathOf, habove] at h
    exact absurd (find?_of_locate_above hbefore h) hplace
  · have hplain := isPlain_of_draftExtension hstem
    rw [draftPathOf, hpath] at h
    obtain ⟨above, -, hwalk⟩ := exists_walk_of_locate hbefore hplain.nonempty hplain.undivided h
    exact ⟨above, stem, walk_plain hplain hwalk⟩

/-- Two trees of which only drafts differ, and those that do are files in the second. -/
def SameButDrafts (t t' : FileTree) : Prop :=
  ∀ place, t'.find? place ≠ t.find? place →
    IsDraft place ∧ ∃ bytes, t'.find? place = some (.file bytes)

theorem SameButDrafts.refl (t : FileTree) : SameButDrafts t t :=
  fun _ h => absurd rfl h

theorem SameButDrafts.find?_document {t t' : FileTree} (h : SameButDrafts t t')
    {place : List String} (hplace : IsDocument place) : t'.find? place = t.find? place := by
  by_contra hne
  exact hplace.not_isDraft (h place hne).1

/-- Writing a draft changes nothing but a draft. -/
theorem sameButDrafts_of_write {a : Archive} {id : String} {bytes : List UInt8} {t t' : FileTree}
    (h : t.write (a.draftPathOf id) bytes = .ok t') : SameButDrafts t t' := by
  obtain ⟨place, hlocate, hplace, rfl⟩ := write_eq_ok_iff.mp h
  intro other hother
  rw [find?_set hplace] at hother ⊢
  by_cases heq : other = place
  · rw [if_pos heq]
    exact ⟨heq ▸ isDraft_of_locate hlocate hplace, bytes, rfl⟩
  · rw [if_neg heq] at hother
    exact absurd rfl hother

end Archive

end CampusQuery
