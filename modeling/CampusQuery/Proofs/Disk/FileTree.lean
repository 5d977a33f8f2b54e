import Mathlib
import CampusQuery.Disk.FileTree
import CampusQuery.Proofs.Entries

/-!
# Changes to a tree of files

A change to one place leaves all other places as they are, and the directories lead where they did
before. A name without a slash leads from a directory to the place of that name in it.

* `find?_set`, `find?_erase` — what is under a name after a change.
* `SameDirectories.locate` — paths lead to the same places in trees with the same directories.
* `locate_join` — the place of a name within a directory.
-/

namespace CampusQuery

namespace FileTree

variable {t t' : FileTree}

/-! ## Entries -/

theorem not_prefix_of_find?_ne {place : List String} (h : t.find? place ≠ some .directory) :
    place.isPrefixOf t.here = false := by
  by_contra hinitial
  exact h (if_pos (by simpa using hinitial))

theorem find?_set {place : List String} (h : t.find? place ≠ some .directory) (node : Node)
    (other : List String) :
    (t.set place node).find? other = if other = place then some node else t.find? other := by
  have hnot := not_prefix_of_find?_ne h
  by_cases hother : other = place
  · simp [find?, set, hother, hnot]
  · have : (other == place) = false := by simpa using hother
    simp only [find?, set, List.lookup_cons, this, lookup_filter_ne, hother, if_false,
      Bool.false_eq_true]

theorem find?_erase {place : List String} (h : t.find? place ≠ some .directory)
    (other : List String) :
    (t.erase place).find? other = if other = place then none else t.find? other := by
  have hnot := not_prefix_of_find?_ne h
  simp only [find?, erase, lookup_filter_ne, beq_iff_eq]
  by_cases hother : other = place
  · simp [hother, hnot]
  · simp [hother]

theorem nameIn?_eq_some_iff {directory place : List String} {name : String} :
    nameIn? directory place = some name ↔ place = directory ++ [name] := by
  unfold nameIn?
  constructor
  · intro h
    split_ifs at h with hplace
    obtain ⟨hlength, hinitial⟩ := hplace
    obtain ⟨rest, rfl⟩ := List.isPrefixOf_iff_prefix.mp hinitial
    obtain ⟨last, rfl⟩ := List.length_eq_one_iff.mp (by simpa using hlength)
    simpa using h
  · rintro rfl
    simp

/-- A name under a place that is a text is one of those that lead to a file or a directory. -/
theorem text_mem_namesIn {directory : List String} {name : String} :
    .text name ∈ t.namesIn directory ↔ ∃ node, (directory ++ [name], node) ∈ t.nodes := by
  simp only [namesIn, strayNamesIn, List.mem_append, List.mem_filterMap, List.mem_map,
    Option.map_eq_some_iff, nameIn?_eq_some_iff]
  constructor
  · rintro (⟨⟨place, node⟩, hentry, _, rfl, heq⟩ | ⟨_, -, heq⟩)
    · obtain rfl := Name.text.inj heq
      exact ⟨node, hentry⟩
    · cases heq
  · rintro ⟨node, hentry⟩
    exact .inl ⟨_, hentry, name, rfl, rfl⟩

theorem namesIn_erase (t : FileTree) (directory : List String) (name : String) :
    (t.erase (directory ++ [name])).namesIn directory =
      (t.namesIn directory).filter fun other => other != .text name := by
  have hstrays : (t.strayNamesIn directory).filter (fun other => other != .text name) =
      t.strayNamesIn directory := by
    refine List.filter_eq_self.mpr fun other hother => ?_
    obtain ⟨_, -, rfl⟩ := List.mem_map.mp hother
    rfl
  rw [namesIn, namesIn, List.filter_append, hstrays]
  refine congrArg (· ++ t.strayNamesIn directory) ?_
  unfold erase
  rw [List.filterMap_filter, List.filter_filterMap]
  congr 1
  funext entry
  cases hname : nameIn? directory entry.1 with
  | none => split <;> simp
  | some other =>
    have hplace := nameIn?_eq_some_iff.mp hname
    by_cases hother : other = name <;> simp [hplace, hother, Option.filter]

theorem namesIn_set (t : FileTree) (directory : List String) (name : String) (node : Node) :
    (t.set (directory ++ [name]) node).namesIn directory =
      .text name :: (t.namesIn directory).filter fun other => other != .text name := by
  have hname : nameIn? directory (directory ++ [name]) = some name := nameIn?_eq_some_iff.mpr rfl
  rw [← namesIn_erase]
  simp [namesIn, set, erase, strayNamesIn, hname]

/-! ## Paths -/

/-- Two trees with the same directories. -/
structure SameDirectories (t t' : FileTree) : Prop where
  here : t'.here = t.here
  find? : ∀ place, t.find? place = some .directory ↔ t'.find? place = some .directory

namespace SameDirectories

protected theorem refl (t : FileTree) : SameDirectories t t :=
  ⟨rfl, fun _ => Iff.rfl⟩

protected theorem symm (h : SameDirectories t t') : SameDirectories t' t :=
  ⟨h.here.symm, fun place => (h.find? place).symm⟩

protected theorem trans {t'' : FileTree} (h : SameDirectories t t') (h' : SameDirectories t' t'') :
    SameDirectories t t'' :=
  ⟨h'.here.trans h.here, fun place => (h.find? place).trans (h'.find? place)⟩

theorem walk (h : SameDirectories t t') {names place place' : List String}
    (hwalk : t.walk place names = .ok place') : t'.walk place names = .ok place' := by
  induction names generalizing place with
  | nil => exact hwalk
  | cons name names ih =>
    rw [FileTree.walk] at hwalk ⊢
    cases hplace : t.find? place with
    | none => simp [hplace] at hwalk
    | some node =>
      cases node with
      | file => simp [hplace] at hwalk
      | directory =>
        simp only [hplace] at hwalk
        simp only [(h.find? place).mp hplace]
        split_ifs at hwalk ⊢ <;> exact ih hwalk

theorem locate (h : SameDirectories t t') {path : String} {place : List String}
    (hlocate : t.locate path = .ok place) : t'.locate path = .ok place := by
  unfold FileTree.locate at hlocate ⊢
  rw [h.here]
  split_ifs at hlocate ⊢ <;> exact h.walk hlocate

end SameDirectories

theorem sameDirectories_set {place : List String} (h : t.find? place ≠ some .directory)
    (bytes : List UInt8) : SameDirectories t (t.set place (.file bytes)) := by
  refine ⟨rfl, fun other => ?_⟩
  rw [find?_set h]
  split_ifs with hother
  · simp [hother, h]
  · rfl

theorem sameDirectories_erase {place : List String} (h : t.find? place ≠ some .directory) :
    SameDirectories t (t.erase place) := by
  refine ⟨rfl, fun other => ?_⟩
  rw [find?_erase h]
  split_ifs with hother
  · simp [hother, h]
  · rfl

theorem walk_append (t : FileTree) (place first second : List String) :
    t.walk place (first ++ second) = (t.walk place first).bind fun p => t.walk p second := by
  induction first generalizing place with
  | nil => rfl
  | cons name first ih =>
    rw [List.cons_append, walk, walk]
    cases t.find? place with
    | none => rfl
    | some node =>
      cases node with
      | file => rfl
      | directory => dsimp only; split_ifs <;> simp [ih, Except.bind]

end FileTree

namespace Path

theorem steps_append_slash (directory name : String) :
    steps (directory ++ "/" ++ name) = steps directory ++ steps name := by
  have hslash : ("/" : String).toList = [slash] := by decide
  unfold steps
  rw [String.toList_append, String.toList_append, hslash, List.append_assoc, List.singleton_append,
    List.splitOn_append_cons_self, List.map_append]

theorem steps_of_undivided {name : String} (h : slash ∉ name.toList) : steps name = [name] := by
  unfold steps
  rw [List.splitOn_eq_singleton h, List.map_singleton, String.ofList_toList]

theorem exists_of_endsInSlash {path : String} (h : endsInSlash path = true) :
    ∃ before, path = before ++ "/" := by
  have hlast : path.toList.getLast? = some slash := by simpa [endsInSlash] using h
  obtain ⟨cs, hcs⟩ := List.getLast?_eq_some_iff.mp hlast
  refine ⟨String.ofList cs, String.toList_inj.mp ?_⟩
  rw [hcs, String.toList_append, String.toList_ofList]
  rfl

theorem endsInSlash_append {path name : String} (hne : name ≠ "") (hname : slash ∉ name.toList) :
    endsInSlash (path ++ name) = false := by
  have hne' : name.toList ≠ [] := fun h => hne (String.toList_eq_nil_iff.mp h)
  unfold endsInSlash
  rw [String.toList_append, List.getLast?_append_of_ne_nil _ hne',
    List.getLast?_eq_getLast_of_ne_nil hne']
  have hlast : name.toList.getLast hne' ≠ slash := fun h => hname (h ▸ List.getLast_mem hne')
  simpa using hlast

theorem isAbsolute_of_undivided {name : String} (h : slash ∉ name.toList) :
    isAbsolute name = false := by
  unfold isAbsolute
  by_contra habsolute
  exact h (List.mem_of_mem_head? (by simpa using habsolute))

theorem join_eq {root name : String} (hroot : root ≠ "") (hname : slash ∉ name.toList) :
    join root name = if endsInSlash root then root ++ name else root ++ "/" ++ name := by
  simp [join, isAbsolute_of_undivided hname, hroot]

theorem isAbsolute_join {root name : String} (hroot : root ≠ "") (hname : slash ∉ name.toList) :
    isAbsolute (join root name) = isAbsolute root := by
  obtain ⟨c, cs, hcs⟩ := List.exists_cons_of_ne_nil (mt String.toList_eq_nil_iff.mp hroot)
  rw [join_eq hroot hname]
  unfold isAbsolute
  split_ifs <;> simp [hcs]

/-- The names on the way to a name in a directory. -/
theorem names_join {root name : String} (hroot : root ≠ "") (hne : name ≠ "")
    (hname : slash ∉ name.toList) :
    names (join root name) = (steps root).filter (· != "") ++ [name] := by
  have hsteps (before : String) :
      names (before ++ "/" ++ name) = (steps before).filter (· != "") ++ [name] := by
    simp [names, steps_append_slash, steps_of_undivided hname, endsInSlash_append hne hname, hne]
  rw [join_eq hroot hname]
  split_ifs with hend
  · obtain ⟨before, rfl⟩ := exists_of_endsInSlash hend
    have hroot : steps (before ++ "/") = steps before ++ [""] := by
      have hnone : steps "" = [""] := by simp [steps]
      simpa [hnone] using steps_append_slash before ""
    simp [hsteps, hroot]
  · exact hsteps root

end Path

namespace FileTree

variable {t t' : FileTree}

theorem walk_stay {place : List String} (h : t.find? place = some .directory) :
    t.walk place ["."] = .ok place := by
  simp [walk, h]

theorem of_walk_stay {place place' : List String} (h : t.walk place ["."] = .ok place') :
    t.find? place = some .directory ∧ place' = place := by
  rw [walk] at h
  cases hplace : t.find? place with
  | none => simp [hplace] at h
  | some node =>
    cases node with
    | file => simp [hplace] at h
    | directory => simpa [hplace, walk, eq_comm] using h

/-- Where the names of a path are followed from. -/
def start (t : FileTree) (path : String) : List String :=
  if Path.isAbsolute path then [] else t.here

theorem locate_eq_ok_iff {path : String} {place : List String} :
    t.locate path = .ok place ↔
      '\x00' ∉ path.toList ∧ path ≠ "" ∧ path.utf8ByteSize ≤ pathLimit ∧
        t.walk (t.start path) (Path.names path) = .ok place := by
  unfold locate start
  by_cases hnul : '\x00' ∈ path.toList
  · simp [hnul]
  · by_cases hempty : path = ""
    · simp [hempty]
    · by_cases hsize : pathLimit < path.utf8ByteSize
      · simp [hnul, hempty, hsize]
      · simp [hnul, hempty, hsize, Nat.not_lt.mp hsize]

/-- A directory is reached by the names of its path, a slash at its end left aside. -/
theorem walk_steps_of_locate {path : String} {place : List String}
    (h : t.locate path = .ok place) :
    t.walk (t.start path) ((Path.steps path).filter (· != "")) = .ok place := by
  obtain ⟨-, -, -, hwalk⟩ := locate_eq_ok_iff.mp h
  unfold Path.names at hwalk
  split_ifs at hwalk
  · rw [walk_append] at hwalk
    cases hfirst : t.walk (t.start path) ((Path.steps path).filter (· != "")) with
    | error e => simp [hfirst, Except.bind] at hwalk
    | ok place' =>
      rw [hfirst] at hwalk
      rw [(of_walk_stay hwalk).2]
  · simpa using hwalk

/-- A name in a directory is one step further, unless it or the whole path cannot be. -/
theorem locate_join {root name : String} {place : List String}
    (hroot : t.locate root = .ok place) (hne : name ≠ "") (hname : Path.slash ∉ name.toList) :
    t.locate (Path.join root name) =
      if '\x00' ∈ name.toList then .error .nulInName
      else if pathLimit < (Path.join root name).utf8ByteSize then .error .nameTooLong
      else t.walk place [name] := by
  obtain ⟨hnul, hempty, -, -⟩ := locate_eq_ok_iff.mp hroot
  have hwalk := walk_steps_of_locate hroot
  have hnul' : '\x00' ∈ (Path.join root name).toList ↔ '\x00' ∈ name.toList := by
    rw [Path.join_eq hempty hname]
    split_ifs <;> simp [hnul]
  have hempty' : Path.join root name ≠ "" := by
    rw [Path.join_eq hempty hname]
    split_ifs <;> simp [hempty]
  unfold locate
  rw [Path.isAbsolute_join hempty hname, Path.names_join hempty hne hname]
  simp only [List.contains_eq_mem, decide_eq_true_eq, hnul', String.isEmpty_iff, hempty', if_false]
  congr 2
  exact (walk_append t _ _ _).trans (by rw [← start, hwalk]; rfl)

/-! ## Names in a directory -/

/-- A name that is no step to a directory itself or the one above it. -/
structure IsPlain (name : String) : Prop where
  nonempty : name ≠ ""
  undivided : Path.slash ∉ name.toList
  not_self : name ≠ "."
  not_above : name ≠ ".."

theorem walk_plain {place place' : List String} {name : String} (hname : IsPlain name)
    (h : t.walk place [name] = .ok place') : place' = place ++ [name] := by
  rw [walk] at h
  cases hplace : t.find? place with
  | none => simp [hplace] at h
  | some node =>
    cases node with
    | file => simp [hplace] at h
    | directory =>
      simp only [hplace, hname.not_self, hname.not_above, if_false] at h
      split_ifs at h
      simpa [walk, eq_comm] using h

/-- A plain name in a directory leads to its place there, if it leads anywhere. -/
theorem locate_join_plain {root name : String} {place place' : List String}
    (hroot : t.locate root = .ok place) (hname : IsPlain name)
    (h : t.locate (Path.join root name) = .ok place') :
    place' = place ++ [name] := by
  rw [locate_join hroot hname.nonempty hname.undivided] at h
  split_ifs at h
  exact walk_plain hname h

/-! ## Directories on the way -/

/-- All places above one are directories. -/
def Reached (t : FileTree) (place : List String) : Prop :=
  ∀ above, above <+: place → above ≠ place → t.find? above = some .directory

theorem Reached.snoc {place : List String} (h : t.Reached place)
    (hplace : t.find? place = some .directory) (name : String) : t.Reached (place ++ [name]) := by
  intro above hinitial hne
  rcases List.prefix_concat_iff.mp hinitial with rfl | hinitial
  · exact absurd rfl hne
  · by_cases habove : above = place
    · rw [habove, hplace]
    · exact h above hinitial habove

theorem Reached.dropLast {place : List String} (h : t.Reached place) : t.Reached place.dropLast := by
  intro above hinitial hne
  refine h above (hinitial.trans (List.dropLast_prefix place)) ?_
  rintro rfl
  exact hne (hinitial.eq_of_length_le (by simp))

theorem Reached.walk {names place place' : List String} (h : t.Reached place)
    (hwalk : t.walk place names = .ok place') : t.Reached place' := by
  induction names generalizing place with
  | nil => exact (Except.ok.inj hwalk) ▸ h
  | cons name names ih =>
    rw [FileTree.walk] at hwalk
    cases hplace : t.find? place with
    | none => simp [hplace] at hwalk
    | some node =>
      cases node with
      | file => simp [hplace] at hwalk
      | directory =>
        simp only [hplace] at hwalk
        split_ifs at hwalk
        · exact ih h hwalk
        · exact ih h.dropLast hwalk
        · exact ih (h.snoc hplace name) hwalk

theorem reached_start (t : FileTree) (path : String) : t.Reached (t.start path) := by
  intro above hinitial hne
  unfold start at hinitial hne
  split_ifs at hinitial hne
  · exact absurd (List.prefix_nil.mp hinitial) hne
  · exact if_pos (List.isPrefixOf_iff_prefix.mpr hinitial)

/-- The place above a directory that a path leads to is a directory. -/
theorem find?_dropLast_of_locate {path : String} {place : List String}
    (h : t.locate path = .ok place) (hplace : t.find? place = some .directory) :
    t.find? place.dropLast = some .directory := by
  obtain ⟨-, -, -, hwalk⟩ := locate_eq_ok_iff.mp h
  by_cases hroot : place.dropLast = place
  · rw [hroot, hplace]
  · exact (reached_start t path).walk hwalk _ (List.dropLast_prefix place) hroot

/-! ## Making a directory that is there -/

theorem locate_of_append_slash {path : String} {place : List String} (hne : path ≠ "")
    (h : t.locate (path ++ "/") = .ok place) : t.locate path = .ok place := by
  have hwalk := walk_steps_of_locate h
  obtain ⟨hnul, -, hsize, hnames⟩ := locate_eq_ok_iff.mp h
  have hsteps : (Path.steps (path ++ "/")).filter (· != "") =
      (Path.steps path).filter (· != "") := by
    have hnone : Path.steps "" = [""] := by simp [Path.steps]
    have := Path.steps_append_slash path ""
    rw [String.append_empty, hnone] at this
    simp [this]
  have hend : Path.endsInSlash (path ++ "/") = true := by
    simp [Path.endsInSlash, Path.slash]
  have hstart : t.start (path ++ "/") = t.start path := by
    obtain ⟨c, cs, hcs⟩ := List.exists_cons_of_ne_nil (mt String.toList_eq_nil_iff.mp hne)
    simp [start, Path.isAbsolute, hcs]
  have hplace : t.find? place = some .directory := by
    rw [Path.names, hend, if_pos rfl, walk_append, hwalk] at hnames
    exact (of_walk_stay hnames).1
  rw [hstart, hsteps] at hwalk
  refine locate_eq_ok_iff.mpr ⟨?_, hne, ?_, ?_⟩
  · simpa using hnul
  · rw [String.utf8ByteSize_append] at hsize
    omega
  · rw [Path.names, walk_append, hwalk]
    split_ifs
    · exact walk_stay hplace
    · rfl

theorem locate_trimEnd {path : String} {place : List String} (h : t.locate path = .ok place) :
    t.locate (trimEnd path) = .ok place := by
  have hdrop (cs : List Char) (hne : cs.dropWhile (· == '/') ≠ [])
      (hcs : t.locate (String.ofList cs.reverse) = .ok place) :
      t.locate (String.ofList (cs.dropWhile (· == '/')).reverse) = .ok place := by
    induction cs with
    | nil => exact absurd rfl hne
    | cons c cs ih =>
      by_cases hc : c = '/'
      · subst hc
        simp only [List.dropWhile_cons_of_pos, beq_self_eq_true] at hne ⊢
        refine ih hne (locate_of_append_slash ?_ ?_)
        · intro hempty
          have : cs = [] := by simpa using congrArg String.toList hempty
          exact hne (by simp [this])
        · rw [List.reverse_cons, String.ofList_append] at hcs
          exact hcs
      · rwa [List.dropWhile_cons_of_neg (by simpa using hc)]
  unfold trimEnd
  cases hcs : (path.toList.reverse.dropWhile (· == '/')).reverse with
  | nil => exact h
  | cons c cs =>
    have := hdrop path.toList.reverse (by rintro hnil; simp [hnil] at hcs) (by simpa using h)
    rwa [hcs] at this

theorem makeDirectory_of_directory {path : String} {place : List String}
    (h : t.locate path = .ok place) (hplace : t.find? place = some .directory) :
    t.makeDirectory path = .error .entryExists := by
  simp [makeDirectory, locate_trimEnd h, hplace, bind, Except.bind]

theorem isDirectory_iff {path : String} :
    t.isDirectory path = true ↔
      ∃ place, t.locate path = .ok place ∧ t.find? place = some .directory := by
  unfold isDirectory get
  cases hlocate : t.locate path with
  | error => simp [bind, Except.bind]
  | ok place =>
    cases hplace : t.find? place with
    | none => simp [bind, Except.bind, hplace]
    | some node => cases node <;> simp [bind, Except.bind, hplace]

/-! ## Operations -/

theorem get_eq_ok_iff {path : String} {place : List String} {node : Node} :
    t.get path = .ok (place, node) ↔ t.locate path = .ok place ∧ t.find? place = some node := by
  unfold get
  cases hlocate : t.locate path with
  | error => simp [bind, Except.bind]
  | ok found =>
    have hplace : t.find? found = some node ∧ found = place ↔
        found = place ∧ t.find? place = some node := by
      constructor
      · rintro ⟨h, rfl⟩; exact ⟨rfl, h⟩
      · rintro ⟨rfl, h⟩; exact ⟨h, rfl⟩
    cases hfound : t.find? found <;> simp [bind, Except.bind, hfound, ← hplace, and_comm]

theorem list_eq_ok_iff {path : String} {names : List Name} :
    t.list path = .ok names ↔
      ∃ place, t.locate path = .ok place ∧ t.find? place = some .directory ∧
        t.namesIn place = names := by
  have hget {place : List String} {node : Node} := @get_eq_ok_iff t path place node
  unfold list
  cases h : t.get path with
  | error => simp [bind, Except.bind, ← and_assoc, ← hget, h]
  | ok found =>
    obtain ⟨place, node⟩ := found
    cases node <;> simp [bind, Except.bind, ← and_assoc, ← hget, h]

theorem read_eq_ok_iff {path : String} {bytes : List UInt8} :
    t.read path = .ok bytes ↔
      ∃ place, t.locate path = .ok place ∧ t.find? place = some (.file bytes) := by
  have hget {place : List String} {node : Node} := @get_eq_ok_iff t path place node
  unfold read
  cases h : t.get path with
  | error => simp [bind, Except.bind, ← hget, h]
  | ok found =>
    obtain ⟨place, node⟩ := found
    cases node <;> simp [bind, Except.bind, ← hget, h]

theorem write_eq_ok_iff {path : String} {bytes : List UInt8} :
    t.write path bytes = .ok t' ↔
      ∃ place, t.locate path = .ok place ∧ t.find? place ≠ some .directory ∧
        t.set place (.file bytes) = t' := by
  unfold write
  cases hlocate : t.locate path with
  | error => simp [bind, Except.bind]
  | ok place =>
    cases hplace : t.find? place with
    | none => simp [bind, Except.bind, hplace]
    | some node => cases node <;> simp [bind, Except.bind, hplace]

theorem rename_eq_ok_iff {source target : String} :
    t.rename source target = .ok t' ↔
      ∃ old bytes new, t.locate source = .ok old ∧ t.find? old = some (.file bytes) ∧
        t.locate target = .ok new ∧ t.find? new ≠ some .directory ∧
        (t.erase old).set new (.file bytes) = t' := by
  have hget {place : List String} {node : Node} := @get_eq_ok_iff t source place node
  unfold rename
  cases h : t.get source with
  | error => simp [bind, Except.bind, ← and_assoc, ← hget, h]
  | ok found =>
    obtain ⟨old, node⟩ := found
    cases hlocate : t.locate target with
    | error => cases node <;> simp [bind, Except.bind]
    | ok new =>
      cases node with
      | directory => simp [bind, Except.bind, ← and_assoc, ← hget, h]
      | file bytes =>
        cases hnew : t.find? new with
        | none => simp [bind, Except.bind, ← and_assoc, ← hget, h, hnew]
        | some node => cases node <;> simp [bind, Except.bind, ← and_assoc, ← hget, h, hnew]

theorem remove_eq_ok_iff {path : String} :
    t.remove path = .ok t' ↔
      ∃ place bytes, t.locate path = .ok place ∧ t.find? place = some (.file bytes) ∧
        t.erase place = t' := by
  have hget {place : List String} {node : Node} := @get_eq_ok_iff t path place node
  unfold remove
  cases h : t.get path with
  | error => simp [bind, Except.bind, ← and_assoc, ← hget, h]
  | ok found =>
    obtain ⟨place, node⟩ := found
    cases node <;> simp [bind, Except.bind, ← and_assoc, ← hget, h]

end FileTree

end CampusQuery
