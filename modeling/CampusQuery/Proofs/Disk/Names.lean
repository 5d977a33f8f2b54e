import Mathlib
import CampusQuery.Proofs.Disk.FileTree
import CampusQuery.Proofs.Machine

/-!
# Names without slashes

On a disk no name has a slash in it. Paths lead to places of such names only, so the operations keep
it so whatever paths they are given.

* `FileTree.IsNamed` — no name in a tree has a slash in it.
* `IsNamed.locate` — the names of the place that a path leads to.
* `Machine.keeps_write`, `Machine.keeps_rename` and so on — the operations of a machine keep it so.
-/

namespace CampusQuery

theorem Path.not_mem_of_mem_splitOn {c : Char} {cs part : List Char} (h : part ∈ cs.splitOn c) :
    c ∉ part := by
  induction cs generalizing part with
  | nil =>
    rw [List.splitOn_nil] at h
    obtain rfl := List.mem_singleton.mp h
    exact List.not_mem_nil
  | cons d cs ih =>
    rw [List.splitOn_cons_eq_if_modifyHead] at h
    split_ifs at h with hd
    · rcases List.mem_cons.mp h with rfl | h
      · exact List.not_mem_nil
      · exact ih h
    · obtain ⟨first, rest, hparts⟩ := List.exists_cons_of_ne_nil (List.splitOn_ne_nil c cs)
      rw [hparts] at h ih
      rcases List.mem_cons.mp h with rfl | h
      · have hc : c ≠ d := fun heq => hd (by simp [heq])
        exact List.not_mem_cons_of_ne_of_not_mem hc (ih List.mem_cons_self)
      · exact ih (List.mem_cons_of_mem _ h)

theorem Path.undivided_of_mem_names {path name : String} (h : name ∈ names path) :
    slash ∉ name.toList := by
  rcases List.mem_append.mp h with h | h
  · obtain ⟨part, hpart, rfl⟩ := List.mem_map.mp (List.mem_filter.mp h).1
    rw [String.toList_ofList]
    exact not_mem_of_mem_splitOn hpart
  · split_ifs at h
    · obtain rfl := List.mem_singleton.mp h
      decide
    · cases h

namespace FileTree

/-! ## Trees -/

/-- No name of a place has a slash in it. -/
def Undivided (place : List String) : Prop :=
  ∀ name ∈ place, Path.slash ∉ name.toList

/-- No name in a tree has a slash in it. -/
structure IsNamed (t : FileTree) : Prop where
  here : Undivided t.here
  nodes : ∀ entry ∈ t.nodes, Undivided entry.1

variable {t t' : FileTree}

theorem isNamed_empty : empty.IsNamed := by
  refine ⟨fun name hname => ?_, nofun⟩
  obtain rfl := List.mem_singleton.mp hname
  decide

theorem Undivided.walk {place place' names : List String} (h : Undivided place)
    (hnames : Undivided names) (hwalk : t.walk place names = .ok place') : Undivided place' := by
  induction names generalizing place with
  | nil => exact Except.ok.inj hwalk ▸ h
  | cons name names ih =>
    obtain ⟨hname, hnames⟩ := List.forall_mem_cons.mp hnames
    rw [FileTree.walk] at hwalk
    cases hplace : t.find? place with
    | none => simp [hplace] at hwalk
    | some node =>
      cases node with
      | file => simp [hplace] at hwalk
      | directory =>
        simp only [hplace] at hwalk
        split_ifs at hwalk
        · exact ih h hnames hwalk
        · exact ih (fun other hother => h other (List.mem_of_mem_dropLast hother)) hnames hwalk
        · refine ih (fun other hother => ?_) hnames hwalk
          rcases List.mem_append.mp hother with hother | hother
          · exact h other hother
          · exact List.mem_singleton.mp hother ▸ hname

/-- The names of the place that a path leads to have no slash in them. -/
theorem IsNamed.locate (h : t.IsNamed) {path : String} {place : List String}
    (hlocate : t.locate path = .ok place) : Undivided place := by
  obtain ⟨-, -, -, hwalk⟩ := locate_eq_ok_iff.mp hlocate
  refine Undivided.walk ?_ (fun name => Path.undivided_of_mem_names) hwalk
  unfold start
  split_ifs
  · exact nofun
  · exact h.here

theorem IsNamed.namesIn (h : t.IsNamed) {directory : List String} {name : String}
    (hname : .text name ∈ t.namesIn directory) : Path.slash ∉ name.toList := by
  obtain ⟨node, hentry⟩ := text_mem_namesIn.mp hname
  exact h.nodes _ hentry name (List.mem_append_right _ List.mem_cons_self)

theorem IsNamed.erase (h : t.IsNamed) (place : List String) : (t.erase place).IsNamed :=
  ⟨h.here, fun entry hentry => h.nodes entry (List.mem_filter.mp hentry).1⟩

theorem IsNamed.set (h : t.IsNamed) {place : List String} (hplace : Undivided place)
    (node : Node) : (t.set place node).IsNamed :=
  ⟨h.here, List.forall_mem_cons.mpr ⟨hplace, (h.erase place).nodes⟩⟩

theorem IsNamed.makeDirectory (h : t.IsNamed) {path : String}
    (hmake : t.makeDirectory path = .ok t') : t'.IsNamed := by
  unfold FileTree.makeDirectory at hmake
  cases hlocate : t.locate (trimEnd path) with
  | error => simp [hlocate, bind, Except.bind] at hmake
  | ok place =>
    cases hplace : t.find? place with
    | some node => simp [hlocate, hplace, bind, Except.bind] at hmake
    | none =>
      simp only [hlocate, hplace, bind, Except.bind, Except.ok.injEq] at hmake
      exact hmake ▸ h.set (h.locate hlocate) .directory

theorem IsNamed.write (h : t.IsNamed) {path : String} {bytes : List UInt8}
    (hwrite : t.write path bytes = .ok t') : t'.IsNamed := by
  obtain ⟨place, hplace, -, rfl⟩ := write_eq_ok_iff.mp hwrite
  exact h.set (h.locate hplace) _

theorem IsNamed.rename (h : t.IsNamed) {source target : String}
    (hrename : t.rename source target = .ok t') : t'.IsNamed := by
  obtain ⟨old, bytes, new, -, -, hnew, -, rfl⟩ := rename_eq_ok_iff.mp hrename
  exact (h.erase old).set (h.locate hnew) _

theorem IsNamed.remove (h : t.IsNamed) {path : String} (hremove : t.remove path = .ok t') :
    t'.IsNamed := by
  obtain ⟨place, bytes, -, -, rfl⟩ := remove_eq_ok_iff.mp hremove
  exact h.erase place

end FileTree

/-! ## Programs -/

namespace Machine

/-- A machine in whose files no name has a slash in it. -/
def IsNamed (machine : Machine) : Prop :=
  machine.files.IsNamed

theorem keeps_makeDirectory (path : String) : Keeps IsNamed (Disk.makeDirectory path) :=
  .change fun _ _ h => h.makeDirectory

theorem keeps_write (path : String) (bytes : List UInt8) : Keeps IsNamed (Disk.write path bytes) :=
  .change fun _ _ h => h.write

theorem keeps_rename (source target : String) : Keeps IsNamed (Disk.rename source target) :=
  .change fun _ _ h => h.rename

theorem keeps_remove (path : String) : Keeps IsNamed (Disk.remove path) :=
  .change fun _ _ h => h.remove

theorem KeepsWorld.keeps {α : Type} {p : StateM Machine α} (h : KeepsWorld p) :
    Keeps IsNamed p := by
  intro machine hnamed
  rw [IsNamed, ← (h machine).files]
  exact hnamed

end Machine

end CampusQuery
