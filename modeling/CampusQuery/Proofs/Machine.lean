import Mathlib
import CampusQuery.Engine
import CampusQuery.Machine

/-!
# Programs on a machine

What programs do on a machine, and that the journal has no say in it: they write lines, but neither
their results nor the files depend on the lines that are there.

* `on_bind`, `on_write`, `on_rename` and so on — one step of a program on a machine.
* `Blind` — a program that does the same whatever the journal holds; every program made of blind
  steps is one.
* `Keeps` — a program that keeps a property of machines, and what is made of such programs.
-/

namespace CampusQuery

namespace Machine

variable {α β : Type}

/-- What a program gives on a machine, and the machine after it. -/
def on (machine : Machine) (p : StateM Machine α) : α × Machine :=
  p.run machine

/-! ## Steps -/

theorem on_pure (a : α) (machine : Machine) :
    machine.on (pure a) = (a, machine) := rfl

theorem on_bind (p : StateM Machine α) (f : α → StateM Machine β) (machine : Machine) :
    machine.on (p >>= f) = (machine.on p).2.on (f (machine.on p).1) := rfl

theorem on_makeDirectory (path : String) (machine : Machine) :
    machine.on (Disk.makeDirectory path) =
      match machine.files.makeDirectory path with
      | .ok files => (.ok (), { machine with files := files })
      | .error fault => (.error fault, machine) := rfl

theorem on_isDirectory (path : String) (machine : Machine) :
    machine.on (Disk.isDirectory path) =
      (machine.files.isDirectory path, machine) := rfl

theorem on_list (path : String) (machine : Machine) :
    machine.on (Disk.list path) =
      (machine.files.list path, machine) := rfl

theorem on_readIn (directory : String) (name : Name) (machine : Machine) :
    machine.on (Disk.readIn directory name) =
      (machine.files.readIn directory name, machine) := by
  cases name <;> rfl

theorem on_write (path : String) (bytes : List UInt8) (machine : Machine) :
    machine.on (Disk.write path bytes) =
      match machine.files.write path bytes with
      | .ok files => (.ok (), { machine with files := files })
      | .error fault => (.error fault, machine) := rfl

theorem on_rename (source target : String) (machine : Machine) :
    machine.on (Disk.rename source target) =
      match machine.files.rename source target with
      | .ok files => (.ok (), { machine with files := files })
      | .error fault => (.error fault, machine) := rfl

theorem on_remove (path : String) (machine : Machine) :
    machine.on (Disk.remove path) =
      match machine.files.remove path with
      | .ok files => (.ok (), { machine with files := files })
      | .error fault => (.error fault, machine) := rfl

theorem on_now (machine : Machine) :
    machine.on Clock.now = (machine.now, machine) := rfl

/-! ## The journal -/

/-- Two machines with the same files at the same time. -/
structure SameWorld (m m' : Machine) : Prop where
  files : m.files = m'.files
  now : m.now = m'.now

protected theorem SameWorld.refl (m : Machine) : SameWorld m m :=
  ⟨rfl, rfl⟩

protected theorem SameWorld.symm {m m' : Machine} (h : SameWorld m m') : SameWorld m' m :=
  ⟨h.files.symm, h.now.symm⟩

protected theorem SameWorld.trans {m m' m'' : Machine} (h : SameWorld m m')
    (h' : SameWorld m' m'') : SameWorld m m'' :=
  ⟨h.files.trans h'.files, h.now.trans h'.now⟩

/-- Recording an entry changes the journal only. -/
theorem sameWorld_add (e : Entry) (machine : Machine) :
    SameWorld machine (machine.on (Journal.add e)).2 := by
  unfold Journal.add
  rw [on_bind]
  split <;> exact ⟨rfl, rfl⟩

theorem sameWorld_record (event : Event) (fields : Fields) (machine : Machine) :
    SameWorld machine (machine.on (Journal.record event fields)).2 :=
  sameWorld_add _ machine

/-- A program that changes nothing but the journal. -/
def KeepsWorld (p : StateM Machine α) : Prop :=
  ∀ machine : Machine, SameWorld machine (machine.on p).2

namespace KeepsWorld

protected theorem pure (a : α) : KeepsWorld (pure a) :=
  SameWorld.refl

protected theorem bind {p : StateM Machine α} {f : α → StateM Machine β} (hp : KeepsWorld p)
    (hf : ∀ a, KeepsWorld (f a)) : KeepsWorld (p >>= f) :=
  fun machine => (hp machine).trans (hf _ _)

theorem milliseconds : KeepsWorld Clock.milliseconds :=
  SameWorld.refl

theorem add (e : Entry) : KeepsWorld (Journal.add e) :=
  sameWorld_add e

theorem record (event : Event) (fields : Fields) : KeepsWorld (Journal.record event fields) :=
  sameWorld_add _

end KeepsWorld

/-- A program whose result and effects do not depend on the journal. -/
def Blind (p : StateM Machine α) : Prop :=
  ∀ m m', SameWorld m m' → (m.on p).1 = (m'.on p).1 ∧ SameWorld (m.on p).2 (m'.on p).2

namespace Blind

protected theorem pure (a : α) : Blind (pure a) :=
  fun _ _ h => ⟨rfl, h⟩

protected theorem bind {p : StateM Machine α} {f : α → StateM Machine β} (hp : Blind p)
    (hf : ∀ a, Blind (f a)) : Blind (p >>= f) := by
  intro m m' h
  obtain ⟨hresult, hworld⟩ := hp m m' h
  rw [on_bind, on_bind, ← hresult]
  exact hf _ _ _ hworld

/-- A step that reads the files and the clock only. -/
theorem of_read (f : FileTree → Instant → α) :
    Blind (fun m => (f m.files m.now, m) : StateM Machine α) := by
  intro m m' h
  refine ⟨?_, h⟩
  show f m.files m.now = f m'.files m'.now
  rw [h.files, h.now]

theorem change (f : FileTree → Except DiskFault FileTree) : Blind (Machine.change f) := by
  intro m m' h
  show (Machine.change f m).1 = (Machine.change f m').1 ∧
    SameWorld (Machine.change f m).2 (Machine.change f m').2
  unfold Machine.change
  rw [h.files]
  cases f m'.files with
  | error fault => exact ⟨rfl, h⟩
  | ok files => exact ⟨rfl, ⟨rfl, h.now⟩⟩

theorem now : Blind Clock.now :=
  of_read fun _ now => now

theorem milliseconds : Blind Clock.milliseconds :=
  of_read fun _ _ => 0

theorem add (e : Entry) : Blind (Journal.add e : StateM Machine Unit) :=
  fun m m' h => ⟨rfl, (sameWorld_add e m).symm.trans (h.trans (sameWorld_add e m'))⟩

theorem record (event : Event) (fields : Fields) :
    Blind (Journal.record event fields : StateM Machine Unit) :=
  add _

theorem isDirectory (path : String) : Blind (Disk.isDirectory path) :=
  of_read fun files _ => files.isDirectory path

theorem makeLineage (paths : List String) : Blind (Disk.makeLineage paths) := by
  have hpresent (path : String) (fault : DiskFault) : Blind
      (do return if ← Disk.isDirectory path then (.ok () : Except DiskFault Unit)
        else .error fault) :=
    (isDirectory path).bind fun _ => .pure _
  induction paths with
  | nil => exact .pure _
  | cons path above ih =>
    rw [Disk.makeLineage]
    refine (change _).bind fun result => ?_
    split
    · exact .pure _
    · refine ih.bind fun result => ?_
      split
      · exact .pure _
      · refine (change _).bind fun result => ?_
        split
        · exact .pure _
        · exact hpresent path _
    · exact hpresent path _

end Blind

/-! ## What a program keeps -/

/-- A program that keeps a property of machines. -/
def Keeps (P : Machine → Prop) (p : StateM Machine α) : Prop :=
  ∀ machine, P machine → P (machine.on p).2

namespace Keeps

variable {P : Machine → Prop}

protected theorem pure (a : α) : Keeps P (pure a) :=
  fun _ h => h

protected theorem bind {p : StateM Machine α} {f : α → StateM Machine β} (hp : Keeps P p)
    (hf : ∀ a, Keeps P (f a)) : Keeps P (p >>= f) :=
  fun machine h => hf _ _ (hp machine h)

theorem change {f : FileTree → Except DiskFault FileTree}
    (hf : ∀ machine files, P machine → f machine.files = .ok files →
      P { machine with files := files }) : Keeps P (Machine.change f) := by
  intro machine h
  show P (Machine.change f machine).2
  unfold Machine.change
  cases hfiles : f machine.files with
  | ok files => exact hf machine files h hfiles
  | error fault => exact h

theorem isDirectory (path : String) : Keeps P (Disk.isDirectory path) :=
  fun _ h => h

theorem now : Keeps P Clock.now :=
  fun _ h => h

/-- What is kept by making one directory is kept by making those above it too. -/
theorem makeLineage (hmake : ∀ path, Keeps P (Disk.makeDirectory path)) (paths : List String) :
    Keeps P (Disk.makeLineage paths) := by
  have hpresent (path : String) (fault : DiskFault) : Keeps P
      (do return if ← Disk.isDirectory path then (.ok () : Except DiskFault Unit)
        else .error fault) :=
    (isDirectory path).bind fun _ => .pure _
  induction paths with
  | nil => exact .pure _
  | cons path above ih =>
    rw [Disk.makeLineage]
    refine (hmake path).bind fun result => ?_
    split
    · exact .pure _
    · refine ih.bind fun result => ?_
      split
      · exact .pure _
      · refine (hmake path).bind fun result => ?_
        split
        · exact .pure _
        · exact hpresent path _
    · exact hpresent path _

end Keeps

end Machine

end CampusQuery
