import CampusQuery.Disk.Fault
import CampusQuery.Disk.Name

/-!
# Disks

A `Disk` is what a program needs of the files around it. Every operation answers with what it found
or with the fault that stopped it.

* `Disk.makeDirectories` makes a directory and those above it that are not there.
* `Disk.readText` reads a file that must be text.
* `Disk.readIn` reads the file of a name in a directory, be the name a text or not.
-/

namespace CampusQuery

/-- The operations on files. -/
class Disk (m : Type → Type) where
  /-- Makes a directory in one that is there. -/
  makeDirectory : String → m (Except DiskFault Unit)
  /-- Whether a path leads to a directory. -/
  isDirectory : String → m Bool
  /-- The names in a directory, in any order. -/
  list : String → m (Except DiskFault (List Name))
  read : String → m (Except DiskFault (List UInt8))
  /-- Reads the file in a directory whose name is not a text. -/
  readRaw : String → RawName → m (Except DiskFault (List UInt8))
  /-- Makes a file hold what is given, and makes the file if it is not there. -/
  write : String → List UInt8 → m (Except DiskFault Unit)
  /-- Gives a file another path, in place of a file that may be there. -/
  rename : String → String → m (Except DiskFault Unit)
  remove : String → m (Except DiskFault Unit)

namespace Disk

variable {m : Type → Type} [Monad m] [Disk m]

/-- Makes the first directory of a lineage, and those above it as far as they are not there. -/
def makeLineage : List String → m (Except DiskFault Unit)
  | [] => return .ok ()
  | path :: above => do
    match ← makeDirectory path with
    | .ok () => return .ok ()
    | .error .noEntry =>
      match ← makeLineage above with
      | .error fault => return .error fault
      | .ok () =>
        match ← makeDirectory path with
        | .ok () => return .ok ()
        | .error fault => return if ← isDirectory path then .ok () else .error fault
    | .error fault => return if ← isDirectory path then .ok () else .error fault

/-- Makes a directory and those above it as far as they are not there. -/
def makeDirectories (path : String) : m (Except DiskFault Unit) :=
  makeLineage (Path.lineage path)

/-- Bytes as text. -/
def textOf (bytes : List UInt8) : Except DiskFault String :=
  match String.fromUTF8? (ByteArray.mk bytes.toArray) with
  | some s => .ok s
  | none => .error .notText

/-- Reads a file of text. -/
def readText (path : String) : m (Except DiskFault String) := do
  match ← read path with
  | .ok bytes => return textOf bytes
  | .error fault => return .error fault

/-- Reads the file of a name in a directory. -/
def readIn (directory : String) : Name → m (Except DiskFault (List UInt8))
  | .text s => read (Path.join directory s)
  | .raw name => readRaw directory name

end Disk

end CampusQuery
