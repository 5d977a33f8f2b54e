import CampusQuery.Disk.FileTree
import CampusQuery.Journal.Journal

/-!
# A machine in memory

A `Machine` is a tree of files, a journal, a clock that stands still and what is to be read from
standard input. Programs over `Disk`, `Journal`, `Clock` and `Console` run on it as functions from
one machine to the next.
-/

namespace CampusQuery

/-- Standard input. -/
class Console (m : Type → Type) where
  /-- All that is to be read. -/
  input : m (List UInt8)

/-- Files, journal, clock and standard input. -/
structure Machine where
  files : FileTree := .empty
  minimum : Severity := .info
  /-- The lines of the journal, the last first. -/
  lines : List String := []
  now : Instant := default
  input : List UInt8 := []

namespace Machine

/-- Changes the files, if it can be done. -/
def change (f : FileTree → Except DiskFault FileTree) :
    StateM Machine (Except DiskFault Unit) := fun machine =>
  match f machine.files with
  | .ok files => (.ok (), { machine with files := files })
  | .error fault => (.error fault, machine)

instance : Disk (StateM Machine) where
  makeDirectory path := change fun files => files.makeDirectory path
  isDirectory path := return (← get).files.isDirectory path
  list path := return (← get).files.list path
  read path := return (← get).files.read path
  readRaw path name := return (← get).files.readRaw path name
  write path bytes := change fun files => files.write path bytes
  rename source target := change fun files => files.rename source target
  remove path := change fun files => files.remove path

instance : Journal (StateM Machine) where
  minimum := return (← get).minimum
  setMinimum severity := modify fun machine => { machine with minimum := severity }
  append line := modify fun machine => { machine with lines := line :: machine.lines }

instance : Clock (StateM Machine) where
  now := return (← get).now
  milliseconds := return 0

instance : Console (StateM Machine) where
  input := return (← get).input

end Machine

end CampusQuery
