import CampusQuery.Disk.Disk

/-!
# Trees of files

A `FileTree` holds the files and directories of a disk, each under the names that lead to it from
the root. `locate` follows a path through it, and the other operations are those of a `Disk`. No
path leads to what has a name that is not a text: that is found in the list of its directory only.
-/

namespace CampusQuery

/-- A file with what it holds, or a directory. -/
inductive Node where
  | file (bytes : List UInt8)
  | directory
  deriving DecidableEq, Repr

/-- Files and directories, and the current directory. It and those above it are always there. -/
structure FileTree where
  here : List String
  nodes : List (List String × Node)
  /-- What has a name that is not a text, with the names that lead to its directory. -/
  strays : List ((List String × RawName) × Node) := []
  deriving Repr

namespace FileTree

/-- The tree with nothing in the current directory. -/
def empty : FileTree := { here := ["home"], nodes := [] }

/-- What is under some names. -/
def find? (t : FileTree) (names : List String) : Option Node :=
  if names.isPrefixOf t.here then some .directory else t.nodes.lookup names

/-- The tree with something under some names. -/
def set (t : FileTree) (names : List String) (node : Node) : FileTree :=
  { t with nodes := (names, node) :: t.nodes.filter fun entry => entry.1 != names }

/-- The tree with nothing under some names. -/
def erase (t : FileTree) (names : List String) : FileTree :=
  { t with nodes := t.nodes.filter fun entry => entry.1 != names }

/-! ## Paths -/

/-- The longest name, in bytes. -/
def nameLimit : Nat := 255

/-- The longest path, in bytes. -/
def pathLimit : Nat := 4095

/-- Follows names from a place. Only a directory leads on. -/
def walk (t : FileTree) (place : List String) : List String → Except DiskFault (List String)
  | [] => .ok place
  | name :: names =>
    match t.find? place with
    | none => .error .noEntry
    | some (.file _) => .error .notDirectory
    | some .directory =>
      if name = "." then walk t place names
      else if name = ".." then walk t place.dropLast names
      else if nameLimit < name.utf8ByteSize then .error .nameTooLong
      else walk t (place ++ [name]) names

/-- The names under which a path leads from the root. -/
def locate (t : FileTree) (path : String) : Except DiskFault (List String) :=
  if path.toList.contains '\x00' then .error .nulInName
  else if path.isEmpty then .error .noEntry
  else if pathLimit < path.utf8ByteSize then .error .nameTooLong
  else walk t (if Path.isAbsolute path then [] else t.here) (Path.names path)

/-- What a path leads to. -/
def get (t : FileTree) (path : String) : Except DiskFault (List String × Node) := do
  let names ← t.locate path
  match t.find? names with
  | some node => .ok (names, node)
  | none => .error .noEntry

/-- A path without slashes at its end. -/
def trimEnd (path : String) : String :=
  match (path.toList.reverse.dropWhile (· == '/')).reverse with
  | [] => path
  | cs => String.ofList cs

/-! ## Operations -/

/-- Makes a directory. -/
def makeDirectory (t : FileTree) (path : String) : Except DiskFault FileTree := do
  let names ← t.locate (trimEnd path)
  match t.find? names with
  | some _ => .error .entryExists
  | none => .ok (t.set names .directory)

/-- Whether a path leads to a directory. -/
def isDirectory (t : FileTree) (path : String) : Bool :=
  match t.get path with
  | .ok (_, .directory) => true
  | _ => false

/-- The name of a place within a directory. -/
def nameIn? (directory place : List String) : Option String :=
  if place.length = directory.length + 1 ∧ directory.isPrefixOf place then place.getLast? else none

/-- The names under a place that are no texts. -/
def strayNamesIn (t : FileTree) (place : List String) : List Name :=
  (t.strays.filter fun entry => entry.1.1 == place).map fun entry => .raw entry.1.2

/-- The names under a place. -/
def namesIn (t : FileTree) (place : List String) : List Name :=
  t.nodes.filterMap (fun entry => (nameIn? place entry.1).map .text) ++ t.strayNamesIn place

/-- The names in a directory. -/
def list (t : FileTree) (path : String) : Except DiskFault (List Name) := do
  match ← t.get path with
  | (_, .file _) => .error .notDirectory
  | (names, .directory) => .ok (t.namesIn names)

/-- What a file holds. -/
def read (t : FileTree) (path : String) : Except DiskFault (List UInt8) := do
  match ← t.get path with
  | (_, .file bytes) => .ok bytes
  | (_, .directory) => .error .isDirectory

/-- What the file in a directory holds whose name is not a text. -/
def readRaw (t : FileTree) (path : String) (name : RawName) : Except DiskFault (List UInt8) := do
  if pathLimit < (Path.join path "").utf8ByteSize + name.1.length then throw .nameTooLong
  match ← t.get path with
  | (_, .file _) => throw .notDirectory
  | (place, .directory) =>
    match t.strays.lookup (place, name) with
    | some (.file bytes) => return bytes
    | some .directory => throw .isDirectory
    | none => throw .noEntry

/-- What the file of a name in a directory holds. -/
def readIn (t : FileTree) (path : String) : Name → Except DiskFault (List UInt8)
  | .text s => t.read (Path.join path s)
  | .raw name => t.readRaw path name

/-- Makes a file hold what is given. -/
def write (t : FileTree) (path : String) (bytes : List UInt8) : Except DiskFault FileTree := do
  let names ← t.locate path
  match t.find? names with
  | some .directory => .error .isDirectory
  | _ => .ok (t.set names (.file bytes))

/-- Gives a file another path. -/
def rename (t : FileTree) (source target : String) : Except DiskFault FileTree := do
  let (old, node) ← t.get source
  let new ← t.locate target
  match node, t.find? new with
  | .file _, some .directory => .error .isDirectory
  | .file _, _ => .ok ((t.erase old).set new node)
  | .directory, _ => .error .notDirectory

/-- Removes a file. -/
def remove (t : FileTree) (path : String) : Except DiskFault FileTree := do
  match ← t.get path with
  | (names, .file _) => .ok (t.erase names)
  | (_, .directory) => .error .isDirectory

/-- Removes a file, or a directory with all that is in it. -/
def removeAll (t : FileTree) (path : String) : FileTree :=
  match t.locate path with
  | .ok names =>
    { t with
      nodes := t.nodes.filter fun entry => !names.isPrefixOf entry.1
      strays := t.strays.filter fun entry => !names.isPrefixOf entry.1.1 }
  | .error _ => t

/-- Every path of texts below the current directory in order, a directory's with a slash at its
end. -/
def paths (t : FileTree) : List String :=
  let below := t.nodes.filterMap fun (place, node) =>
    if t.here.isPrefixOf place then
      let path := "/".intercalate (place.drop t.here.length)
      some (if node = .directory then path ++ "/" else path)
    else
      none
  below.mergeSort fun a b => decide (a ≤ b)

end FileTree

end CampusQuery
