import CampusQuery.Disk.Disk
import CampusQuery.Json.Form
import CampusQuery.Registry.Dataset

/-!
# The archive

An `Archive` keeps datasets in a directory, each in a file named after its id. A file is written
under another name first and then given its own, so that a file of that name is always complete. A
name in the directory need not be a text; one that is not gives no id.

* `Archive.save` and `Archive.delete` change the file of one dataset.
* `Archive.load` reads all datasets, in the order of the names of their files.
-/

namespace CampusQuery

namespace Dataset

/-- A dataset as its file holds it (`DatasetFile`). -/
def toJson (d : Dataset) : Json :=
  .object [("id", .string d.id), ("kind", .string d.kind.label),
    ("loaded_at", .string d.loadedAt.text), ("rows", .array (d.rows.toList.map Record.toJson))]

/-- What the file of a dataset holds. -/
def document (d : Dataset) : List UInt8 :=
  d.toJson.compact.toUTF8.toList

/-- What has been read of the file of a dataset. -/
structure Draft where
  id : Option String := none
  kind : Option Kind := none
  loadedAt : Option Instant := none
  rows : Option (List Json) := none

/-- The form of the file of a dataset, which is of no more than `bound` bytes. -/
def form (bound : Nat) : Form Draft where
  name := "DatasetFile"
  exact := false
  fields := [
    ⟨"id", false, fun d => d.id.isSome, fun _ d rest => do
      let (id, rest) ← Json.readText rest
      return ({ d with id := some id }, rest)⟩,
    ⟨"kind", false, fun d => d.kind.isSome, fun depth d rest => do
      let variants := Kind.all.map fun kind => (kind.label, kind)
      let (kind, rest) ← Json.readVariant variants depth rest
      return ({ d with kind := some kind }, rest)⟩,
    ⟨"loaded_at", true, fun d => d.loadedAt.isSome, fun _ d rest => do
      let (t, rest) ← Json.readTime rest
      return ({ d with loadedAt := some t }, rest)⟩,
    ⟨"rows", false, fun d => d.rows.isSome, fun depth d rest => do
      let (rows, rest) ← Json.readList bound depth rest
      return ({ d with rows := some rows }, rest)⟩]

/-- The dataset that the file at a path holds; the stem of its name must be the id. A file without
a time of registration is registered now. -/
def ofFile (path stem : String) (bytes : List UInt8) (now : Instant) :
    Except RegistryError Dataset := do
  match (form bytes.length).read {} bytes with
  | .error e => throw (.corrupt path (.unreadable e))
  | .ok draft =>
    let id := draft.id.getD ""
    if id != stem then throw (.corrupt path (.otherId id))
    ofRows id (draft.kind.getD .courses) (draft.rows.getD []) (draft.loadedAt.getD now)

end Dataset

/-- A directory of datasets (`DatasetPersistence`). -/
structure Archive where
  root : String
  deriving DecidableEq, Repr

namespace Archive

/-- The extension of the files of datasets. -/
def extension : String := "json"

/-- The extension of files that are being written. -/
def draftExtension : String := "json.tmp"

/-- The name of the file of a dataset. -/
def fileName (id : String) : String :=
  id ++ "." ++ extension

/-- Whether a name is one of the file of a dataset. -/
def isFileName (name : Name) : Bool :=
  name.hasExtension extension

/-- The id that the name of a file gives, which is empty if it is not a text. -/
def stem (name : Name) : String :=
  name.stem?.getD ""

/-- The path of the file of a dataset (`DatasetPersistence.path_for`). -/
def pathOf (a : Archive) (id : String) : String :=
  Path.join a.root (fileName id)

/-- The path under which the file of a dataset is first written. -/
def draftPathOf (a : Archive) (id : String) : String :=
  Path.withExtension (a.pathOf id) draftExtension

variable {m : Type → Type} [Monad m] [Disk m]

/-- Opens the archive in a directory, which is made if it is not there
(`DatasetPersistence.open`). -/
def open_ (root : String) : m (Except RegistryError Archive) := do
  match ← Disk.makeDirectories root with
  | .ok () => return .ok ⟨root⟩
  | .error fault => return .error (.disk root fault)

/-- Writes the file of a dataset (`DatasetPersistence.save`). -/
def save (a : Archive) (d : Dataset) : m (Except RegistryError Unit) := do
  let path := a.pathOf d.id
  let draft := a.draftPathOf d.id
  match ← Disk.write draft d.document with
  | .error fault => return .error (.disk draft fault)
  | .ok () =>
    match ← Disk.rename draft path with
    | .error fault => return .error (.disk path fault)
    | .ok () => return .ok ()

/-- Removes the file of a dataset, if it is there (`DatasetPersistence.delete`). -/
def delete (a : Archive) (id : String) : m (Except RegistryError Unit) := do
  let path := a.pathOf id
  match ← Disk.remove path with
  | .ok () | .error .noEntry => return .ok ()
  | .error fault => return .error (.disk path fault)

/-- Reads the dataset in the file of a given name (`DatasetPersistence.load_file`). -/
def loadFile (a : Archive) (now : Instant) (name : Name) :
    m (Except RegistryError Dataset) := do
  let path := name.within a.root
  match ← Disk.readIn a.root name with
  | .error fault => return .error (.disk path fault)
  | .ok bytes => return Dataset.ofFile path (stem name) bytes now

/-- Reads the datasets in files of given names, up to the first that cannot be read. -/
def loadFiles (a : Archive) (now : Instant) :
    List Name → m (Except RegistryError (List Dataset))
  | [] => return .ok []
  | name :: names => do
    match ← loadFile a now name with
    | .error e => return .error e
    | .ok d =>
      match ← loadFiles a now names with
      | .error e => return .error e
      | .ok ds => return .ok (d :: ds)

/-- The names of the files of datasets among some names, in the order of their bytes. -/
def datasetNames (names : List Name) : List Name :=
  (names.filter isFileName).mergeSort fun a b => decide (a.bytes ≤ b.bytes)

/-- Reads all datasets (`DatasetPersistence.load_all`). -/
def load (a : Archive) (now : Instant) : m (Except RegistryError (List Dataset)) := do
  match ← Disk.list a.root with
  | .error fault => return .error (.disk a.root fault)
  | .ok names => a.loadFiles now (datasetNames names)

end Archive

end CampusQuery
