import CampusQuery.Registry.Dataset

/-!
# The registry

The registry holds the datasets that queries can be asked of, by id. `Registry.add` and
`Registry.remove` change it by one dataset, and fail without changing it.
-/

namespace CampusQuery

/-- The registered datasets, in the order of their ids (`DatasetStore`). -/
structure Registry where
  datasets : List Dataset
  deriving Repr

namespace Registry

/-- The registry without datasets. -/
def empty : Registry := ⟨[]⟩

instance : Inhabited Registry := ⟨empty⟩

/-- The dataset of an id (`DatasetStore.get`). -/
def get? (r : Registry) (id : String) : Option Dataset :=
  r.datasets.find? fun d => d.id == id

/-- Whether there is a dataset of an id (`DatasetStore.contains`). -/
def contains (r : Registry) (id : String) : Bool :=
  (r.get? id).isSome

/-- The kind of the dataset of an id (`DatasetStore.kind_of`). -/
def kindOf (r : Registry) (id : String) : Option Kind :=
  (r.get? id).map Dataset.kind

/-- How many datasets there are (`DatasetStore.len`). -/
def size (r : Registry) : Nat :=
  r.datasets.length

/-- The ids of the datasets, in order. -/
def ids (r : Registry) : List String :=
  r.datasets.map Dataset.id

/-- What a list shows of the datasets, in the order of their ids (`DatasetStore.list`). -/
def list (r : Registry) : List DatasetInfo :=
  r.datasets.map Dataset.info

/-- Datasets with one more, before the first with a greater id. -/
def insert (d : Dataset) : List Dataset → List Dataset
  | [] => [d]
  | e :: rest => if d.id < e.id then d :: e :: rest else e :: insert d rest

/-- Registers a dataset under an id that is valid and free (`DatasetStore.add`). -/
def add (r : Registry) (d : Dataset) : Except RegistryError Registry := do
  Dataset.checkId d.id
  if d.rows.isEmpty then throw (.noRows d.id)
  if r.contains d.id then throw (.alreadyExists d.id)
  return ⟨insert d r.datasets⟩

/-- Removes the dataset of an id (`DatasetStore.remove`). -/
def remove (r : Registry) (id : String) : Except RegistryError (Dataset × Registry) := do
  Dataset.checkId id
  match r.get? id with
  | none => throw (.notFound id)
  | some d => return (d, ⟨r.datasets.filter fun e => e.id != id⟩)

end Registry

end CampusQuery
