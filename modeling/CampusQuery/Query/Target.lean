import CampusQuery.Query.Error

/-!
# The dataset of a query

All keys of a query must name fields of one dataset. A `Target` holds what is known of it while the
keys are read in order: the id in the first of them, and its kind, which is that of the dataset of
this id if there is one, and else the kind that has the first field.

`Target.resolve` reads a key. What it learns it keeps, also where the key turns out wrong.
-/

namespace CampusQuery

/-- What is known of the dataset that a query is about (`DatasetBinding`). -/
structure Target where
  dataset : Option String := none
  kind : Option Kind := none
  deriving DecidableEq, Repr, Inhabited

/-- Reading a query from left to right, with what is known of its dataset. -/
abbrev Check (α : Type) := ExceptT Malformed (StateM Target) α

namespace Target

/-- Fixes the id of the dataset, or checks that it is the one fixed before. -/
def bind (known : String → Option Kind) (id : String) : Check Unit := do
  match (← get).dataset with
  | none => set (⟨some id, known id⟩ : Target)
  | some bound => if bound = id then pure () else throw (.otherDataset bound id)

/-- The field that a name stands for in the dataset. -/
def field (key name : String) : Check Field := do
  match (← get).kind with
  | some kind =>
    match kind.field? name with
    | some f => return f
    | none => throw (.foreignKey key kind)
  | none =>
    match Field.named? name with
    | some f =>
      modify fun target => ⟨target.dataset, some f.kind⟩
      return f
    | none => throw (.badKey key)

/-- The field that a key names; `known` gives the kinds of the datasets there are
(`DatasetBinding.resolve`). -/
def resolve (known : String → Option Kind) (key : String) : Check FieldKey := do
  match splitKey key with
  | none => throw (.badKey key)
  | some (id, name) =>
    bind known id
    return ⟨key, ← field key name⟩

end Target

end CampusQuery
