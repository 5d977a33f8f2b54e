import Std.Data.HashMap.Basic
import CampusQuery.Answer.Selection

/-!
# Groups of rows

Rows are grouped by one key after the other: `partition` splits every group into the rows that agree
on the next key. `partsBy` puts the parts in the order in which their values are first met, and
keeps the order of the rows within each.

Two rows agree on a key if their values are equal, where zero has no sign.
-/

namespace CampusQuery

/-- A value with the sign of zero forgotten. -/
def Value.unsignedZero : Value → Value
  | .number x => .number x.unsignedZero
  | .text s => .text s

/-- What rows that agree on a field have in common (`GroupValue.of`). -/
def classAt (rows : Array Record) (f : Field) (place : Nat) : Option Value :=
  (valueAt rows f place).map Value.unsignedZero

/-- The parts of a list met so far: where the part of each class is, and the parts, each from its
last item to its first. -/
structure Parts (α κ : Type) [BEq κ] [Hashable κ] where
  index : Std.HashMap κ Nat
  parts : Array (List α)

/-- The parts after one more item: in the part of its class, or in a new last one. -/
def Parts.push {α κ : Type} [BEq κ] [Hashable κ] (classOf : α → κ) (p : Parts α κ) (x : α) :
    Parts α κ :=
  match p.index[classOf x]? with
  | some i => ⟨p.index, p.parts.modify i (x :: ·)⟩
  | none => ⟨p.index.insert (classOf x) p.parts.size, p.parts.push [x]⟩

/-- The items of each class, in the order in which the classes are first met
(`TransformEngine.split`). -/
def partsBy {α κ : Type} [BEq κ] [Hashable κ] (classOf : α → κ) (xs : List α) : List (List α) :=
  (xs.foldl (Parts.push classOf) ⟨{}, #[]⟩).parts.toList.map List.reverse

/-- The groups of the rows at some places (`TransformEngine.partition`). -/
def partition (rows : Array Record) (keys : List FieldKey) (places : List Nat) : List (List Nat) :=
  keys.foldl (fun groups key => groups.flatMap (partsBy (classAt rows key.field)))
    (if places.isEmpty then [] else [places])

end CampusQuery
