/-!
Arrays of any rank. A tensor has a shape and a cell for every list of coordinates; as a flat list of
values its last axis varies fastest. `offset` and `coordinates` go between the two views. Collapsing
an axis applies a rule to every lane along it.
-/
namespace FieldPlot

def volume : List Nat → Nat
  | [] => 1
  | extent :: rest => extent * volume rest

def offset : List Nat → List Nat → Nat
  | _ :: extents, c :: cs => c * volume extents + offset extents cs
  | _, _ => 0

def coordinates : List Nat → Nat → List Nat
  | [], _ => []
  | _ :: extents, i => i / volume extents :: coordinates extents (i % volume extents)

/-- How the values of a lane become one value. The flag tells whether the lane is contiguous, that
    is, whether it runs along the last axis. -/
abbrev LaneRule (α : Type) := Bool → List α → α

structure Tensor (α : Type) where
  shape : List Nat
  cell : List Nat → α

namespace Tensor

variable {α : Type}

def rank (t : Tensor α) : Nat :=
  t.shape.length

def ofValues [Inhabited α] (shape : List Nat) (values : List α) : Tensor α :=
  let stored := values.toArray
  ⟨shape, fun c => stored.getD (offset shape c) default⟩

def values (t : Tensor α) : List α :=
  (List.range (volume t.shape)).map fun i => t.cell (coordinates t.shape i)

def lane (t : Tensor α) (axis : Nat) (others : List Nat) : List α :=
  (List.range (t.shape.getD axis 0)).map fun k => t.cell (others.insertIdx axis k)

def collapse (rule : LaneRule α) (axis : Nat) (t : Tensor α) : Tensor α :=
  ⟨t.shape.eraseIdx axis, fun others => rule (axis + 1 == t.rank) (t.lane axis others)⟩

def line? (t : Tensor α) : Option (List α) :=
  match t.shape with
  | [n] => some ((List.range n).map fun p => t.cell [p])
  | _ => none

end Tensor
end FieldPlot
