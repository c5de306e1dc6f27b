/-!
Rectangles of values, row by row. The number of columns is kept even where there are no rows.
-/
namespace FieldPlot

structure Grid (α : Type) where
  columns : Nat
  rows : List (List α)
  aligned : ∀ row ∈ rows, row.length = columns
deriving DecidableEq

namespace Grid

variable {α β : Type}

def height (g : Grid α) : Nat :=
  g.rows.length

def ofRows? (columns : Nat) (rows : List (List α)) : Option (Grid α) :=
  if aligned : ∀ row ∈ rows, row.length = columns then some ⟨columns, rows, aligned⟩ else none

def ofFn (height columns : Nat) (value : Nat → Nat → α) : Grid α where
  columns := columns
  rows := (List.range height).map fun r => (List.range columns).map (value r)
  aligned := by
    intro row member
    obtain ⟨r, _, same⟩ := List.mem_map.mp member
    simp [← same]

def values (g : Grid α) : List α :=
  g.rows.flatten

def map (f : α → β) (g : Grid α) : Grid β where
  columns := g.columns
  rows := g.rows.map (List.map f)
  aligned := by
    intro row member
    obtain ⟨source, found, same⟩ := List.mem_map.mp member
    simp [← same, g.aligned source found]

def mirrored (g : Grid α) : Grid α where
  columns := g.columns
  rows := g.rows.map List.reverse
  aligned := by
    intro row member
    obtain ⟨source, found, same⟩ := List.mem_map.mp member
    simp [← same, g.aligned source found]

def transposed [Inhabited α] (g : Grid α) : Grid α :=
  let stored := (g.rows.map List.toArray).toArray
  ofFn g.columns g.height fun r c => (stored.getD c #[]).getD r default

def rowMesh (g : Grid α) : Grid Nat :=
  ofFn g.height g.columns fun r _ => r

def columnMesh (g : Grid α) : Grid Nat :=
  ofFn g.height g.columns fun _ c => c

end Grid
end FieldPlot
