import FieldPlot.Grid
import FieldPlot.Tensor
import Mathlib.Data.List.GetD

/-!
Cells of a grid, its meshes, and the grid as an array.
-/
namespace FieldPlot
namespace Grid

variable {α : Type}

def cell? (g : Grid α) (r c : Nat) : Option α :=
  g.rows[r]?.bind (·[c]?)

theorem height_ofFn (height columns : Nat) (value : Nat → Nat → α) :
    (ofFn height columns value).height = height := by
  simp [Grid.height, ofFn]

theorem cell?_ofFn {height columns r c : Nat} (value : Nat → Nat → α) (low : r < height)
    (left : c < columns) : (ofFn height columns value).cell? r c = some (value r c) := by
  simp [cell?, ofFn, low, left]

theorem ofFn_congr {height columns : Nat} {value other : Nat → Nat → α}
    (same : ∀ r < height, ∀ c < columns, value r c = other r c) :
    ofFn height columns value = ofFn height columns other := by
  simp only [ofFn, mk.injEq, true_and]
  refine List.map_congr_left fun r low => List.map_congr_left fun c left => ?_
  exact same r (List.mem_range.mp low) c (List.mem_range.mp left)

theorem mirrored_ofFn (height columns : Nat) (value : Nat → Nat → α) :
    (ofFn height columns value).mirrored =
      ofFn height columns fun r c => value r (columns - 1 - c) := by
  have backwards : (List.range columns).reverse =
      (List.range columns).map fun c => columns - 1 - c :=
    List.ext_getElem (by simp) (by simp)
  simp [mirrored, ofFn, ← List.map_reverse, backwards]

theorem transposed_ofFn [Inhabited α] (height columns : Nat) (value : Nat → Nat → α) :
    (ofFn height columns value).transposed = ofFn columns height fun r c => value c r := by
  rw [transposed, height_ofFn]
  refine ofFn_congr fun r left c low => ?_
  have bound : r < columns := left
  simp [ofFn, low, bound]

theorem parts_of_ofRows? {columns : Nat} {rows : List (List α)} {g : Grid α}
    (made : ofRows? columns rows = some g) : g.columns = columns ∧ g.rows = rows := by
  unfold ofRows? at made
  split at made
  · obtain rfl := Option.some.inj made
    exact ⟨rfl, rfl⟩
  · contradiction

theorem length_flatten_of_length {rows : List (List α)} {columns : Nat}
    (aligned : ∀ row ∈ rows, row.length = columns) :
    rows.flatten.length = rows.length * columns := by
  have all : ∀ n ∈ rows.map List.length, n = columns := by
    rwa [List.forall_mem_map]
  rw [List.length_flatten, List.eq_replicate_of_mem all, List.sum_replicate_nat, List.length_map]

theorem length_values (g : Grid α) : g.values.length = g.height * g.columns :=
  length_flatten_of_length g.aligned

structure Meshed (g : Grid α) (height columns : Nat) : Prop where
  height_eq : g.height = height
  columns_eq : g.columns = columns
  row_eq : ∀ r c, r < height → c < columns → g.rowMesh.cell? r c = some r
  column_eq : ∀ r c, r < height → c < columns → g.columnMesh.cell? r c = some c

theorem meshed (g : Grid α) : g.Meshed g.height g.columns where
  height_eq := rfl
  columns_eq := rfl
  row_eq := fun _ _ low left => cell?_ofFn (fun r _ => r) low left
  column_eq := fun _ _ low left => cell?_ofFn (fun _ c => c) low left

theorem meshed_ofFn (height columns : Nat) (value : Nat → Nat → α) :
    (ofFn height columns value).Meshed height columns := by
  have own := meshed (ofFn height columns value)
  rwa [height_ofFn] at own

theorem row_of_cells {g : Grid α} {r : Nat} (value : Nat → α) (low : r < g.height)
    (cells : ∀ c < g.columns, g.cell? r c = some (value c)) :
    g.rows[r]? = some ((List.range g.columns).map value) := by
  have bound : r < g.rows.length := low
  have long : g.rows[r].length = g.columns := g.aligned _ (List.getElem_mem bound)
  rw [List.getElem?_eq_getElem bound]
  apply congrArg some
  apply List.ext_getElem (by simpa using long)
  intro c left _
  have cell := cells c (long ▸ left)
  simp only [cell?, List.getElem?_eq_getElem bound, Option.bind_some,
    List.getElem?_eq_getElem left, Option.some.injEq] at cell
  simpa using cell

theorem rows_of_cells {g : Grid α} {height columns : Nat} (value : Nat → Nat → α)
    (meshed : g.Meshed height columns)
    (cells : ∀ r c, r < height → c < columns → g.cell? r c = some (value r c)) :
    g.rows = (List.range height).map fun r => (List.range columns).map (value r) := by
  obtain ⟨rfl, rfl, _, _⟩ := meshed
  apply List.ext_getElem (by simp [Grid.height])
  intro r bound _
  have row := row_of_cells (value r) bound fun c left => cells r c bound left
  rw [List.getElem?_eq_getElem bound] at row
  simpa using Option.some.inj row

def tensor [Inhabited α] (g : Grid α) : Tensor α :=
  Tensor.ofValues [g.height, g.columns] g.values

theorem getElem?_flatten {columns : Nat} (rows : List (List α))
    (aligned : ∀ row ∈ rows, row.length = columns) (r c : Nat) (left : c < columns) :
    rows.flatten[r * columns + c]? = rows[r]?.bind (·[c]?) := by
  induction rows generalizing r with
  | nil => simp
  | cons row rows ih =>
    have first : row.length = columns := aligned row List.mem_cons_self
    rw [List.flatten_cons]
    cases r with
    | zero =>
      rw [Nat.zero_mul, Nat.zero_add, List.getElem?_append_left (by omega)]
      rfl
    | succ r =>
      have behind : (r + 1) * columns + c - row.length = r * columns + c := by
        rw [Nat.succ_mul, first]
        omega
      rw [List.getElem?_append_right (by rw [Nat.succ_mul]; omega), behind]
      exact ih (fun other member => aligned other (List.mem_cons_of_mem _ member)) r

theorem tensor_cell [Inhabited α] (g : Grid α) {r c : Nat} {y : α} (left : c < g.columns)
    (found : g.cell? r c = some y) : g.tensor.cell [r, c] = y := by
  have place : offset [g.height, g.columns] [r, c] = r * g.columns + c := by
    simp [offset, volume]
  have value : g.values[r * g.columns + c]? = some y :=
    (getElem?_flatten g.rows g.aligned r c left).trans found
  simp [tensor, Tensor.ofValues, place, value]

section Lines

variable [Inhabited α] {g : Grid α} {height columns : Nat} (rule : LaneRule α)
  (value : Nat → Nat → α) (meshed : g.Meshed height columns)
  (cells : ∀ r c, r < height → c < columns → g.cell? r c = some (value r c))
include meshed cells

theorem collapse_rows : (g.tensor.collapse rule 0).line? =
    some ((List.range columns).map fun c =>
      rule false ((List.range height).map fun r => value r c)) := by
  obtain ⟨rfl, rfl, _, _⟩ := meshed
  apply congrArg some
  apply List.map_congr_left
  intro c left
  apply congrArg (rule false)
  apply List.map_congr_left
  intro r low
  have column := List.mem_range.mp left
  exact g.tensor_cell column (cells r c (List.mem_range.mp low) column)

theorem collapse_columns : (g.tensor.collapse rule 1).line? =
    some ((List.range height).map fun r =>
      rule true ((List.range columns).map (value r))) := by
  obtain ⟨rfl, rfl, _, _⟩ := meshed
  apply congrArg some
  apply List.map_congr_left
  intro r low
  apply congrArg (rule true)
  apply List.map_congr_left
  intro c left
  have column := List.mem_range.mp left
  exact g.tensor_cell column (cells r c (List.mem_range.mp low) column)

end Lines

end Grid
end FieldPlot
