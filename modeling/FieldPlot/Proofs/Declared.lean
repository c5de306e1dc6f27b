import FieldPlot.Proofs.Coordinates

/-!
Frames seen by their declared coordinates. No array is laid out here and no position moves: an axis
that has collapsed is one whose coordinate no longer counts. What a rule makes of disjoint parts of
a frame it makes, axis by axis, of a whole region (`collapseAll_merges`).
-/
namespace FieldPlot

/-- A value for every choice of coordinates on the declared axes. -/
abbrev Declared (α : Type) := (Nat → Nat) → α

namespace Declared

variable {α : Type}

def ofFrame [Inhabited α] (extents : List Nat) (frame : List α) : Declared α :=
  fun c => frame.getD (place extents c) default

/-- Collapses a declared axis, the lane taken from its first position to its last. The lanes of the
    first declared axis are the contiguous ones. -/
def collapse (rule : LaneRule α) (extents : List Nat) (v : Declared α) (axis : Nat) :
    Declared α :=
  fun c => rule (axis == 0)
    ((List.range (extents.getD axis 0)).map fun x => v (Function.update c axis x))

def collapseAll (rule : LaneRule α) (extents axes : List Nat) (v : Declared α) : Declared α :=
  axes.foldl (collapse rule extents) v

def others (rank : Nat) (kept : List Nat) : List Nat :=
  (lastFirst rank).filter (· ∉ kept)

def project [Inhabited α] (rule : LaneRule α) (extents kept : List Nat) (frame : List α) :
    Declared α :=
  (ofFrame extents frame).collapseAll rule extents (others extents.length kept)

theorem mem_others {rank : Nat} {kept : List Nat} {j : Nat} :
    j ∈ others rank kept ↔ j < rank ∧ j ∉ kept := by
  simp [others, mem_lastFirst]

theorem others_nodup (rank : Nat) (kept : List Nat) : (others rank kept).Nodup :=
  (lastFirst_nodup rank).filter _

theorem others_descending (rank : Nat) (kept : List Nat) :
    (others rank kept).Pairwise (· > ·) :=
  (lastFirst_descending rank).filter _

theorem others_succ_of_mem {rank : Nat} {kept : List Nat} (member : rank ∈ kept) :
    others (rank + 1) kept = others rank kept := by
  simp [others, lastFirst_succ, member]

theorem others_succ_of_notMem {rank : Nat} {kept : List Nat} (gone : rank ∉ kept) :
    others (rank + 1) kept = rank :: others rank kept := by
  simp [others, lastFirst_succ, gone]

theorem collapseAll_cons (rule : LaneRule α) (extents : List Nat) (axis : Nat) (axes : List Nat)
    (v : Declared α) :
    v.collapseAll rule extents (axis :: axes) =
      (v.collapse rule extents axis).collapseAll rule extents axes := rfl

theorem collapseAll_append (rule : LaneRule α) (extents first second : List Nat)
    (v : Declared α) :
    v.collapseAll rule extents (first ++ second) =
      (v.collapseAll rule extents first).collapseAll rule extents second :=
  List.foldl_append

/-- A property of values, of the places they are made of and of the number of positions that went
    into each, which a rule takes from disjoint parts to their union. -/
structure Merges (rule : LaneRule α) (shows : Nat → Finset Nat → α → Prop) : Prop where
  merge : ∀ (contiguous : Bool) (n e : Nat) (parts : Nat → Finset Nat) (y : Nat → α),
    (∀ x x', x ≠ x' → Disjoint (parts x) (parts x')) → (∀ x < e, shows n (parts x) (y x)) →
    shows (n * e) ((Finset.range e).biUnion parts) (rule contiguous ((List.range e).map y))

variable {rule : LaneRule α} {shows : Nat → Finset Nat → α → Prop} {extents : List Nat}

theorem lane_merges (merges : Merges rule shows) (contiguous : Bool) (n axis : Nat)
    (axes : List Nat) (v : Declared α) (new : axis ∉ axes) (declared : axis < extents.length)
    (start : ∀ c, Inside extents (axis :: axes) c → shows n (region extents (axis :: axes) c) (v c))
    (c : Nat → Nat) (inside : Inside extents axes c) :
    shows (n * extents.getD axis 0) (region extents axes c) (rule contiguous
      ((List.range (extents.getD axis 0)).map fun x => v (Function.update c axis x))) := by
  rw [region_eq_parts c new declared]
  apply merges.merge _ n _ _ _ (fun x x' apart => parts_disjoint c new apart)
  intro x bound
  apply start
  intro j member
  by_cases same : j = axis
  · subst same
    rwa [Function.update_self]
  · rw [Function.update_of_ne same]
    exact inside j ((List.mem_cons.mp member).resolve_left same)

theorem collapseAll_merges (merges : Merges rule shows) (n : Nat) (axes kept : List Nat)
    (v : Declared α) (distinct : (axes ++ kept).Nodup) (declared : ∀ j ∈ axes, j < extents.length)
    (start : ∀ c, Inside extents (axes ++ kept) c → shows n (region extents (axes ++ kept) c) (v c))
    (c : Nat → Nat) (inside : Inside extents kept c) :
    shows (n * (axes.map (extents.getD · 0)).prod) (region extents kept c)
      (v.collapseAll rule extents axes c) := by
  -- The axes collapse from the left, so the first one is taken off and the values change under it.
  induction axes generalizing n v with
  | nil => simpa [collapseAll] using start c inside
  | cons axis axes ih =>
    obtain ⟨new, rest⟩ := List.nodup_cons.mp distinct
    rw [List.map_cons, List.prod_cons, ← Nat.mul_assoc, collapseAll_cons]
    refine ih _ _ rest (fun j member => declared j (List.mem_cons_of_mem _ member)) ?_
    exact lane_merges merges (axis == 0) n axis (axes ++ kept) v new
      (declared axis List.mem_cons_self) start

/-- What a rule merges from single values holds of every cell of a projection. -/
theorem project_merges [Inhabited α] (merges : Merges rule shows) (kept : List Nat)
    (frame : List α) (distinct : kept.Nodup) (declared : ∀ j ∈ kept, j < extents.length)
    (single : ∀ i < extents.prod, shows 1 {i} (frame.getD i default))
    (c : Nat → Nat) (inside : Inside extents kept c) :
    shows ((others extents.length kept).map (extents.getD · 0)).prod (region extents kept c)
      (project rule extents kept frame c) := by
  have all : ∀ j, j ∈ others extents.length kept ++ kept ↔ j < extents.length := by
    intro j
    rw [List.mem_append, mem_others]
    by_cases member : j ∈ kept
    · simp [member, declared j member]
    · simp [member]
  have apart : (others extents.length kept ++ kept).Nodup :=
    List.Nodup.append (others_nodup _ _) distinct fun j left => (mem_others.mp left).2
  rw [← Nat.one_mul (List.prod _)]
  refine collapseAll_merges merges 1 _ kept _ apart (fun j left => (mem_others.mp left).1) ?_ c
    inside
  intro c inside
  rw [region_all extents c all inside]
  apply single
  apply place_lt
  intro j member
  exact inside j ((all j).mpr (List.mem_range.mp member))

end Declared
end FieldPlot
