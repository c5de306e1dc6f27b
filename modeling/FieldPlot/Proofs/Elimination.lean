import FieldPlot.Tensor.Elimination
import FieldPlot.Proofs.Declared

/-!
The elimination loop seen by the declared axes. `Shows` is the invariant: it tells which declared
axis is at each position of the array, that the tracked positions are those of the kept axes, and
what the values are. One turn of the loop passes a kept axis or collapses another; a whole run leaves
the kept axes, with all others collapsed from the last declared to the first.
-/
namespace FieldPlot
namespace Elimination

variable {α : Type}

/-- The array has these declared axes, in this order; the values are those of `v`. -/
structure Shows (extents axes kept : List Nat) (v : Declared α) (e : Elimination α) : Prop where
  distinct : axes.Nodup
  left : kept ⊆ axes
  shape : e.tensor.shape = axes.map (extents.getD · 0)
  tracked : e.kept = kept.map axes.idxOf
  cell : ∀ c : Nat → Nat, e.tensor.cell (axes.map c) = v c

variable {extents kept visited rest : List Nat} {axis : Nat} {v : Declared α} {e : Elimination α}

theorem Shows.rank {axes : List Nat} (shows : e.Shows extents axes kept v) :
    e.tensor.rank = axes.length := by
  rw [Tensor.rank, shows.shape, List.length_map]

theorem idxOf_visited (distinct : (visited ++ axis :: rest).Nodup) :
    (visited ++ axis :: rest).idxOf axis = visited.length := by
  have new : axis ∉ visited := fun member =>
    (List.nodup_append.mp distinct).2.2 axis member axis List.mem_cons_self rfl
  rw [List.idxOf_append_of_notMem new, List.idxOf_cons_self, Nat.add_zero]

theorem next_mem_kept (shows : e.Shows extents (visited ++ axis :: rest) kept v)
    (next : e.next = visited.length) : e.next ∈ e.kept ↔ axis ∈ kept := by
  rw [shows.tracked, next, List.mem_map, ← idxOf_visited shows.distinct]
  constructor
  · rintro ⟨k, member, same⟩
    rwa [← (List.idxOf_inj (shows.left member)).mp same]
  · intro member
    exact ⟨axis, member, rfl⟩

/-- A kept axis stays tracked when the axis before or behind it vanishes. -/
theorem shift_idxOf {k : Nat} (other : k ≠ axis) :
    shift visited.length ((visited ++ axis :: rest).idxOf k) = (visited ++ rest).idxOf k := by
  by_cases member : k ∈ visited
  · have bound := List.idxOf_lt_length_of_mem member
    rw [List.idxOf_append_of_mem member, List.idxOf_append_of_mem member, shift,
      if_neg (by omega)]
  · rw [List.idxOf_append_of_notMem member, List.idxOf_append_of_notMem member,
      List.idxOf_cons_ne _ other.symm, shift, if_pos (by omega)]
    omega

theorem insertIdx_length {β : Type} (before behind : List β) (x : β) :
    (before ++ behind).insertIdx before.length x = before ++ x :: behind := by
  induction before with
  | nil => rfl
  | cons y before ih => simp [ih]

theorem map_update_of_notMem (c : Nat → Nat) (x : Nat) {axes : List Nat} (new : axis ∉ axes) :
    axes.map (Function.update c axis x) = axes.map c := by
  apply List.map_congr_left
  intro j member
  have other : j ≠ axis := fun same => new (same ▸ member)
  exact Function.update_of_ne other _ _

theorem insertIdx_visited (distinct : (visited ++ axis :: rest).Nodup) (c : Nat → Nat) (x : Nat) :
    ((visited ++ rest).map c).insertIdx visited.length x =
      (visited ++ axis :: rest).map (Function.update c axis x) := by
  obtain ⟨_, tail, apart⟩ := List.nodup_append.mp distinct
  have before : axis ∉ visited := fun member => apart axis member axis List.mem_cons_self rfl
  have behind : axis ∉ rest := (List.nodup_cons.mp tail).1
  rw [List.map_append, List.map_append, List.map_cons, Function.update_self,
    map_update_of_notMem c x before, map_update_of_notMem c x behind]
  simpa using insertIdx_length (visited.map c) (rest.map c) x

theorem step_passes (rule : LaneRule α)
    (shows : e.Shows extents (visited ++ axis :: rest) kept v) (next : e.next = visited.length)
    (member : axis ∈ kept) : e.step rule = { e with next := e.next + 1 } :=
  if_pos ((next_mem_kept shows next).mpr member)

/-- The axis visited is contiguous just when it is the first declared one, the last to be left. -/
theorem step_collapses (rule : LaneRule α)
    (shows : e.Shows extents (visited ++ axis :: rest) kept v) (next : e.next = visited.length)
    (gone : axis ∉ kept) (contiguous : rest.length = axis) :
    (e.step rule).next = e.next ∧
      (e.step rule).Shows extents (visited ++ rest) kept (v.collapse rule extents axis) := by
  have turn : e.step rule = ⟨e.tensor.collapse rule e.next, e.next, e.kept.map (shift e.next)⟩ :=
    if_neg (mt (next_mem_kept shows next).mp gone)
  have other : ∀ k ∈ kept, k ≠ axis := fun k member same => gone (same ▸ member)
  rw [turn]
  refine ⟨rfl, ?_, ?_, ?_, ?_, ?_⟩
  · exact shows.distinct.sublist (List.Sublist.append_left (List.sublist_cons_self _ _) _)
  · intro k member
    have place := shows.left member
    simp only [List.mem_append, List.mem_cons] at place ⊢
    exact place.imp_right fun behind => behind.resolve_left (other k member)
  · simp [Tensor.collapse, shows.shape, next, List.eraseIdx_append_of_length_le]
  · rw [shows.tracked, next, List.map_map]
    exact List.map_congr_left fun k member => shift_idxOf (other k member)
  · intro c
    have lane : e.tensor.lane e.next ((visited ++ rest).map c) =
        (List.range (extents.getD axis 0)).map fun x => v (Function.update c axis x) := by
      simp only [Tensor.lane, shows.shape, next, insertIdx_visited shows.distinct, shows.cell]
      simp
    have flag : (e.next + 1 == e.tensor.rank) = (axis == 0) := by
      rw [shows.rank, next, List.length_append, List.length_cons, contiguous]
      exact Bool.eq_iff_iff.mpr (by simp)
    simp only [Tensor.collapse, lane, flag, Declared.collapse]

theorem run_of_not_open (rule : LaneRule α) (closed : ¬ e.Open) : e.run rule = e := by
  rw [run, dif_neg closed]

theorem run_of_open (rule : LaneRule α) (more : e.Open) : e.run rule = (e.step rule).run rule := by
  rw [run, dif_pos more]

/-- The loop ends early only where all axes that are left are kept. -/
theorem subset_kept_of_not_open {axes : List Nat} (shows : e.Shows extents axes kept v)
    (distinct : kept.Nodup) (next : e.next < axes.length) (closed : ¬ e.Open) : axes ⊆ kept := by
  have few : axes.length ≤ kept.length := by
    simp only [Open, shows.rank, shows.tracked, List.length_map, not_and, not_lt] at closed
    by_contra more
    have := closed (by omega)
    omega
  have same := (distinct.subperm shows.left).perm_of_length_le few
  exact same.symm.subset

theorem run_shows (rule : LaneRule α) (distinct : kept.Nodup) (n : Nat)
    (shows : e.Shows extents (visited ++ lastFirst n) kept v) (next : e.next = visited.length)
    (passed : visited ⊆ kept) :
    (e.run rule).Shows extents (visited ++ (lastFirst n).filter (· ∈ kept)) kept
      (v.collapseAll rule extents (Declared.others n kept)) := by
  -- On the axes still to be visited. Those before them are all kept, so the loop is behind them.
  induction n generalizing visited v e with
  | zero =>
    have closed : ¬ e.Open := by
      rintro ⟨_, bound⟩
      rw [shows.rank, next] at bound
      simp [lastFirst] at bound
    rw [run_of_not_open rule closed]
    exact shows
  | succ n ih =>
    rw [lastFirst_succ] at shows ⊢
    by_cases more : e.Open
    · rw [run_of_open rule more]
      by_cases member : n ∈ kept
      · rw [step_passes rule shows next member, Declared.others_succ_of_mem member]
        have rest : Shows extents ((visited ++ [n]) ++ lastFirst n) kept v
            { e with next := e.next + 1 } := by
          rw [List.append_assoc]
          exact ⟨shows.distinct, shows.left, shows.shape, shows.tracked, shows.cell⟩
        have passed' : visited ++ [n] ⊆ kept := by simp [passed, member]
        simpa [member] using ih rest (by simp [next]) passed'
      · obtain ⟨same, rest⟩ := step_collapses rule shows next member (length_lastFirst n)
        rw [Declared.others_succ_of_notMem member, Declared.collapseAll_cons]
        simpa [member] using ih rest (same.trans next) passed
    · have bound : e.next < (visited ++ n :: lastFirst n).length := by simp [next]
      have all := subset_kept_of_not_open shows distinct bound more
      have stay : ∀ j ∈ n :: lastFirst n, j ∈ kept := fun j member =>
        all (List.mem_append_right _ member)
      have none : Declared.others (n + 1) kept = [] := by
        rw [Declared.others, lastFirst_succ, List.filter_eq_nil_iff]
        intro j member
        simpa using stay j member
      rw [run_of_not_open rule more, none, List.filter_eq_self.mpr (by simpa using stay)]
      exact shows

end Elimination

/-- The array of a frame, with the kept axes tracked from where they are in it. -/
theorem ofFrame_shows {α : Type} [Inhabited α] (extents kept : List Nat) (frame : List α)
    (declared : ∀ j ∈ kept, j < extents.length) :
    Elimination.Shows extents (lastFirst extents.length) kept (Declared.ofFrame extents frame)
      ⟨Tensor.ofValues extents.reverse frame, 0, kept.map (extents.length - 1 - ·)⟩ where
  distinct := lastFirst_nodup _
  left := fun j member => mem_lastFirst.mpr (declared j member)
  shape := (map_getD_lastFirst extents).symm
  tracked := List.map_congr_left fun j member => (idxOf_lastFirst (declared j member)).symm
  cell := by
    intro c
    simp [Tensor.ofValues, offset_reverse, Declared.ofFrame]

end FieldPlot
