import FieldPlot.Proofs.Peaks
import FieldPlot.Proofs.Totals

/-!
Projections in two stages. Collapsing one axis of a plane leaves the row of the other axis, though the
axes vanish in another order. The operations are the same ones where the axis collapsed last is the
last in both orders; for other axes exact sums, averages and largest values do not depend on it.
-/
namespace FieldPlot

def Plane.collapse {α : Type} [Inhabited α] (rule : LaneRule α) (axis : Axis) (plane : Plane α) :
    Tensor α :=
  plane.grid.tensor.collapse rule (if axis = plane.rowAxis then 0 else 1)

namespace Declared

variable {α : Type}

theorem others_of_lowest {rank a b : Nat} (declared : b < rank) (apart : a ≠ b)
    (lowest : ∀ i < b, i = a) : others rank [a] = others rank [b, a] ++ [b] := by
  have above : ∀ j ∈ others rank [b, a], j > b := by
    intro j member
    simp only [mem_others, List.mem_cons, List.not_mem_nil, or_false, not_or] at member
    have := lowest j
    omega
  apply eq_of_descending (others_descending rank [a])
  · exact List.pairwise_append.mpr ⟨others_descending rank [b, a], by simp, by simpa using above⟩
  · intro j
    simp only [List.mem_append, List.mem_cons, mem_others, List.not_mem_nil, or_false, not_or]
    omega

theorem others_perm {rank a b : Nat} (declared : b < rank) (apart : a ≠ b) :
    (others rank [a]).Perm (b :: others rank [b, a]) := by
  have distinct : (b :: others rank [b, a]).Nodup :=
    List.nodup_cons.mpr ⟨by simp [mem_others], others_nodup _ _⟩
  apply (List.perm_ext_iff_of_nodup (others_nodup _ _) distinct).mpr
  intro j
  simp only [List.mem_cons, mem_others, List.not_mem_nil, or_false, not_or]
  omega

theorem project_of_lowest [Inhabited α] (rule : LaneRule α) (extents : List Nat) (frame : List α)
    {a b : Nat} (declared : b < extents.length) (apart : a ≠ b) (lowest : ∀ i < b, i = a) :
    project rule extents [a] frame =
      (project rule extents [b, a] frame).collapse rule extents b := by
  rw [project, others_of_lowest declared apart lowest, collapseAll_append]
  rfl

theorem prod_others_pair {extents : List Nat} {a b : Nat} (declared : b < extents.length)
    (apart : a ≠ b) :
    ((others extents.length [b, a]).map (extents.getD · 0)).prod * extents.getD b 0 =
      ((others extents.length [a]).map (extents.getD · 0)).prod := by
  rw [((others_perm declared apart).map _).prod_eq, List.map_cons, List.prod_cons, Nat.mul_comm]

/-- What a rule merges, it makes of a region in one stage and in two. -/
theorem merges_in_stages [Inhabited α] {rule : LaneRule α} {shows : Nat → Finset Nat → α → Prop}
    (merges : Merges rule shows) {extents : List Nat} (frame : List α)
    (single : ∀ i < extents.prod, shows 1 {i} (frame.getD i default)) {a b : Nat}
    (kept : a < extents.length) (declared : b < extents.length) (apart : a ≠ b)
    (contiguous : Bool) (c : Nat → Nat) (inside : Inside extents [a] c) :
    ∃ n places, n = ((others extents.length [a]).map (extents.getD · 0)).prod ∧
      shows n places (rule contiguous ((List.range (extents.getD b 0)).map fun x =>
        project rule extents [b, a] frame (Function.update c b x))) ∧
      shows n places (project rule extents [a] frame c) := by
  have pair : ∀ j ∈ [b, a], j < extents.length := all_pair declared kept
  have new : b ∉ [a] := by simpa using apart.symm
  have start := project_merges merges [b, a] frame (by simpa using apart.symm) pair single
  refine ⟨_, region extents [a] c, rfl, ?_, ?_⟩
  · rw [← prod_others_pair declared apart]
    exact lane_merges merges contiguous _ b [a] _ new declared start c inside
  · exact project_merges merges [a] frame (List.nodup_singleton a) (by simpa using kept) single
      c inside

end Declared

namespace Projection

variable {α : Type} [Inhabited α]

/-- Collapsing axis `b` of the plane of a step leaves the row of that step on axis `a`, with every
    value the same in this sense. -/
def StagesAgree (same : α → α → Prop) (rule : LaneRule α) (h : Header) (frames : List (List α))
    (step : Nat) (a b : Axis) : Prop :=
  ∃ plane grid line row,
    onPlane rule h frames step a b = .ok plane ∧ onPlane rule h frames step b a = .ok plane ∧
    onAxis rule h frames a = .ok grid ∧
    (plane.collapse rule b).line? = some line ∧ grid.rows[step]? = some row ∧
    List.Forall₂ same line row

variable (rule : LaneRule α) (h : Header)

theorem plane_collapse_line {frames : List (List α)} {step : Nat} {a b : Axis} {frame : List α}
    (suits : Suits h frames step b a frame) :
    ∃ plane, onPlane rule h frames step a b = .ok plane ∧
      onPlane rule h frames step b a = .ok plane ∧
      (plane.collapse rule b).line? = some ((List.range (h.extents.getD a.index 0)).map fun p =>
        rule (decide (b.index < a.index)) ((List.range (h.extents.getD b.index 0)).map fun x =>
          Declared.project rule h.extents [b.index, a.index] frame
            (Function.update (fun _ => p) b.index x))) := by
  obtain ⟨plane, done, swapped, row, _, meshed, cells⟩ := onPlane_cells rule h suits
  refine ⟨plane, swapped, done, ?_⟩
  have apart := suits.less
  have at_b : ∀ p x : Nat, Function.update (fun _ => p) b.index x b.index = x := fun p x =>
    Function.update_self _ _ _
  have at_a : ∀ p x : Nat, Function.update (fun _ => p) b.index x a.index = p := fun p x =>
    Function.update_of_ne (by omega) _ _
  rcases Nat.lt_or_gt_of_ne (by omega : b.index ≠ a.index) with less | more
  · have across : b ≠ plane.rowAxis := by
      rintro rfl
      omega
    rw [max_eq_right less.le, min_eq_left less.le] at meshed cells
    rw [Plane.collapse, if_neg across, decide_eq_true less]
    apply Grid.collapse_columns rule _ meshed
    intro p x low left
    have cell := cells (Function.update (fun _ => p) b.index x) ?_
    · rwa [at_a, at_b] at cell
    · exact all_pair ((at_b p x).symm ▸ left) ((at_a p x).symm ▸ low)
  · have along : b = plane.rowAxis := by
      have same : b.index = plane.rowAxis.index := by omega
      exact congrArg Axis.mk same
    rw [max_eq_left more.le, min_eq_right more.le] at meshed cells
    rw [Plane.collapse, if_pos along, decide_eq_false (Nat.lt_asymm more)]
    apply Grid.collapse_rows rule (fun x p => _) meshed
    intro x p low left
    have cell := cells (Function.update (fun _ => p) b.index x) ?_
    · rwa [at_a, at_b] at cell
    · exact all_pair ((at_b p x).symm ▸ low) ((at_a p x).symm ▸ left)

variable {rule h} {frames : List (List α)} {step : Nat} {a b : Axis} {frame : List α}

theorem stagesAgree_of_cells {same : α → α → Prop} (suits : Suits h frames step b a frame)
    (room : Word.Addressable [frames.length, h.extents.getD a.index 0])
    (fits : ∀ frame ∈ frames, frame.length = h.extents.prod)
    (each : ∀ p < h.extents.getD a.index 0,
      same (rule (decide (b.index < a.index)) ((List.range (h.extents.getD b.index 0)).map fun x =>
          Declared.project rule h.extents [b.index, a.index] frame
            (Function.update (fun _ => p) b.index x)))
        (Declared.project rule h.extents [a.index] frame fun _ => p)) :
    StagesAgree same rule h frames step a b := by
  obtain ⟨plane, done, swapped, line⟩ := plane_collapse_line rule h suits
  obtain ⟨grid, direct, _, rows⟩ := onAxis_of_fit rule h frames suits.addressable suits.second
    room fits
  have row : grid.rows[step]? = some ((List.range (h.extents.getD a.index 0)).map fun p =>
      Declared.project rule h.extents [a.index] frame fun _ => p) := by
    rw [rows, List.getElem?_map, suits.found]
    rfl
  refine ⟨plane, grid, _, _, done, swapped, direct, line, row, ?_⟩
  rw [List.forall₂_map_left_iff, List.forall₂_map_right_iff, List.forall₂_same]
  intro p member
  exact each p (List.mem_range.mp member)

/-- The operations are the same ones when `b` is the lowest axis besides `a`. -/
theorem stagesAgree_of_lowest (suits : Suits h frames step b a frame)
    (room : Word.Addressable [frames.length, h.extents.getD a.index 0])
    (fits : ∀ frame ∈ frames, frame.length = h.extents.prod)
    (lowest : ∀ i < b.index, i = a.index) : StagesAgree (· = ·) rule h frames step a b := by
  have apart := suits.less
  have other : a.index ≠ b.index := by omega
  apply stagesAgree_of_cells suits room fits
  intro p _
  have contiguous : decide (b.index < a.index) = (b.index == 0) := by
    have first := lowest 0
    rw [beq_eq_decide]
    exact decide_eq_decide.mpr (by omega)
  rw [Declared.project_of_lowest rule h.extents frame suits.first other lowest, contiguous]
  rfl

theorem stagesAgree_of_merges {shows : Nat → Finset Nat → α → Prop} {same : α → α → Prop}
    (merges : Declared.Merges rule shows) (suits : Suits h frames step b a frame)
    (room : Word.Addressable [frames.length, h.extents.getD a.index 0])
    (fits : ∀ frame ∈ frames, frame.length = h.extents.prod)
    (single : ∀ i < h.extents.prod, shows 1 {i} (frame.getD i default))
    (unique : ∀ n places y z,
      n = ((Declared.others h.extents.length [a.index]).map (h.extents.getD · 0)).prod →
      shows n places y → shows n places z → same y z) :
    StagesAgree same rule h frames step a b := by
  have apart := suits.less
  have other : a.index ≠ b.index := by omega
  apply stagesAgree_of_cells suits room fits
  intro p bound
  have inside : Inside h.extents [a.index] fun _ => p := List.forall_mem_singleton.mpr bound
  obtain ⟨n, places, count, staged, direct⟩ := Declared.merges_in_stages merges frame single
    suits.second suits.first other (decide (b.index < a.index)) _ inside
  exact unique n places _ _ count staged direct

omit [Inhabited α] in
theorem suits_of_fit {b a : Axis} (first : b.index < h.rank) (second : a.index < h.rank)
    (apart : a ≠ b) (addressable : Word.Addressable h.arrayShape) (inRange : step < frames.length)
    (fits : ∀ frame ∈ frames, frame.length = h.extents.prod) :
    Suits h frames step b a frames[step] :=
  ⟨first, second, apart.symm, List.getElem?_eq_getElem inRange, fits _ (List.getElem_mem inRange),
    addressable⟩

theorem others_prod_ne_zero (nonzero : ∀ e ∈ h.extents, e ≠ 0) (kept : List Nat) :
    ((Declared.others h.extents.length kept).map (h.extents.getD · 0)).prod ≠ 0 := by
  apply List.prod_ne_zero
  intro zero
  obtain ⟨j, member, same⟩ := List.mem_map.mp zero
  have declared := (Declared.mem_others.mp member).1
  rw [List.getD_eq_getElem _ _ declared] at same
  exact nonzero _ (List.getElem_mem declared) same

/-- When axis `b` of the plane on two axes collapses, the row on the other axis `a` is left. Where
    `b` is the lowest axis besides `a` the operations are the same. For any other axis the sums and
    the averages are the same in exact arithmetic, and the largest values are the same numbers. No
    frame in memory is `long`; the rows of all frames need room. -/
theorem plane_collapses_to_row (h : Header) (nonzero : ∀ e ∈ h.extents, e ≠ 0)
    (long : h.extents.prod ≤ Word.arrayLimit) (a b : Axis) (kept : a.index < h.rank)
    (declared : b.index < h.rank) (apart : a ≠ b) (step : Nat) :
    (∀ (m : Aggregation) (frames : List (List Float)), step < frames.length →
      Word.Addressable [frames.length, h.extents.getD a.index 0] →
      (∀ frame ∈ frames, frame.length = h.extents.prod) → (∀ i < b.index, i = a.index) →
      StagesAgree (· = ·) m.rule h frames step a b) ∧
    (∀ frames : List (List ℚ), step < frames.length →
      Word.Addressable [frames.length, h.extents.getD a.index 0] →
      (∀ frame ∈ frames, frame.length = h.extents.prod) →
      StagesAgree (· = ·) LaneRule.sum h frames step a b ∧
        StagesAgree (· = ·) LaneRule.mean h frames step a b) ∧
    (∀ frames : List (List Float), step < frames.length →
      Word.Addressable [frames.length, h.extents.getD a.index 0] →
      (∀ frame ∈ frames, frame.length = h.extents.prod) →
      StagesAgree (SameNumber Float.isNaN) Aggregation.maximum.rule h frames step a b) := by
  have addressable := h.addressable_of_nonzero nonzero long
  refine ⟨?_, ?_, ?_⟩
  · intro m frames inRange room fits lowest
    exact stagesAgree_of_lowest (suits_of_fit declared kept apart addressable inRange fits) room
      fits lowest
  · intro frames inRange room fits
    have suits := suits_of_fit declared kept apart addressable inRange fits
    constructor
    · apply stagesAgree_of_merges (Declared.sum_merges _) suits room fits
        (fun i _ => Declared.isTotal_single _ i)
      intro n places y z _ total total'
      exact total.trans total'.symm
    · apply stagesAgree_of_merges (Declared.mean_merges _) suits room fits
        (fun i _ => Declared.isMean_single _ i)
      intro n places y z count mean mean'
      have positive : n ≠ 0 := count ▸ others_prod_ne_zero nonzero [a.index]
      exact (mean positive).trans (mean' positive).symm
  · intro frames inRange room fits
    have suits := suits_of_fit declared kept apart addressable inRange fits
    apply stagesAgree_of_merges (Declared.maximum_merges Binary64.numberOrder _) suits room fits
      (fun i _ => Declared.isPeak_single Binary64.numberOrder _ i)
    intro n places y z _ peak peak'
    exact Binary64.numberOrder.tops_unique peak peak'

theorem plane_collapses_to_row_of_box :
    StagesAgree (· = ·) Aggregation.average.rule box [boxFrame] 0 ⟨2⟩ ⟨0⟩ ∧
    StagesAgree (· = ·) LaneRule.sum box [boxShares] 0 ⟨0⟩ ⟨2⟩ ∧
    StagesAgree (· = ·) LaneRule.mean box [boxShares] 0 ⟨0⟩ ⟨2⟩ ∧
    StagesAgree (SameNumber Float.isNaN) Aggregation.maximum.rule box [boxFrame] 0 ⟨0⟩ ⟨2⟩ := by
  obtain ⟨lowest, _, _⟩ := plane_collapses_to_row box (by decide) (by decide) ⟨2⟩ ⟨0⟩ (by decide)
    (by decide) (by decide) 0
  obtain ⟨_, exactly, largest⟩ := plane_collapses_to_row box (by decide) (by decide) ⟨0⟩ ⟨2⟩
    (by decide) (by decide) (by decide) 0
  have shares := exactly [boxShares] (by decide) (by decide) (by decide)
  exact ⟨lowest .average [boxFrame] (by decide) (by decide) (by decide) (by decide), shares.1,
    shares.2, largest [boxFrame] (by decide) (by decide) (by decide)⟩

end Projection
end FieldPlot
