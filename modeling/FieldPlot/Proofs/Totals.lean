import FieldPlot.Proofs.Projection
import Mathlib.Algebra.BigOperators.Fin
import Mathlib.Algebra.BigOperators.Field
import Mathlib.Algebra.Order.Ring.Rat
import Mathlib.Tactic.Ring

/-!
Sums and averages in exact arithmetic. A cell of a summed projection is the sum of the frame over
the places that have the coordinates of the cell, so nothing is lost or counted twice; a cell of an
averaged one is that sum divided by the number of these places. Nothing is said about rounding.
-/
namespace FieldPlot

def LaneRule.mean : LaneRule ℚ :=
  LaneRule.average fun n => (n : ℚ)

namespace LaneRule

theorem foldl_add (lane : List ℚ) (a : ℚ) : lane.foldl (· + ·) a = a + lane.sum := by
  induction lane generalizing a with
  | nil => simp
  | cons y lane ih => rw [List.foldl_cons, ih, List.sum_cons, add_assoc]

/-- Eight interleaved parts add up like one. -/
theorem partedSum_eq (p0 p1 p2 p3 p4 p5 p6 p7 : ℚ) (lane : List ℚ) :
    partedSum p0 p1 p2 p3 p4 p5 p6 p7 lane =
      p0 + p1 + p2 + p3 + p4 + p5 + p6 + p7 + lane.sum := by
  fun_induction partedSum p0 p1 p2 p3 p4 p5 p6 p7 lane with
  | case1 p0 p1 p2 p3 p4 p5 p6 p7 a b c d e f g h rest ih =>
    rw [ih]
    simp only [List.sum_cons]
    ring
  | case2 p0 p1 p2 p3 p4 p5 p6 p7 rest =>
    rw [foldl_add]
    ring

theorem sum_eq (contiguous : Bool) (lane : List ℚ) : sum contiguous lane = lane.sum := by
  cases contiguous with
  | true => simp [sum, partedSum_eq]
  | false => simp [sum, foldl_add]

theorem mean_eq (contiguous : Bool) (lane : List ℚ) :
    mean contiguous lane = lane.sum / lane.length := by
  rw [mean, average, sum_eq]

end LaneRule

theorem sum_range_map (e : Nat) (y : Nat → ℚ) :
    ((List.range e).map y).sum = ∑ x ∈ Finset.range e, y x := by
  induction e with
  | zero => simp
  | succ e ih =>
    rw [List.range_succ, List.map_append, List.sum_append, ih, Finset.sum_range_succ]
    simp

namespace Declared

variable (f : Nat → ℚ)

def IsTotal (_ : Nat) (places : Finset Nat) (y : ℚ) : Prop :=
  y = ∑ i ∈ places, f i

def IsMean (n : Nat) (places : Finset Nat) (y : ℚ) : Prop :=
  n ≠ 0 → y = (∑ i ∈ places, f i) / n

theorem sum_merges : Merges LaneRule.sum (IsTotal f) where
  merge := by
    intro contiguous n e parts y apart totals
    rw [IsTotal, LaneRule.sum_eq, sum_range_map, Finset.sum_biUnion fun x _ x' _ => apart x x']
    exact Finset.sum_congr rfl fun x member => totals x (Finset.mem_range.mp member)

theorem mean_merges : Merges LaneRule.mean (IsMean f) where
  merge := by
    intro contiguous n e parts y apart means nonzero
    have positive : n ≠ 0 := fun zero => nonzero (by rw [zero, Nat.zero_mul])
    have total : ∑ x ∈ Finset.range e, y x = (∑ x ∈ Finset.range e, ∑ i ∈ parts x, f i) / n := by
      rw [Finset.sum_div]
      exact Finset.sum_congr rfl fun x member => means x (Finset.mem_range.mp member) positive
    rw [LaneRule.mean_eq, sum_range_map, total, List.length_map, List.length_range, div_div,
      Finset.sum_biUnion fun x _ x' _ => apart x x', Nat.cast_mul]

theorem isTotal_single (frame : List ℚ) (i : Nat) :
    IsTotal (frame.getD · 0) 1 {i} (frame.getD i default) := by
  rw [IsTotal, Finset.sum_singleton]
  rfl

theorem isMean_single (frame : List ℚ) (i : Nat) :
    IsMean (frame.getD · 0) 1 {i} (frame.getD i default) := by
  intro _
  rw [Finset.sum_singleton, Nat.cast_one, div_one]
  rfl

end Declared

theorem sum_region (extents axes : List Nat) (frame : List ℚ)
    (fits : frame.length = extents.prod) (c : Nat → Nat) :
    ∑ i ∈ region extents axes c, frame.getD i 0 =
      ∑ i : Fin frame.length, if ∀ j ∈ axes, digit extents j i = c j then frame[i] else 0 := by
  rw [region, ← fits, Finset.sum_filter, Finset.sum_range]
  exact Finset.sum_congr rfl fun i _ => by simp

theorem sum_region_nil (extents : List Nat) (frame : List ℚ)
    (fits : frame.length = extents.prod) (c : Nat → Nat) :
    ∑ i ∈ region extents [] c, frame.getD i 0 = frame.sum := by
  rw [sum_region extents [] frame fits]
  simp

theorem sum_parts (extents axes : List Nat) (f : Nat → ℚ) (c : Nat → Nat) {axis : Nat}
    (new : axis ∉ axes) (declared : axis < extents.length) :
    ∑ x ∈ Finset.range (extents.getD axis 0), ∑ i ∈ part extents axes c axis x, f i =
      ∑ i ∈ region extents axes c, f i := by
  rw [region_eq_parts c new declared, Finset.sum_biUnion]
  exact fun x _ x' _ apart => parts_disjoint c new apart

theorem region_local (extents : List Nat) {axes : List Nat} {c d : Nat → Nat}
    (agree : ∀ j ∈ axes, c j = d j) : region extents axes c = region extents axes d := by
  ext i
  simp only [mem_region]
  exact and_congr_right fun _ => forall₂_congr fun j member => by rw [agree j member]

theorem prod_others (extents kept : List Nat) :
    ((Declared.others extents.length kept).map (extents.getD · 0)).prod =
      ∏ j ∈ Finset.range extents.length with j ∉ kept, extents.getD j 0 := by
  rw [← List.prod_toFinset _ (Declared.others_nodup _ _)]
  congr 1
  ext j
  simp [Declared.mem_others]

namespace Declared

variable (extents kept : List Nat) (frame : List ℚ)

theorem project_sum (distinct : kept.Nodup)
    (declared : ∀ j ∈ kept, j < extents.length) (c : Nat → Nat) (inside : Inside extents kept c) :
    project LaneRule.sum extents kept frame c = ∑ i ∈ region extents kept c, frame.getD i 0 :=
  project_merges (sum_merges _) kept frame distinct declared
    (fun i _ => isTotal_single frame i) c inside

theorem project_mean (distinct : kept.Nodup)
    (declared : ∀ j ∈ kept, j < extents.length)
    (nonzero : ∀ j < extents.length, j ∉ kept → extents.getD j 0 ≠ 0)
    (c : Nat → Nat) (inside : Inside extents kept c) :
    project LaneRule.mean extents kept frame c = (∑ i ∈ region extents kept c, frame.getD i 0) /
      (∏ j ∈ Finset.range extents.length with j ∉ kept, extents.getD j 0 : Nat) := by
  have mean := project_merges (mean_merges _) kept frame distinct declared
    (fun i _ => isMean_single frame i) c inside
  rw [IsMean, prod_others] at mean
  apply mean
  apply Finset.prod_ne_zero_iff.mpr
  intro j member
  obtain ⟨bound, gone⟩ := Finset.mem_filter.mp member
  exact nonzero j (Finset.mem_range.mp bound) gone

variable {extents kept frame} (hit other : Nat → Prop) [DecidablePred hit] [DecidablePred other]

theorem project_sum_where (fits : frame.length = extents.prod) (distinct : kept.Nodup)
    (declared : ∀ j ∈ kept, j < extents.length) {c : Nat → Nat} (inside : Inside extents kept c)
    (hits : ∀ i, (∀ j ∈ kept, digit extents j i = c j) ↔ hit i) :
    project LaneRule.sum extents kept frame c =
      ∑ i : Fin frame.length, if hit i then frame[i] else 0 := by
  rw [project_sum extents kept frame distinct declared c inside, sum_region _ _ _ fits]
  simp only [hits]

theorem project_mean_where (fits : frame.length = extents.prod) (distinct : kept.Nodup)
    (declared : ∀ j ∈ kept, j < extents.length) {c : Nat → Nat} (inside : Inside extents kept c)
    (hits : ∀ i, (∀ j ∈ kept, digit extents j i = c j) ↔ hit i)
    (others : ∀ j, j ∉ kept ↔ other j)
    (nonzero : ∀ j < extents.length, other j → extents.getD j 0 ≠ 0) :
    project LaneRule.mean extents kept frame c =
      (∑ i : Fin frame.length, if hit i then frame[i] else 0) /
        (∏ j ∈ Finset.range extents.length with other j, extents.getD j 0 : Nat) := by
  rw [project_mean extents kept frame distinct declared
    (fun j bound gone => nonzero j bound ((others j).mp gone)) c inside, sum_region _ _ _ fits]
  simp only [hits, others]

end Declared

namespace Projection

theorem row_total (h : Header) (frame : List ℚ) {axis : Axis} (declared : axis.index < h.rank)
    (fits : frame.length = h.extents.prod) :
    ((List.range (h.extents.getD axis.index 0)).map fun p =>
      Declared.project LaneRule.sum h.extents [axis.index] frame fun _ => p).sum = frame.sum := by
  have bound : ∀ j ∈ [axis.index], j < h.extents.length := List.forall_mem_singleton.mpr declared
  rw [sum_range_map, ← sum_region_nil h.extents frame fits fun _ => 0,
    ← sum_parts h.extents [] _ _ (List.not_mem_nil) declared]
  apply Finset.sum_congr rfl
  intro p member
  have inside : Inside h.extents [axis.index] fun _ => p :=
    List.forall_mem_singleton.mpr (Finset.mem_range.mp member)
  rw [Declared.project_sum h.extents [axis.index] frame (List.nodup_singleton _) bound _
    inside, part]
  congr 1
  exact region_local h.extents (by simp)

theorem plane_total (h : Header) (frame : List ℚ) {high low : Nat} (less : low < high)
    (declared : high < h.rank) (fits : frame.length = h.extents.prod) :
    ∑ r ∈ Finset.range (h.extents.getD high 0), ∑ q ∈ Finset.range (h.extents.getD low 0),
      ∑ i ∈ region h.extents [low, high] (crossing high r q), frame.getD i 0 = frame.sum := by
  have lowDeclared : low < h.extents.length := less.trans declared
  rw [← sum_region_nil h.extents frame fits fun _ => 0,
    ← sum_parts h.extents [] _ _ List.not_mem_nil declared]
  apply Finset.sum_congr rfl
  intro r _
  rw [part, ← sum_parts h.extents [high] _ _ (by simp [less.ne]) lowDeclared]
  apply Finset.sum_congr rfl
  intro q _
  rw [part]
  congr 1
  apply region_local
  simp [crossing, less.ne, less.ne']

theorem sum_values {grid : Grid ℚ} {height columns : Nat} (value : Nat → Nat → ℚ)
    (meshed : grid.Meshed height columns)
    (cells : ∀ r c, r < height → c < columns → grid.cell? r c = some (value r c)) :
    grid.values.sum = ∑ r ∈ Finset.range height, ∑ c ∈ Finset.range columns, value r c := by
  rw [Grid.values, Grid.rows_of_cells value meshed cells, List.sum_flatten, List.map_map,
    ← sum_range_map]
  exact congrArg List.sum (List.map_congr_left fun r _ => sum_range_map columns (value r))

section Shares

variable {h : Header} {frame : List ℚ}

theorem sum_along_axis {axis : Axis} {p : Nat} (declared : axis.index < h.rank)
    (fits : frame.length = h.extents.prod) (inside : p < h.extents.getD axis.index 0) :
    Declared.project LaneRule.sum h.extents [axis.index] frame (fun _ => p) =
      ∑ i : Fin frame.length, if digit h.extents axis.index i = p then frame[i] else 0 :=
  Declared.project_sum_where (digit h.extents axis.index · = p) fits (List.nodup_singleton _)
    (List.forall_mem_singleton.mpr declared) (List.forall_mem_singleton.mpr inside) (by simp)

theorem mean_along_axis {axis : Axis} {p : Nat} (declared : axis.index < h.rank)
    (fits : frame.length = h.extents.prod) (inside : p < h.extents.getD axis.index 0)
    (nonzero : ∀ j < h.rank, j ≠ axis.index → h.extents.getD j 0 ≠ 0) :
    Declared.project LaneRule.mean h.extents [axis.index] frame (fun _ => p) =
      (∑ i : Fin frame.length, if digit h.extents axis.index i = p then frame[i] else 0) /
        (∏ j ∈ Finset.range h.rank with j ≠ axis.index, h.extents.getD j 0 : Nat) :=
  Declared.project_mean_where (digit h.extents axis.index · = p) _ fits (List.nodup_singleton _)
    (List.forall_mem_singleton.mpr declared) (List.forall_mem_singleton.mpr inside) (by simp)
    (by simp) nonzero

variable {frames : List (List ℚ)} {step : Nat} {a b : Axis} {r q : Nat}
  (suits : Suits h frames step a b frame)
include suits

variable (low : r < h.extents.getD (max a.index b.index) 0)
  (left : q < h.extents.getD (min a.index b.index) 0)
include low left

theorem sum_along_plane :
    Declared.project LaneRule.sum h.extents [a.index, b.index] frame
        (crossing (max a.index b.index) r q) =
      ∑ i : Fin frame.length,
        if digit h.extents (max a.index b.index) i = r ∧
          digit h.extents (min a.index b.index) i = q then frame[i] else 0 :=
  Declared.project_sum_where _ suits.fits suits.distinct suits.declared
    (inside_crossing suits.less low left) (suits.crosses_iff r q)

theorem mean_along_plane
    (nonzero : ∀ j < h.rank, j ≠ a.index → j ≠ b.index → h.extents.getD j 0 ≠ 0) :
    Declared.project LaneRule.mean h.extents [a.index, b.index] frame
        (crossing (max a.index b.index) r q) =
      (∑ i : Fin frame.length,
        if digit h.extents (max a.index b.index) i = r ∧
          digit h.extents (min a.index b.index) i = q then frame[i] else 0) /
        (∏ j ∈ Finset.range h.rank with j ≠ a.index ∧ j ≠ b.index, h.extents.getD j 0 : Nat) :=
  Declared.project_mean_where _ _ suits.fits suits.distinct suits.declared
    (inside_crossing suits.less low left) (suits.crosses_iff r q) (by simp)
    fun j bound other => nonzero j bound other.1 other.2

end Shares

theorem plane_values_sum {h : Header} {frames : List (List ℚ)} {step : Nat} {a b : Axis}
    {frame : List ℚ} {plane : Plane ℚ} (suits : Suits h frames step a b frame)
    (done : onPlane LaneRule.sum h frames step a b = .ok plane) :
    plane.grid.values.sum = frame.sum := by
  have less := suits.less
  have members : ∀ j, j ∈ [a.index, b.index] ↔
      j ∈ [min a.index b.index, max a.index b.index] := mem_pair_iff (by omega)
  obtain ⟨same, done', meshed, cells⟩ := onPlane_cell LaneRule.sum h suits
  obtain rfl := Except.ok.inj (done.symm.trans done')
  rw [← plane_total h frame less (max_lt suits.first suits.second) suits.fits]
  refine sum_values _ meshed fun r q low left => ?_
  rw [cells r q low left, Declared.project_sum _ _ _ suits.distinct suits.declared _
    (inside_crossing less low left), region_congr h.extents _ members]

/-- In exact arithmetic a summed projection shares out the frame among its cells: each cell has the
    values of the places with its coordinates, and the cells of a frame add up to it. An averaged
    cell is that share divided by the product of the other extents. -/
theorem projections_share_out_frame (h : Header) (addressable : Word.Addressable h.arrayShape) :
    (∀ (frames : List (List ℚ)) (axis : Axis), axis.index < h.rank →
      Word.Addressable [frames.length, h.extents.getD axis.index 0] →
      (∀ frame ∈ frames, frame.length = h.extents.prod) →
      ∃ sums means, onAxis LaneRule.sum h frames axis = .ok sums ∧
        onAxis LaneRule.mean h frames axis = .ok means ∧
        ∀ (s : Nat) (frame : List ℚ), frames[s]? = some frame →
          (∃ row, sums.rows[s]? = some row ∧ row.sum = frame.sum) ∧
          ∀ p < h.extents.getD axis.index 0,
            sums.cell? s p = some (∑ i : Fin frame.length,
              if digit h.extents axis.index i = p then frame[i] else 0) ∧
            ((∀ j < h.rank, j ≠ axis.index → h.extents.getD j 0 ≠ 0) →
              means.cell? s p = some ((∑ i : Fin frame.length,
                if digit h.extents axis.index i = p then frame[i] else 0) /
                (∏ j ∈ Finset.range h.rank with j ≠ axis.index, h.extents.getD j 0 : Nat)))) ∧
    (∀ (frames : List (List ℚ)) (step : Nat) (a b : Axis) (frame : List ℚ),
      Suits h frames step a b frame →
      ∃ sums means, onPlane LaneRule.sum h frames step a b = .ok sums ∧
        onPlane LaneRule.mean h frames step a b = .ok means ∧
        sums.grid.values.sum = frame.sum ∧
        ∀ r q, r < h.extents.getD (max a.index b.index) 0 →
          q < h.extents.getD (min a.index b.index) 0 →
          sums.grid.cell? r q = some (∑ i : Fin frame.length,
            if digit h.extents (max a.index b.index) i = r ∧
              digit h.extents (min a.index b.index) i = q then frame[i] else 0) ∧
          ((∀ j < h.rank, j ≠ a.index → j ≠ b.index → h.extents.getD j 0 ≠ 0) →
            means.grid.cell? r q = some ((∑ i : Fin frame.length,
              if digit h.extents (max a.index b.index) i = r ∧
                digit h.extents (min a.index b.index) i = q then frame[i] else 0) /
              (∏ j ∈ Finset.range h.rank with j ≠ a.index ∧ j ≠ b.index,
                h.extents.getD j 0 : Nat)))) := by
  constructor
  · intro frames axis declared room fits
    obtain ⟨sums, summed, _, rows⟩ :=
      onAxis_of_fit LaneRule.sum h frames addressable declared room fits
    obtain ⟨sums', summed', _, sumCells⟩ :=
      onAxis_cells LaneRule.sum h frames addressable declared room fits
    obtain ⟨means, averaged, _, meanCells⟩ :=
      onAxis_cells LaneRule.mean h frames addressable declared room fits
    obtain rfl : sums = sums' := Except.ok.inj (summed.symm.trans summed')
    refine ⟨sums, means, summed, averaged, fun s frame found => ?_⟩
    have fit : frame.length = h.extents.prod := fits frame (List.mem_of_getElem? found)
    refine ⟨⟨_, ?_, row_total h frame declared fit⟩, fun p inside => ?_⟩
    · rw [rows, List.getElem?_map, found]
      rfl
    · rw [sumCells s frame (fun _ => p) found inside, meanCells s frame (fun _ => p) found inside]
      exact ⟨congrArg some (sum_along_axis declared fit inside), fun nonzero =>
        congrArg some (mean_along_axis declared fit inside nonzero)⟩
  · intro frames step a b frame suits
    obtain ⟨sums, summed, _, sumCells⟩ := onPlane_cell LaneRule.sum h suits
    obtain ⟨means, averaged, _, meanCells⟩ := onPlane_cell LaneRule.mean h suits
    refine ⟨sums, means, summed, averaged, plane_values_sum suits summed, fun r q low left => ?_⟩
    rw [sumCells r q low left, meanCells r q low left]
    exact ⟨congrArg some (sum_along_plane suits low left), fun nonzero =>
      congrArg some (mean_along_plane suits low left nonzero)⟩

def boxShares : List ℚ := [1, 2, 3, 4, 5, 6, 7, 8, 9, 10, 11, 12]

theorem projections_share_out_box :
    (∃ sums means, onAxis LaneRule.sum box [boxShares] ⟨1⟩ = .ok sums ∧
      onAxis LaneRule.mean box [boxShares] ⟨1⟩ = .ok means ∧
      (∃ row, sums.rows[0]? = some row ∧ row.sum = 78) ∧
      sums.cell? 0 2 = some 34 ∧ means.cell? 0 2 = some (17 / 2)) ∧
    Suits box [boxShares] 0 ⟨0⟩ ⟨2⟩ boxShares ∧
    ∃ sums means, onPlane LaneRule.sum box [boxShares] 0 ⟨0⟩ ⟨2⟩ = .ok sums ∧
      onPlane LaneRule.mean box [boxShares] 0 ⟨0⟩ ⟨2⟩ = .ok means ∧
      sums.grid.values.sum = 78 ∧ sums.grid.cell? 1 1 = some 30 ∧
      means.grid.cell? 1 1 = some 10 := by
  have total : boxShares.sum = 78 := by decide +kernel
  have suits : Suits box [boxShares] 0 ⟨0⟩ ⟨2⟩ boxShares :=
    ⟨by decide, by decide, by decide, rfl, by decide, by decide⟩
  have share : (∑ i : Fin boxShares.length,
      if digit box.extents 1 i = 2 then boxShares[i] else 0) = 34 := by decide +kernel
  have less : (∏ j ∈ Finset.range box.rank with j ≠ 1, box.extents.getD j 0) = 4 := by decide
  have corner : (∑ i : Fin boxShares.length,
      if digit box.extents 2 i = 1 ∧ digit box.extents 0 i = 1 then boxShares[i] else 0) = 30 := by
    decide +kernel
  have middle : (∏ j ∈ Finset.range box.rank with j ≠ 0 ∧ j ≠ 2, box.extents.getD j 0) = 3 := by
    decide
  obtain ⟨onOne, onTwo⟩ := projections_share_out_frame box (by decide)
  constructor
  · obtain ⟨sums, means, summed, averaged, cells⟩ := onOne [boxShares] ⟨1⟩ (by decide) (by decide)
      (by decide)
    obtain ⟨⟨row, here, shared⟩, cell⟩ := cells 0 boxShares rfl
    obtain ⟨sum, mean⟩ := cell 2 (by decide)
    refine ⟨sums, means, summed, averaged, ⟨row, here, shared.trans total⟩, share ▸ sum, ?_⟩
    rw [mean (by decide), share, less]
    norm_num
  · obtain ⟨sums, means, summed, averaged, shared, cells⟩ :=
      onTwo [boxShares] 0 ⟨0⟩ ⟨2⟩ boxShares suits
    obtain ⟨sum, mean⟩ := cells 1 1 (by decide) (by decide)
    refine ⟨suits, sums, means, summed, averaged, shared.trans total, corner ▸ sum, ?_⟩
    refine (mean (by decide)).trans (congrArg some ?_)
    exact (congrArg₂ (· / ·) corner (congrArg Nat.cast middle)).trans (by norm_num)

end Projection
end FieldPlot
