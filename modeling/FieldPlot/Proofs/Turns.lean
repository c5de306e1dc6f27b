import FieldPlot.Proofs.Projectable

/-!
The turns of the elimination loop. The loop turns while there are more axes than kept ones, and it
does not ask whether an axis is left to visit: one always is (`Safe`). Between two turns the axes
that were visited are kept ones and the others, in the order of the array, are still to be visited
(`Underway`). A turn passes an axis or collapses one, so the loop ends when all axes that are not
kept have collapsed.
-/
namespace FieldPlot
namespace Elimination

variable {α : Type}

/-- The axes of an array, the last declared one first, of which these have vanished. -/
def remaining (rank : Nat) (gone : List Nat) : List Nat :=
  (lastFirst rank).filter (· ∉ gone)

/-- The loop comes to a state, and that many of its turns have collapsed an axis. -/
inductive Reaches (rule : LaneRule α) (start : Elimination α) : Nat → Elimination α → Prop where
  | start : Reaches rule start 0 start
  | passed {n : Nat} {e : Elimination α} (reached : Reaches rule start n e)
      (more : e.kept.length < e.tensor.rank) (kept : e.next ∈ e.kept) :
      Reaches rule start n (e.step rule)
  | collapsed {n : Nat} {e : Elimination α} (reached : Reaches rule start n e)
      (more : e.kept.length < e.tensor.rank) (gone : e.next ∉ e.kept) :
      Reaches rule start (n + 1) (e.step rule)

structure Safe (rule : LaneRule α) (extents kept : List Nat) (collapses : Nat) (e : Elimination α) :
    Prop where
  /-- Where the loop turns, there is an axis to visit. -/
  inRange : e.kept.length < e.tensor.rank → e.next < e.tensor.rank
  inside : ∀ p ∈ e.kept, p < e.tensor.rank
  /-- The next turn counts in integers, so that no position and no rank goes below zero: a kept
      position behind a vanishing axis is one less, and so is the rank. -/
  decrements : e.kept.length < e.tensor.rank → e.next ∉ e.kept →
    (e.step rule).kept.map Int.ofNat =
        e.kept.map (fun p => if e.next < p then (p : Int) - 1 else p) ∧
      ((e.step rule).tensor.rank : Int) = e.tensor.rank - 1
  /-- The array has the axes that have not vanished, and the tracked positions are those of the
      kept axes among them. -/
  places : ∃ gone : List Nat, gone.Nodup ∧ gone.length = collapses ∧
    (∀ j ∈ gone, j < extents.length ∧ j ∉ kept) ∧
    e.tensor.shape = (remaining extents.length gone).map (extents.getD · 0) ∧
    e.kept = kept.map (remaining extents.length gone).idxOf
  /-- A kept axis that is declared later is further in front. -/
  ordered : ∀ a ∈ kept.zip e.kept, ∀ b ∈ kept.zip e.kept, a.1 < b.1 ↔ b.2 < a.2
  distinct : e.kept.Nodup
  /-- Each collapse takes one axis away. -/
  rank : e.tensor.rank + collapses = extents.length
  /-- Where the loop ends, the kept axes are left. -/
  ended : e.tensor.rank ≤ e.kept.length → e.tensor.rank = kept.length

/-- Between two turns: the axes that were visited are kept, and behind them are all that were not. -/
structure Underway (extents kept gone visited : List Nat) (left : Nat) (v : Declared α)
    (e : Elimination α) : Prop where
  shows : e.Shows extents (visited ++ lastFirst left) kept v
  next : e.next = visited.length
  passed : visited ⊆ kept
  axes : visited ++ lastFirst left = remaining extents.length gone
  once : gone.Nodup
  vanished : ∀ j ∈ gone, j < extents.length ∧ j ∉ kept

variable {rule : LaneRule α} {extents kept gone visited : List Nat} {left : Nat} {v : Declared α}
  {e : Elimination α}

theorem remaining_descending (rank : Nat) (gone : List Nat) :
    (remaining rank gone).Pairwise (· > ·) :=
  (lastFirst_descending rank).filter _

theorem remaining_nil (rank : Nat) : remaining rank [] = lastFirst rank := by
  simp [remaining]

theorem remaining_cons {rank axis : Nat} {rest : List Nat}
    (axes : visited ++ axis :: rest = remaining rank gone)
    (distinct : (visited ++ axis :: rest).Nodup) :
    visited ++ rest = remaining rank (axis :: gone) := by
  have split : remaining rank (axis :: gone) = (remaining rank gone).filter (· ≠ axis) := by
    simp [remaining, List.filter_filter]
  have new : axis ∉ visited ++ rest := (List.nodup_middle.mp distinct).notMem
  rw [split, ← axes, List.filter_append, List.filter_cons_of_neg (by simp), ← List.filter_append,
    List.filter_eq_self.mpr]
  intro j member
  simpa using fun same : j = axis => new (same ▸ member)

theorem length_remaining {rank : Nat} (once : gone.Nodup) (declared : ∀ j ∈ gone, j < rank) :
    (remaining rank gone).length + gone.length = rank := by
  have among : gone.length = ((lastFirst rank).filter (· ∈ gone)).length := by
    refine ((List.perm_ext_iff_of_nodup once ((lastFirst_nodup rank).filter _)).mpr ?_).length_eq
    intro j
    simp only [List.mem_filter, mem_lastFirst, decide_eq_true_eq]
    exact ⟨fun member => ⟨declared j member, member⟩, And.right⟩
  have all := List.length_eq_length_filter_add (l := lastFirst rank) (· ∈ gone)
  rw [length_lastFirst] at all
  simp only [remaining, decide_not]
  omega

theorem idxOf_lt_idxOf_iff {axes : List Nat} (descending : axes.Pairwise (· > ·)) {a b : Nat}
    (first : a ∈ axes) (second : b ∈ axes) : axes.idxOf b < axes.idxOf a ↔ a < b := by
  have order : ∀ i j (low : i < axes.length) (high : j < axes.length), i < j → axes[j] < axes[i] :=
    fun i j low high less => List.pairwise_iff_getElem.mp descending i j low high less
  have here := List.idxOf_lt_length_of_mem first
  have there := List.idxOf_lt_length_of_mem second
  have valueA : axes[axes.idxOf a] = a := List.getElem_idxOf here
  have valueB : axes[axes.idxOf b] = b := List.getElem_idxOf there
  rcases Nat.lt_trichotomy (axes.idxOf a) (axes.idxOf b) with less | same | more
  · have := order _ _ here there less
    omega
  · have := (List.idxOf_inj first).mp same
    omega
  · have := order _ _ there here more
    omega

theorem mem_zip_map {f : Nat → Nat} {axes : List Nat} {a : Nat × Nat}
    (member : a ∈ axes.zip (axes.map f)) : ∃ x ∈ axes, a = (x, f x) := by
  have pairs : axes.zip (axes.map f) = axes.map fun x => (x, f x) := by
    simpa using List.zip_map' (f := id) (g := f) (l := axes)
  obtain ⟨x, here, same⟩ := List.mem_map.mp (pairs ▸ member)
  exact ⟨x, here, same.symm⟩

theorem shift_cast (vanished p : Nat) :
    ((shift vanished p : Nat) : Int) = if vanished < p then (p : Int) - 1 else p := by
  unfold shift
  split_ifs
  · omega
  · rfl

namespace Underway

theorem rank (underway : Underway extents kept gone visited left v e) :
    e.tensor.rank + gone.length = extents.length := by
  rw [underway.shows.rank, underway.axes]
  exact length_remaining underway.once fun j member => (underway.vanished j member).1

/-- All axes that were visited are kept, so where there are more, one is left. -/
theorem exists_left (underway : Underway extents kept gone visited left v e)
    (more : e.kept.length < e.tensor.rank) : ∃ axis, left = axis + 1 := by
  cases left with
  | succ axis => exact ⟨axis, rfl⟩
  | zero =>
    have distinct : visited.Nodup := (List.nodup_append.mp underway.shows.distinct).1
    have few := (distinct.subperm underway.passed).length_le
    rw [underway.shows.rank, underway.shows.tracked] at more
    simp only [lastFirst, List.range_zero, List.reverse_nil, List.append_nil,
      List.length_map] at more
    omega

theorem pass {axis : Nat} (underway : Underway extents kept gone visited (axis + 1) v e)
    (member : e.next ∈ e.kept) :
    Underway extents kept gone (visited ++ [axis]) axis v (e.step rule) := by
  obtain ⟨shows, next, passed, axes, once, vanished⟩ := underway
  rw [lastFirst_succ] at shows axes
  have here := (next_mem_kept shows next).mp member
  rw [step_passes rule shows next here]
  rw [List.append_cons] at shows axes
  have length : e.next + 1 = (visited ++ [axis]).length := by simp [next]
  have among : visited ++ [axis] ⊆ kept := by simp [passed, here]
  exact ⟨⟨shows.distinct, shows.left, shows.shape, shows.tracked, shows.cell⟩, length, among, axes,
    once, vanished⟩

theorem collapse {axis : Nat} (underway : Underway extents kept gone visited (axis + 1) v e)
    (member : e.next ∉ e.kept) :
    Underway extents kept (axis :: gone) visited axis (v.collapse rule extents axis)
      (e.step rule) := by
  obtain ⟨shows, next, passed, axes, once, vanished⟩ := underway
  rw [lastFirst_succ] at shows axes
  have away := mt (next_mem_kept shows next).mpr member
  obtain ⟨same, rest⟩ := step_collapses rule shows next away (length_lastFirst axis)
  have still : axis ∈ remaining extents.length gone := by
    rw [← axes]
    simp
  obtain ⟨declared, new⟩ := List.mem_filter.mp still
  refine ⟨rest, same.trans next, passed, remaining_cons axes shows.distinct, ?_, ?_⟩
  · exact List.nodup_cons.mpr ⟨by simpa using new, once⟩
  · exact List.forall_mem_cons.mpr ⟨⟨mem_lastFirst.mp declared, away⟩, vanished⟩

theorem safe (distinct : kept.Nodup)
    (underway : Underway extents kept gone visited left v e) :
    e.Safe rule extents kept gone.length where
  inRange := by
    intro more
    obtain ⟨axis, rfl⟩ := underway.exists_left more
    rw [underway.shows.rank, underway.next, List.length_append, length_lastFirst]
    omega
  inside := by
    intro p member
    rw [underway.shows.tracked] at member
    obtain ⟨axis, here, rfl⟩ := List.mem_map.mp member
    rw [underway.shows.rank]
    exact List.idxOf_lt_length_of_mem (underway.shows.left here)
  decrements := by
    intro more away
    obtain ⟨axis, rfl⟩ := underway.exists_left more
    have before := underway.rank
    have after : (e.step rule).tensor.rank + (axis :: gone).length = extents.length :=
      (underway.collapse away).rank
    rw [List.length_cons] at after
    refine ⟨?_, by omega⟩
    rw [step, if_neg away, List.map_map]
    exact List.map_congr_left fun p _ => shift_cast e.next p
  places := by
    have shape := underway.shows.shape
    have tracked := underway.shows.tracked
    rw [underway.axes] at shape tracked
    exact ⟨gone, underway.once, rfl, underway.vanished, shape, tracked⟩
  ordered := by
    have descending := remaining_descending extents.length gone
    rw [← underway.axes] at descending
    rw [underway.shows.tracked]
    intro a first b second
    obtain ⟨x, here, rfl⟩ := mem_zip_map first
    obtain ⟨y, there, rfl⟩ := mem_zip_map second
    exact (idxOf_lt_idxOf_iff descending (underway.shows.left here)
      (underway.shows.left there)).symm
  distinct := by
    rw [underway.shows.tracked]
    exact distinct.map_on fun x here y _ same =>
      (List.idxOf_inj (underway.shows.left here)).mp same
  rank := underway.rank
  ended := by
    intro few
    have many := (distinct.subperm underway.shows.left).length_le
    rw [underway.shows.rank] at few ⊢
    rw [underway.shows.tracked, List.length_map] at few
    exact few.antisymm many

end Underway

theorem underway_of_reaches {start : Elimination α}
    (underway : Underway extents kept [] [] extents.length v start) {n : Nat}
    (reached : Reaches rule start n e) : ∃ gone visited left v, gone.length = n ∧
      Underway extents kept gone visited left v e := by
  induction reached with
  | start => exact ⟨_, _, _, _, rfl, underway⟩
  | passed _ more member ih =>
    obtain ⟨gone, visited, left, v, count, before⟩ := ih
    obtain ⟨axis, rfl⟩ := before.exists_left more
    exact ⟨_, _, _, _, count, before.pass member⟩
  | collapsed _ more member ih =>
    obtain ⟨gone, visited, left, v, rfl, before⟩ := ih
    obtain ⟨axis, rfl⟩ := before.exists_left more
    exact ⟨_, _, _, _, rfl, before.collapse member⟩

theorem safe_of_reaches (distinct : kept.Nodup) {start : Elimination α}
    (underway : Underway extents kept [] [] extents.length v start) {n : Nat}
    (reached : Reaches rule start n e) : e.Safe rule extents kept n := by
  obtain ⟨gone, visited, left, v, rfl, underway⟩ := underway_of_reaches underway reached
  exact underway.safe distinct

/-- No turn is cut off by the end of the array, so the loop goes on while there are more axes. -/
theorem exists_end (distinct : kept.Nodup) {start : Elimination α}
    (underway : Underway extents kept [] [] extents.length v start) {n : Nat}
    (reached : Reaches rule start n e) : ∃ m, Reaches rule start m (e.run rule) ∧
      (e.run rule).tensor.rank ≤ (e.run rule).kept.length := by
  induction e using run.induct rule generalizing n with
  | case1 e more ih =>
    rw [run_of_open rule more]
    by_cases member : e.next ∈ e.kept
    · exact ih (.passed reached more.1 member)
    · exact ih (.collapsed reached more.1 member)
  | case2 e closed =>
    rw [run_of_not_open rule closed]
    refine ⟨n, reached, Nat.le_of_not_lt fun more => closed ⟨more, ?_⟩⟩
    exact (safe_of_reaches distinct underway reached).inRange more

theorem reaches_run (rule : LaneRule α) (distinct : kept.Nodup) {start : Elimination α}
    (underway : Underway extents kept [] [] extents.length v start) :
    Reaches rule start (extents.length - kept.length) (start.run rule) ∧
      (start.run rule).tensor.rank = kept.length := by
  have here : Reaches rule start 0 start := .start
  obtain ⟨m, reached, few⟩ := exists_end distinct underway here
  have safe := safe_of_reaches distinct underway reached
  have rank := safe.ended few
  have all := safe.rank
  obtain rfl : m = extents.length - kept.length := by omega
  exact ⟨reached, rank⟩

end Elimination

namespace Header

variable {α : Type} [Inhabited α]

theorem underway_of_tensor {h : Header} {frame : List α} {array : Tensor α}
    (made : h.tensor frame = .ok array) {kept : List Nat} (declared : ∀ j ∈ kept, j < h.rank) :
    Elimination.Underway h.extents kept [] [] h.extents.length (Declared.ofFrame h.extents frame)
      ⟨array, 0, kept.map h.arrayPosition⟩ := by
  obtain ⟨addressable, fits⟩ := fit_of_tensor made
  obtain rfl := Except.ok.inj (made.symm.trans (h.tensor_of_fit frame addressable fits))
  exact ⟨ofFrame_shows h.extents kept frame declared, rfl, List.nil_subset _,
    (Elimination.remaining_nil _).symm, List.nodup_nil, by simp⟩

end Header

theorem Tensor.line?_of_rank {α : Type} {t : Tensor α} (one : t.rank = 1) :
    ∃ row, t.line? = some row := by
  obtain ⟨n, shape⟩ := List.length_eq_one_iff.mp one
  exact ⟨_, by rw [Tensor.line?, shape]⟩

namespace Projection

theorem planeOf_of_rank {α : Type} {e : Elimination α} (two : e.tensor.rank = 2)
    (kept : e.kept.length = 2) (a b : Axis) : ∃ plane, planeOf a b e = .ok plane := by
  obtain ⟨height, columns, shape⟩ := List.length_eq_two.mp two
  obtain ⟨p, q, places⟩ := List.length_eq_two.mp kept
  rw [planeOf, shape, places]
  by_cases before : p < q
  · exact ⟨_, if_pos before⟩
  · exact ⟨_, if_neg before⟩

/-- Whichever axis or pair of axes of a frame is kept, the loop is safe at every turn. It ends with as
    many collapses as there are other axes, and what is left is a line or a plane. -/
theorem turns_are_safe {α : Type} [Inhabited α] (rule : LaneRule α) (h : Header) (frame : List α)
    (array : Tensor α) (made : h.tensor frame = .ok array) :
    (∀ axis : Axis, axis.index < h.rank →
      (∀ n e, Elimination.Reaches rule ⟨array, 0, [h.arrayPosition axis.index]⟩ n e →
        e.Safe rule h.extents [axis.index] n) ∧
      Elimination.Reaches rule ⟨array, 0, [h.arrayPosition axis.index]⟩ (h.rank - 1)
        (array.keep rule [h.arrayPosition axis.index]) ∧
      (array.keep rule [h.arrayPosition axis.index]).tensor.rank = 1 ∧
      ∃ row, (array.keep rule [h.arrayPosition axis.index]).tensor.line? = some row) ∧
    (∀ a b : Axis, a.index < h.rank → b.index < h.rank → a ≠ b →
      (∀ n e, Elimination.Reaches rule
          ⟨array, 0, [h.arrayPosition a.index, h.arrayPosition b.index]⟩ n e →
        e.Safe rule h.extents [a.index, b.index] n) ∧
      Elimination.Reaches rule
        ⟨array, 0, [h.arrayPosition a.index, h.arrayPosition b.index]⟩ (h.rank - 2)
        (array.keep rule [h.arrayPosition a.index, h.arrayPosition b.index]) ∧
      (array.keep rule [h.arrayPosition a.index, h.arrayPosition b.index]).tensor.rank = 2 ∧
      ∃ plane, planeOf a b
        (array.keep rule [h.arrayPosition a.index, h.arrayPosition b.index]) = .ok plane) := by
  constructor
  · intro axis declared
    have underway := Header.underway_of_tensor made (List.forall_mem_singleton.mpr declared)
    obtain ⟨reached, rank⟩ := Elimination.reaches_run rule (List.nodup_singleton _) underway
    exact ⟨fun n e => Elimination.safe_of_reaches (List.nodup_singleton _) underway, reached, rank,
      Tensor.line?_of_rank rank⟩
  · intro a b first second apart
    have other : a.index ≠ b.index := fun same => apart (congrArg Axis.mk same)
    have distinct : [a.index, b.index].Nodup := by simpa using other
    have underway := Header.underway_of_tensor made (all_pair first second)
    obtain ⟨reached, rank⟩ := Elimination.reaches_run rule distinct underway
    have safe := Elimination.safe_of_reaches distinct underway reached
    obtain ⟨gone, _, _, _, _, tracked⟩ := safe.places
    have pair := congrArg List.length tracked
    rw [List.length_map] at pair
    exact ⟨fun n e => Elimination.safe_of_reaches distinct underway, reached, rank,
      planeOf_of_rank rank pair a b⟩

theorem turns_of_box : ∃ array, box.tensor boxFrame = .ok array ∧
    (⟨1⟩ : Axis).index < box.rank ∧
    Elimination.Reaches Aggregation.average.rule ⟨array, 0, [1]⟩ 2
      (array.keep Aggregation.average.rule [1]) ∧
    (array.keep Aggregation.average.rule [1]).Safe Aggregation.average.rule [2, 3, 2] [1] 2 ∧
    (⟨2⟩ : Axis).index < box.rank ∧ (⟨0⟩ : Axis).index < box.rank ∧ (⟨2⟩ : Axis) ≠ ⟨0⟩ ∧
    Elimination.Reaches Aggregation.average.rule ⟨array, 0, [0, 2]⟩ 1
      (array.keep Aggregation.average.rule [0, 2]) ∧
    (array.keep Aggregation.average.rule [0, 2]).Safe Aggregation.average.rule [2, 3, 2] [2, 0] 1 := by
  have made := box.tensor_of_fit boxFrame (by decide) (by decide)
  obtain ⟨onOne, onTwo⟩ :=
    turns_are_safe Aggregation.average.rule box boxFrame _ made
  obtain ⟨safe, reached, _⟩ := onOne ⟨1⟩ (by decide)
  obtain ⟨safe', reached', _⟩ := onTwo ⟨2⟩ ⟨0⟩ (by decide) (by decide) (by decide)
  exact ⟨_, made, by decide, reached, safe _ _ reached, by decide, by decide, by decide, reached',
    safe' _ _ reached'⟩

end Projection
end FieldPlot
