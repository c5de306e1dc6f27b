import FieldPlot.Tensor
import Mathlib.Algebra.BigOperators.Group.Finset.Basic
import Mathlib.Algebra.BigOperators.Group.Finset.Sigma
import Mathlib.Algebra.BigOperators.Ring.Finset
import Mathlib.Data.List.GetD

/-!
Coordinates of a frame on its declared axes, the first of which varies fastest. `place` goes from
coordinates to a place in the frame and `digit` back. A region holds the places that have given
coordinates on some axes; without one of these axes it falls into the regions of its positions.
-/
namespace FieldPlot

def place (extents : List Nat) (c : Nat → Nat) : Nat :=
  ∑ i ∈ Finset.range extents.length, c i * (extents.take i).prod

/-- The coordinate of a place on a declared axis. -/
def digit (extents : List Nat) (axis i : Nat) : Nat :=
  i / (extents.take axis).prod % extents.getD axis 0

/-- The declared axes in the order of an array, the last one first. -/
def lastFirst (rank : Nat) : List Nat :=
  (List.range rank).reverse

def Inside (extents axes : List Nat) (c : Nat → Nat) : Prop :=
  ∀ j ∈ axes, c j < extents.getD j 0

instance (extents axes : List Nat) (c : Nat → Nat) : Decidable (Inside extents axes c) :=
  inferInstanceAs (Decidable (∀ j ∈ axes, _))

/-- Coordinates with one position on an axis and another on all other axes. -/
def crossing (axis r q : Nat) : Nat → Nat :=
  fun j => if j = axis then r else q

theorem crossing_self (axis r q : Nat) : crossing axis r q axis = r :=
  if_pos rfl

theorem crossing_of_ne {axis j : Nat} (r q : Nat) (other : j ≠ axis) : crossing axis r q j = q :=
  if_neg other

theorem all_pair {P : Nat → Prop} {a b : Nat} (first : P a) (second : P b) :
    ∀ j ∈ [a, b], P j := by
  intro j member
  rcases List.mem_pair.mp member with rfl | rfl
  · exact first
  · exact second

theorem mem_pair_iff {a b high low : Nat} (named : a = high ∧ b = low ∨ a = low ∧ b = high)
    (j : Nat) : j ∈ [a, b] ↔ j ∈ [high, low] := by
  rw [List.mem_pair, List.mem_pair]
  omega

theorem forall_mem_pair (P : Nat → Prop) (a b : Nat) :
    (∀ j ∈ [a, b], P j) ↔ P (max a b) ∧ P (min a b) := by
  rcases Nat.le_total a b with order | order
  · simp [order, and_comm]
  · simp [order]

theorem inside_crossing {extents : List Nat} {a b r q : Nat} (less : min a b < max a b)
    (low : r < extents.getD (max a b) 0) (left : q < extents.getD (min a b) 0) :
    Inside extents [a, b] (crossing (max a b) r q) := by
  rw [Inside, forall_mem_pair, crossing_self, crossing_of_ne r q less.ne]
  exact ⟨low, left⟩

theorem lastFirst_succ (rank : Nat) : lastFirst (rank + 1) = rank :: lastFirst rank := by
  simp [lastFirst, List.range_succ]

theorem mem_lastFirst {rank j : Nat} : j ∈ lastFirst rank ↔ j < rank := by
  simp [lastFirst]

theorem length_lastFirst (rank : Nat) : (lastFirst rank).length = rank := by
  simp [lastFirst]

theorem lastFirst_nodup (rank : Nat) : (lastFirst rank).Nodup :=
  List.nodup_reverse.mpr List.nodup_range

theorem lastFirst_descending (rank : Nat) : (lastFirst rank).Pairwise (· > ·) :=
  List.pairwise_reverse.mpr List.pairwise_lt_range

theorem eq_of_descending {axes named : List Nat} (ordered : axes.Pairwise (· > ·))
    (ordered' : named.Pairwise (· > ·)) (same : ∀ j, j ∈ axes ↔ j ∈ named) : axes = named := by
  have distinct : axes.Nodup := ordered.imp fun more => Nat.ne_of_gt more
  have distinct' : named.Nodup := ordered'.imp fun more => Nat.ne_of_gt more
  have perm := (List.perm_ext_iff_of_nodup distinct distinct').mpr same
  exact perm.eq_of_pairwise (fun a b _ _ ab ba => absurd ab (Nat.lt_asymm ba)) ordered ordered'

theorem map_lastFirst_succ {β : Type} (rank : Nat) (f : Nat → β) :
    (lastFirst (rank + 1)).map f = (lastFirst rank).map (fun j => f (j + 1)) ++ [f 0] := by
  simp [lastFirst, List.range_succ_eq_map, Function.comp_def]

theorem map_getD_range {α : Type} (values : List α) (d : α) :
    (List.range values.length).map (values.getD · d) = values := by
  apply List.ext_getElem (by simp)
  intro j bound _
  have declared : j < values.length := by simpa using bound
  simp [declared]

theorem map_getD_lastFirst (es : List Nat) :
    (lastFirst es.length).map (es.getD · 0) = es.reverse := by
  rw [lastFirst, List.map_reverse, map_getD_range]

theorem idxOf_lastFirst {rank axis : Nat} (declared : axis < rank) :
    (lastFirst rank).idxOf axis = rank - 1 - axis := by
  have bound : rank - 1 - axis < (lastFirst rank).length := by
    rw [length_lastFirst]
    omega
  have found : (lastFirst rank)[rank - 1 - axis] = axis := by
    simp only [lastFirst, List.getElem_reverse, List.getElem_range, List.length_range]
    omega
  rw [← (lastFirst_nodup rank).idxOf_getElem (rank - 1 - axis) bound, found]

theorem volume_append (first : List Nat) (e : Nat) : volume (first ++ [e]) = volume first * e := by
  induction first with
  | nil => simp [volume]
  | cons d first ih => simp [volume, ih, Nat.mul_assoc]

theorem offset_append (first : List Nat) (e : Nat) (cs : List Nat) (d : Nat)
    (same : first.length = cs.length) :
    offset (first ++ [e]) (cs ++ [d]) = offset first cs * e + d := by
  induction first generalizing cs with
  | nil =>
    cases cs with
    | nil => simp [offset, volume]
    | cons => simp at same
  | cons extent first ih =>
    cases cs with
    | nil => simp at same
    | cons c cs =>
      have rest := ih cs (by simpa using same)
      simp only [List.cons_append, offset, rest, volume_append]
      rw [Nat.add_mul, Nat.mul_assoc, Nat.add_assoc]

theorem place_cons (e : Nat) (es : List Nat) (c : Nat → Nat) :
    place (e :: es) c = c 0 + e * place es (fun i => c (i + 1)) := by
  simp only [place, List.length_cons, Finset.sum_range_succ', List.take_succ_cons, List.prod_cons,
    List.take_zero, List.prod_nil, Nat.mul_one, Finset.mul_sum]
  rw [Nat.add_comm]
  congr 1
  exact Finset.sum_congr rfl fun i _ => Nat.mul_left_comm _ _ _

/-- An array of the extents in reverse has every cell where the frame has it. -/
theorem offset_reverse (es : List Nat) (c : Nat → Nat) :
    offset es.reverse ((lastFirst es.length).map c) = place es c := by
  induction es generalizing c with
  | nil => simp [offset, place]
  | cons e es ih =>
    have same : es.reverse.length = ((lastFirst es.length).map fun j => c (j + 1)).length := by
      simp [length_lastFirst]
    rw [List.reverse_cons, List.length_cons, map_lastFirst_succ, offset_append _ _ _ _ same, ih,
      place_cons, Nat.mul_comm, Nat.add_comm]

theorem digit_zero (e : Nat) (es : List Nat) (i : Nat) : digit (e :: es) 0 i = i % e := by
  simp [digit]

theorem digit_succ (e : Nat) (es : List Nat) (j i : Nat) :
    digit (e :: es) (j + 1) i = digit es j (i / e) := by
  simp [digit, Nat.div_div_eq_div_mul]

theorem inside_tail {e : Nat} {es : List Nat} {c : Nat → Nat}
    (inside : Inside (e :: es) (List.range (es.length + 1)) c) :
    Inside es (List.range es.length) (fun i => c (i + 1)) := by
  intro j member
  have bound := inside (j + 1) (by simpa using member)
  simpa using bound

theorem place_lt (es : List Nat) (c : Nat → Nat) (inside : Inside es (List.range es.length) c) :
    place es c < es.prod := by
  induction es generalizing c with
  | nil => simp [place]
  | cons e es ih =>
    have first : c 0 < e := by simpa using inside 0 (by simp)
    have rest := ih _ (inside_tail inside)
    rw [place_cons, List.prod_cons]
    calc c 0 + e * place es (fun i => c (i + 1))
        < e + e * place es (fun i => c (i + 1)) := Nat.add_lt_add_right first _
      _ = e * (place es (fun i => c (i + 1)) + 1) := by rw [Nat.mul_succ, Nat.add_comm]
      _ ≤ e * es.prod := Nat.mul_le_mul_left e rest

theorem digit_place (es : List Nat) (c : Nat → Nat) (inside : Inside es (List.range es.length) c)
    {j : Nat} (declared : j < es.length) : digit es j (place es c) = c j := by
  induction es generalizing c j with
  | nil => simp at declared
  | cons e es ih =>
    have first : c 0 < e := by simpa using inside 0 (by simp)
    rw [place_cons]
    cases j with
    | zero => rw [digit_zero, Nat.add_mul_mod_self_left, Nat.mod_eq_of_lt first]
    | succ j =>
      rw [digit_succ, Nat.add_mul_div_left _ _ (by omega), Nat.div_eq_of_lt first, Nat.zero_add]
      exact ih _ (inside_tail inside) (by simpa using declared)

theorem place_digit (es : List Nat) (i : Nat) (bound : i < es.prod) :
    place es (digit es · i) = i := by
  induction es generalizing i with
  | nil => simp at bound; simp [place, bound]
  | cons e es ih =>
    rw [List.prod_cons] at bound
    rw [place_cons, digit_zero]
    simp only [digit_succ]
    rw [ih (i / e) (Nat.div_lt_of_lt_mul bound)]
    exact Nat.mod_add_div i e

theorem digit_inside (es : List Nat) (i : Nat) (bound : i < es.prod) :
    Inside es (List.range es.length) (digit es · i) := by
  intro j member
  have declared : j < es.length := List.mem_range.mp member
  have nonzero : es.prod ≠ 0 := by omega
  have positive : es[j] ≠ 0 := fun zero =>
    nonzero (List.prod_eq_zero (zero ▸ List.getElem_mem declared))
  simp only [digit, List.getD_eq_getElem _ _ declared]
  exact Nat.mod_lt _ (Nat.pos_of_ne_zero positive)

def region (extents axes : List Nat) (c : Nat → Nat) : Finset Nat :=
  (Finset.range extents.prod).filter fun i => ∀ j ∈ axes, digit extents j i = c j

theorem mem_region {extents axes : List Nat} {c : Nat → Nat} {i : Nat} :
    i ∈ region extents axes c ↔
      i < extents.prod ∧ ∀ j ∈ axes, digit extents j i = c j := by
  simp [region]

theorem region_congr (extents : List Nat) {axes others : List Nat} (c : Nat → Nat)
    (same : ∀ j, j ∈ axes ↔ j ∈ others) : region extents axes c = region extents others c := by
  ext i
  simp only [mem_region, same]

theorem region_all (extents : List Nat) {axes : List Nat} (c : Nat → Nat)
    (all : ∀ j, j ∈ axes ↔ j < extents.length) (inside : Inside extents axes c) :
    region extents axes c = {place extents c} := by
  have within : Inside extents (List.range extents.length) c := fun j member =>
    inside j ((all j).mpr (List.mem_range.mp member))
  ext i
  rw [mem_region, Finset.mem_singleton]
  constructor
  · rintro ⟨bound, digits⟩
    rw [← place_digit extents i bound]
    exact Finset.sum_congr rfl fun j member =>
      congrArg (· * _) (digits j ((all j).mpr (Finset.mem_range.mp member)))
  · rintro rfl
    constructor
    · exact place_lt extents c within
    · intro j member
      exact digit_place extents c within ((all j).mp member)

def part (extents axes : List Nat) (c : Nat → Nat) (axis x : Nat) : Finset Nat :=
  region extents (axis :: axes) (Function.update c axis x)

theorem mem_part {extents axes : List Nat} {c : Nat → Nat} {axis x i : Nat}
    (new : axis ∉ axes) :
    i ∈ part extents axes c axis x ↔ i ∈ region extents axes c ∧ digit extents axis i = x := by
  have kept : ∀ j ∈ axes, Function.update c axis x j = c j := by
    intro j member
    have other : j ≠ axis := fun same => new (same ▸ member)
    exact Function.update_of_ne other _ _
  simp only [part, mem_region, List.forall_mem_cons, Function.update_self]
  constructor
  · rintro ⟨bound, here, rest⟩
    exact ⟨⟨bound, fun j member => (rest j member).trans (kept j member)⟩, here⟩
  · rintro ⟨⟨bound, rest⟩, here⟩
    exact ⟨bound, here, fun j member => (rest j member).trans (kept j member).symm⟩

theorem parts_disjoint {extents axes : List Nat} (c : Nat → Nat) {axis : Nat}
    (new : axis ∉ axes) {x y : Nat} (apart : x ≠ y) :
    Disjoint (part extents axes c axis x) (part extents axes c axis y) := by
  rw [Finset.disjoint_left]
  intro i here there
  exact apart (((mem_part new).mp here).2.symm.trans ((mem_part new).mp there).2)

theorem region_eq_parts {extents axes : List Nat} (c : Nat → Nat) {axis : Nat}
    (new : axis ∉ axes) (declared : axis < extents.length) :
    region extents axes c =
      (Finset.range (extents.getD axis 0)).biUnion (part extents axes c axis) := by
  ext i
  simp only [Finset.mem_biUnion, Finset.mem_range, mem_part new]
  constructor
  · intro member
    have bound := digit_inside extents i (mem_region.mp member).1 axis (List.mem_range.mpr declared)
    exact ⟨digit extents axis i, bound, member, rfl⟩
  · rintro ⟨_, _, member, _⟩
    exact member

end FieldPlot
