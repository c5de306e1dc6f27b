import FieldPlot.Proofs.Capacity
import FieldPlot.Proofs.Differences
import FieldPlot.Proofs.Totals

/-!
Averages of binary64 numbers. A lane is summed before the sum is divided, so an average of finite
numbers is finite just where every sum on the way to it is (`Declared.SumsFinite`). Numbers that are
small beside the lengths of the axes that collapse have finite averages, not larger than they are.
-/
namespace FieldPlot

namespace Binary64

open Float.Model UnpackedFloat

variable {x y : Float} {n n' : Nat} {k : ℤ}

theorem finite_of_pack {u : UnpackedFloat}
    (finite : (Float.ofModel (Float.Model.pack u)).isFinite = true) : u.isFinite = true := by
  by_contra special
  have unpacked : (Float.Model.pack u).unpack = u := by
    apply unpack_pack_of_not_finite
    rintro sign m e positive rfl
    contradiction
  change (Float.Model.pack u).unpack.isFinite = true at finite
  rw [unpacked] at finite
  contradiction

theorem finite_of_add (finite : (x + y).isFinite = true) :
    x.isFinite = true ∧ y.isFinite = true := by
  have operands (u v : UnpackedFloat)
      (finite : (UnpackedFloat.add Format.binary64 u v).isFinite = true) :
      u.isFinite = true ∧ v.isFinite = true := by
    rcases u with ⟨_ | _⟩ | _ | s | s <;> rcases v with ⟨_ | _⟩ | _ | s' | s' <;>
    first | exact ⟨rfl, rfl⟩ | contradiction
  exact operands _ _ (finite_of_pack finite)

theorem finite_of_div (finite : (x / y).isFinite = true) : x.isFinite = true := by
  have dividend (u v : UnpackedFloat)
      (finite : (UnpackedFloat.div Format.binary64 u v).isFinite = true) : u.isFinite = true := by
    rcases u with s | _ | s | s <;> rcases v with s' | _ | s' | s' <;> first | rfl | contradiction
  exact dividend _ _ (finite_of_pack finite)

theorem RoundsTo.abs_within {q b : ℚ} (rounds : RoundsTo q x) (grid : OnGrid b) (below : b < limit)
    (le : |q| ≤ b) : x.isFinite = true ∧ |value x| ≤ b := by
  obtain ⟨lower, upper⟩ := abs_le.mp le
  obtain ⟨finite, least, most⟩ :=
    rounds.within grid.neg grid (neg_lt_neg below) below lower upper
  exact ⟨finite, abs_le.mpr ⟨least, most⟩⟩

theorem one_le_ofNat (some : n ≠ 0) (short : n ≤ 2 ^ 64) :
    (Float.ofNat n).isFinite = true ∧ 1 ≤ value (Float.ofNat n) := by
  have grid : OnGrid (2 ^ (64 : ℤ)) := ⟨1, 64, by norm_num, by decide, by simp⟩
  have below : (2 : ℚ) ^ (64 : ℤ) < limit := by
    rw [limit_eq (show (64 : ℤ) + 960 = 1024 from rfl)]
    exact lt_mul_of_one_lt_right (by positivity) (one_lt_zpow₀ one_lt_two (by decide))
  have lower : (1 : ℚ) ≤ n := by exact_mod_cast Nat.one_le_iff_ne_zero.mpr some
  have upper : (n : ℚ) ≤ 2 ^ (64 : ℤ) := by exact_mod_cast short
  obtain ⟨finite, least, -⟩ := (roundsTo_ofNat n).within onGrid_one grid
    (by linarith [limit_pos]) below lower upper
  exact ⟨finite, least⟩

theorem finite_div_ofNat_iff (some : n ≠ 0) (short : n ≤ 2 ^ 64) :
    (x / Float.ofNat n).isFinite = true ↔ x.isFinite = true := by
  refine ⟨finite_of_div, fun finite => ?_⟩
  obtain ⟨count, least⟩ := one_le_ofNat some short
  have positive : 0 < value (Float.ofNat n) := one_pos.trans_le least
  have size : |value x / value (Float.ofNat n)| ≤ |value x| := by
    rw [abs_div, abs_of_pos positive]
    exact div_le_self (abs_nonneg _) least
  have grid : OnGrid |value x| := by
    rcases abs_choice (value x) with same | same <;> rw [same]
    · exact onGrid_value finite
    · exact (onGrid_value finite).neg
  exact ((roundsTo_div finite count positive.ne').abs_within grid (abs_value_lt finite) size).1

/-- Room for the sum of `n` numbers up to `2 ^ k`: the bounds of all such sums are on the grid, and in
    range. -/
structure Room (n : Nat) (k : ℤ) : Prop where
  least : -1074 ≤ k
  few : n ≤ 2 ^ 53
  small : (n : ℚ) * 2 ^ k < limit

theorem Room.mono (room : Room n k) (le : n' ≤ n) : Room n' k where
  least := room.least
  few := le.trans room.few
  small := by
    have order : (n' : ℚ) ≤ n := by exact_mod_cast le
    calc (n' : ℚ) * 2 ^ k ≤ n * 2 ^ k := by gcongr
      _ < limit := room.small

theorem Room.onGrid (room : Room n k) : OnGrid (n * 2 ^ k) := by
  refine ⟨n, k, ?_, room.least, by simp⟩
  rw [Nat.abs_cast]
  exact_mod_cast room.few

structure Bounded (n : Nat) (k : ℤ) (x : Float) : Prop where
  finite : x.isFinite = true
  size : |value x| ≤ n * 2 ^ k

theorem bounded_zero (k : ℤ) : Bounded 0 k 0 := by
  obtain ⟨finite, zero⟩ := value_zero
  exact ⟨finite, by simp [zero]⟩

theorem Bounded.mono (bounded : Bounded n k x) (le : n ≤ n') : Bounded n' k x where
  finite := bounded.finite
  size := by
    have order : (n : ℚ) ≤ n' := by exact_mod_cast le
    calc |value x| ≤ n * 2 ^ k := bounded.size
      _ ≤ n' * 2 ^ k := by gcongr

theorem Bounded.add (left : Bounded n k x) (right : Bounded n' k y) (room : Room (n + n') k) :
    Bounded (n + n') k (x + y) := by
  have size : |value x + value y| ≤ (n + n' : Nat) * 2 ^ k := by
    calc |value x + value y| ≤ |value x| + |value y| := abs_add_le _ _
      _ ≤ n * 2 ^ k + n' * 2 ^ k := add_le_add left.size right.size
      _ = (n + n' : Nat) * 2 ^ k := by push_cast; ring
  have rounds := roundsTo_add left.finite right.finite
  obtain ⟨finite, within⟩ := rounds.abs_within room.onGrid room.small size
  exact ⟨finite, within⟩

theorem Bounded.div (bounded : Bounded n k x) (room : Room n k) (some : n ≠ 0) :
    Bounded 1 k (x / Float.ofNat n) := by
  obtain ⟨count, same⟩ := value_ofNat room.few
  have positive : (0 : ℚ) < n := by exact_mod_cast Nat.pos_of_ne_zero some
  have one := room.mono (Nat.one_le_iff_ne_zero.mpr some)
  have size : |value x / value (Float.ofNat n)| ≤ (1 : Nat) * 2 ^ k := by
    rw [same, abs_div, abs_of_pos positive, div_le_iff₀ positive]
    calc |value x| ≤ n * 2 ^ k := bounded.size
      _ = (1 : Nat) * 2 ^ k * n := by push_cast; ring
  have rounds := roundsTo_div bounded.finite count (same ▸ positive.ne')
  obtain ⟨finite, within⟩ := rounds.abs_within one.onGrid one.small size
  exact ⟨finite, within⟩

end Binary64

namespace LaneRule

open Binary64

variable {lane : List Float} {k : ℤ}

theorem finite_of_foldl {x : Float} (finite : (lane.foldl (· + ·) x).isFinite = true) :
    x.isFinite = true ∧ ∀ v ∈ lane, v.isFinite = true := by
  induction lane generalizing x with
  | nil => exact ⟨finite, by simp⟩
  | cons v lane ih =>
    obtain ⟨sum, rest⟩ := ih finite
    obtain ⟨start, first⟩ := finite_of_add sum
    exact ⟨start, List.forall_mem_cons.mpr ⟨first, rest⟩⟩

theorem finite_of_partedSum {p0 p1 p2 p3 p4 p5 p6 p7 : Float}
    (finite : (partedSum p0 p1 p2 p3 p4 p5 p6 p7 lane).isFinite = true) :
    (∀ p ∈ [p0, p1, p2, p3, p4, p5, p6, p7], p.isFinite = true) ∧
      ∀ v ∈ lane, v.isFinite = true := by
  fun_induction partedSum p0 p1 p2 p3 p4 p5 p6 p7 lane with
  | case1 p0 p1 p2 p3 p4 p5 p6 p7 a b c d e f g h rest ih =>
    obtain ⟨sums, others⟩ := ih finite
    simp only [List.forall_mem_cons] at sums ⊢
    obtain ⟨s0, s1, s2, s3, s4, s5, s6, s7, none⟩ := sums
    obtain ⟨⟨f0, fa⟩, f1, fb⟩ := And.intro (finite_of_add s0) (finite_of_add s1)
    obtain ⟨⟨f2, fc⟩, f3, fd⟩ := And.intro (finite_of_add s2) (finite_of_add s3)
    obtain ⟨⟨f4, fe⟩, f5, ff⟩ := And.intro (finite_of_add s4) (finite_of_add s5)
    obtain ⟨⟨f6, fg⟩, f7, fh⟩ := And.intro (finite_of_add s6) (finite_of_add s7)
    exact ⟨⟨f0, f1, f2, f3, f4, f5, f6, f7, none⟩, fa, fb, fc, fd, fe, ff, fg, fh, others⟩
  | case2 p0 p1 p2 p3 p4 p5 p6 p7 rest =>
    obtain ⟨total, others⟩ := finite_of_foldl finite
    obtain ⟨total, last⟩ := finite_of_add total
    obtain ⟨total, third⟩ := finite_of_add total
    obtain ⟨total, second⟩ := finite_of_add total
    obtain ⟨-, first⟩ := finite_of_add total
    obtain ⟨⟨f0, f4⟩, f1, f5⟩ := And.intro (finite_of_add first) (finite_of_add second)
    obtain ⟨⟨f2, f6⟩, f3, f7⟩ := And.intro (finite_of_add third) (finite_of_add last)
    simp only [List.forall_mem_cons]
    exact ⟨⟨f0, f1, f2, f3, f4, f5, f6, f7, by simp⟩, others⟩

theorem finite_of_sum {contiguous : Bool} (finite : (sum contiguous lane).isFinite = true) :
    ∀ v ∈ lane, v.isFinite = true := by
  cases contiguous with
  | true => exact (finite_of_partedSum finite).2
  | false => exact (finite_of_foldl finite).2

theorem bounded_foldl {n : Nat} {x : Float} (start : Bounded n k x)
    (all : ∀ v ∈ lane, Bounded 1 k v) (room : Room (n + lane.length) k) :
    Bounded (n + lane.length) k (lane.foldl (· + ·) x) := by
  induction lane generalizing n x with
  | nil => exact start
  | cons v lane ih =>
    obtain ⟨first, rest⟩ := List.forall_mem_cons.mp all
    have count : n + (v :: lane).length = n + 1 + lane.length := by
      rw [List.length_cons]
      omega
    rw [count] at room ⊢
    exact ih (start.add first (room.mono (Nat.le_add_right _ _))) rest room

/-- Each of the eight parts is a sum of as many values as the others are. -/
theorem bounded_partedSum {n : Nat} {p0 p1 p2 p3 p4 p5 p6 p7 : Float}
    (start : ∀ p ∈ [p0, p1, p2, p3, p4, p5, p6, p7], Bounded n k p)
    (all : ∀ v ∈ lane, Bounded 1 k v) (room : Room (8 * n + lane.length) k) :
    Bounded (8 * n + lane.length) k (partedSum p0 p1 p2 p3 p4 p5 p6 p7 lane) := by
  fun_induction partedSum p0 p1 p2 p3 p4 p5 p6 p7 lane generalizing n with
  | case1 p0 p1 p2 p3 p4 p5 p6 p7 a b c d e f g h rest ih =>
    have count : 8 * n + (a :: b :: c :: d :: e :: f :: g :: h :: rest).length =
        8 * (n + 1) + rest.length := by
      simp only [List.length_cons]
      omega
    rw [count] at room ⊢
    have more := room.mono (show n + 1 ≤ 8 * (n + 1) + rest.length by omega)
    simp only [List.forall_mem_cons] at start all
    obtain ⟨f0, f1, f2, f3, f4, f5, f6, f7, -⟩ := start
    obtain ⟨fa, fb, fc, fd, fe, ff, fg, fh, others⟩ := all
    refine ih ?_ others room
    simp only [List.forall_mem_cons]
    exact ⟨f0.add fa more, f1.add fb more, f2.add fc more, f3.add fd more, f4.add fe more,
      f5.add ff more, f6.add fg more, f7.add fh more, by simp⟩
  | case2 p0 p1 p2 p3 p4 p5 p6 p7 rest =>
    have part {m : Nat} (le : m ≤ 8 * n) : Room m k := room.mono (by omega)
    simp only [List.forall_mem_cons] at start
    obtain ⟨f0, f1, f2, f3, f4, f5, f6, f7, -⟩ := start
    have first := (bounded_zero k).add (f0.add f4 (part (by omega))) (part (by omega))
    have second := first.add (f1.add f5 (part (by omega))) (part (by omega))
    have third := second.add (f2.add f6 (part (by omega))) (part (by omega))
    have total := third.add (f3.add f7 (part (by omega))) (part (by omega))
    exact bounded_foldl (total.mono (by omega)) all room

theorem bounded_sum {contiguous : Bool} (all : ∀ v ∈ lane, Bounded 1 k v)
    (room : Room lane.length k) : Bounded lane.length k (sum contiguous lane) := by
  cases contiguous with
  | true =>
    have start : ∀ p ∈ List.replicate 8 (0 : Float), Bounded 0 k p := by
      intro p member
      rw [List.eq_of_mem_replicate member]
      exact bounded_zero k
    have bounded := bounded_partedSum start all (by simpa using room)
    rwa [Nat.mul_zero, Nat.zero_add] at bounded
  | false =>
    have bounded := bounded_foldl (bounded_zero k) all (by simpa using room)
    rwa [Nat.zero_add] at bounded

theorem bounded_average {contiguous : Bool} (all : ∀ v ∈ lane, Bounded 1 k v)
    (room : Room lane.length k) (some : lane.length ≠ 0) :
    Bounded 1 k (average Float.ofNat contiguous lane) :=
  (bounded_sum all room).div room some

end LaneRule

namespace Declared

open Binary64

variable {extents axes kept : List Nat} {v : Declared Float} {c : Nat → Nat} {axis : Nat}

/-- Coordinates whose values go into a cell when these axes collapse. -/
def Enters (extents axes : List Nat) (c d : Nat → Nat) : Prop :=
  Inside extents axes d ∧ ∀ j, j ∉ axes → d j = c j

/-- Every sum on the way to a cell is finite: the sum of each lane of each axis that collapses, where
    the axes before it are averaged and the axes after it still have their coordinates. -/
def SumsFinite (extents axes : List Nat) (v : Declared Float) (c : Nat → Nat) : Prop :=
  ∀ before axis after, axes = before ++ axis :: after → ∀ d, Enters extents after c d →
    ((v.collapseAll Aggregation.average.rule extents before).collapse Aggregation.sum.rule extents
      axis d).isFinite = true

theorem enters_nil {d : Nat → Nat} : Enters extents [] c d ↔ d = c := by
  simp [Enters, Inside, funext_iff]

theorem sumsFinite_cons : SumsFinite extents (axis :: axes) v c ↔
    (∀ d, Enters extents axes c d →
      (v.collapse Aggregation.sum.rule extents axis d).isFinite = true) ∧
    SumsFinite extents axes (v.collapse Aggregation.average.rule extents axis) c := by
  constructor
  · intro finite
    refine ⟨finite [] axis axes rfl, fun before next after parts => ?_⟩
    exact finite (axis :: before) next after (congrArg (axis :: ·) parts)
  · rintro ⟨here, later⟩ before next after parts
    rcases List.cons_eq_append_iff.mp parts with ⟨rfl, same⟩ | ⟨before, rfl, same⟩
    · obtain ⟨rfl, rfl⟩ := List.cons.inj same
      exact here
    · exact later before next after same

/-- Of a lane that is neither empty nor longer than any array the average is finite where the sum is. -/
theorem collapse_average_finite_iff (some : extents.getD axis 0 ≠ 0)
    (short : extents.getD axis 0 ≤ 2 ^ 64) :
    (v.collapse Aggregation.average.rule extents axis c).isFinite = true ↔
      (v.collapse Aggregation.sum.rule extents axis c).isFinite = true := by
  have long (lane : List Float) (length : lane.length = extents.getD axis 0) :
      (LaneRule.average Float.ofNat (axis == 0) lane).isFinite = true ↔
        (LaneRule.sum (axis == 0) lane).isFinite = true := by
    rw [LaneRule.average, length]
    exact finite_div_ofNat_iff some short
  exact long _ (by simp)

theorem finite_of_collapse {d : Nat → Nat} (enters : Enters extents (axis :: axes) c d)
    (finite : (v.collapse Aggregation.sum.rule extents axis
      (Function.update d axis (c axis))).isFinite = true) : (v d).isFinite = true := by
  have inside := enters.1 axis List.mem_cons_self
  have all := LaneRule.finite_of_sum finite
  refine all _ (List.mem_map.mpr ⟨d axis, List.mem_range.mpr inside, ?_⟩)
  rw [Function.update_idem, Function.update_eq_self]

theorem Enters.update (new : axis ∉ axes) {d : Nat → Nat}
    (enters : Enters extents (axis :: axes) c d) :
    Enters extents axes c (Function.update d axis (c axis)) := by
  constructor
  · intro j member
    have other : j ≠ axis := fun same => new (same ▸ member)
    rw [Function.update_of_ne other]
    exact enters.1 j (List.mem_cons_of_mem _ member)
  · intro j gone
    by_cases same : j = axis
    · rw [same, Function.update_self]
    · rw [Function.update_of_ne same]
      exact enters.2 j (by simp [same, gone])

theorem collapseAll_average_finite_iff (distinct : axes.Nodup)
    (lengths : ∀ j ∈ axes, extents.getD j 0 ≠ 0 ∧ extents.getD j 0 ≤ 2 ^ 64) :
    (v.collapseAll Aggregation.average.rule extents axes c).isFinite = true ↔
      (∀ d, Enters extents axes c d → (v d).isFinite = true) ∧ SumsFinite extents axes v c := by
  -- The first axis collapses first, so the values change under the induction.
  induction axes generalizing v with
  | nil => simp [enters_nil, SumsFinite, collapseAll]
  | cons axis axes ih =>
    obtain ⟨new, rest⟩ := List.nodup_cons.mp distinct
    obtain ⟨⟨some, short⟩, others⟩ := List.forall_mem_cons.mp lengths
    rw [collapseAll_cons, ih rest others, sumsFinite_cons]
    simp only [collapse_average_finite_iff some short]
    refine (and_iff_right_of_imp ?_).symm
    rintro ⟨sums, -⟩ d enters
    exact finite_of_collapse enters (sums _ (enters.update new))

theorem collapse_average_bounded {k : ℤ} (all : ∀ c, Bounded 1 k (v c))
    (room : Room (extents.getD axis 0) k) (some : extents.getD axis 0 ≠ 0) (c : Nat → Nat) :
    Bounded 1 k (v.collapse Aggregation.average.rule extents axis c) := by
  apply LaneRule.bounded_average
  · intro y member
    obtain ⟨x, -, rfl⟩ := List.mem_map.mp member
    exact all _
  · simpa using room
  · simpa using some

theorem collapseAll_average_bounded {k : ℤ} (all : ∀ c, Bounded 1 k (v c))
    (room : ∀ j ∈ axes, Room (extents.getD j 0) k) (some : ∀ j ∈ axes, extents.getD j 0 ≠ 0)
    (c : Nat → Nat) : Bounded 1 k (v.collapseAll Aggregation.average.rule extents axes c) := by
  induction axes generalizing v with
  | nil => exact all c
  | cons axis axes ih =>
    obtain ⟨here, rest⟩ := List.forall_mem_cons.mp room
    obtain ⟨long, others⟩ := List.forall_mem_cons.mp some
    exact ih (collapse_average_bounded all here long) rest others

/-- Beyond its last value a frame counts as zero. -/
theorem ofFrame_induction {P : Float → Prop} {frame : List Float} (zero : P 0)
    (all : ∀ y ∈ frame, P y) (c : Nat → Nat) : P (ofFrame extents frame c) := by
  rw [ofFrame, List.getD_eq_getElem?_getD]
  cases found : frame[place extents c]? with
  | none => exact zero
  | some y => exact all y (List.mem_of_getElem? found)

end Declared

theorem Header.extent_bounds (h : Header) (addressable : Word.Addressable h.arrayShape)
    (nonzero : ∀ e ∈ h.extents, e ≠ 0) {axis : Nat} (declared : axis < h.rank) :
    h.extents.getD axis 0 ≠ 0 ∧ h.extents.getD axis 0 ≤ 2 ^ 64 := by
  have filled : h.extents.prod ≠ 0 := List.prod_ne_zero fun zero => nonzero 0 zero rfl
  constructor
  · rw [List.getD_eq_getElem _ _ declared]
    exact nonzero _ (List.getElem_mem declared)
  · calc h.extents.getD axis 0 ≤ h.extents.prod := h.extent_le_prod declared filled
      _ ≤ Word.arrayLimit := h.prod_le_of_addressable addressable
      _ ≤ 2 ^ 64 := by decide

namespace Projection

open Binary64

/-- A cell that averages finite numbers over all axes but the kept ones. It is finite just where every
    sum on the way to it is. That is so where there is room for the sums, and then the cell is not
    larger than the values are. -/
structure FiniteWhereSummed (h : Header) (kept : List Nat) (frame : List Float) (c : Nat → Nat)
    (y : Float) : Prop where
  finite_iff : y.isFinite = true ↔ Declared.SumsFinite h.extents
    (Declared.others h.rank kept) (Declared.ofFrame h.extents frame) c
  bounded : ∀ k : ℤ, (∀ v ∈ frame, |value v| ≤ 2 ^ k) →
    (∀ j < h.rank, j ∉ kept → Room (h.extents.getD j 0) k) → y.isFinite = true ∧ |value y| ≤ 2 ^ k

theorem finiteWhereSummed {h : Header} (addressable : Word.Addressable h.arrayShape)
    (nonzero : ∀ e ∈ h.extents, e ≠ 0) {frame : List Float}
    (finite : ∀ v ∈ frame, v.isFinite = true) (kept : List Nat) (c : Nat → Nat) :
    FiniteWhereSummed h kept frame c
      (Declared.project Aggregation.average.rule h.extents kept frame c) := by
  have within : ∀ j ∈ Declared.others h.rank kept, j < h.rank ∧ j ∉ kept := fun j member =>
    Declared.mem_others.mp member
  have lengths : ∀ j ∈ Declared.others h.rank kept,
      h.extents.getD j 0 ≠ 0 ∧ h.extents.getD j 0 ≤ 2 ^ 64 := fun j member =>
    h.extent_bounds addressable nonzero (within j member).1
  constructor
  · refine (Declared.collapseAll_average_finite_iff (Declared.others_nodup _ _) lengths).trans ?_
    exact and_iff_right fun d _ => Declared.ofFrame_induction (bounded_zero 0).finite finite d
  · intro k small room
    have start : ∀ d, Bounded 1 k (Declared.ofFrame h.extents frame d) :=
      Declared.ofFrame_induction ((bounded_zero k).mono (Nat.zero_le 1))
        fun v member => ⟨finite v member, by simpa using small v member⟩
    have bounded := Declared.collapseAll_average_bounded start
      (fun j member => room j (within j member).1 (within j member).2)
      (fun j member => (lengths j member).1) c
    have size := bounded.size
    rw [Nat.cast_one, one_mul] at size
    exact ⟨bounded.finite, size⟩

/-- Averages of finite frames over axes that are not empty: each cell is finite just where every sum on
    the way to it is, and so it is where the values are small beside the lengths of the axes that
    collapse. -/
theorem averages_are_finite_where_summed (h : Header) (nonzero : ∀ e ∈ h.extents, e ≠ 0) :
    (∀ (frames : List (List Float)) (axis : Axis), axis.index < h.rank →
      Word.Addressable h.arrayShape →
      Word.Addressable [frames.length, h.extents.getD axis.index 0] →
      (∀ frame ∈ frames, frame.length = h.extents.prod ∧ ∀ v ∈ frame, v.isFinite = true) →
      ∃ grid, onAxis Aggregation.average.rule h frames axis = .ok grid ∧
        grid.Meshed frames.length (h.extents.getD axis.index 0) ∧
        ∀ (s : Nat) (frame : List Float), frames[s]? = some frame →
          ∀ p < h.extents.getD axis.index 0, ∃ y, grid.cell? s p = some y ∧
            FiniteWhereSummed h [axis.index] frame (fun _ => p) y) ∧
    (∀ (frames : List (List Float)) (step : Nat) (a b : Axis) (frame : List Float),
      Suits h frames step a b frame → (∀ v ∈ frame, v.isFinite = true) →
      ∃ plane, onPlane Aggregation.average.rule h frames step a b = .ok plane ∧
        plane.grid.Meshed (h.extents.getD (max a.index b.index) 0)
          (h.extents.getD (min a.index b.index) 0) ∧
        ∀ r q, r < h.extents.getD (max a.index b.index) 0 →
          q < h.extents.getD (min a.index b.index) 0 →
          ∃ y, plane.grid.cell? r q = some y ∧
            FiniteWhereSummed h [a.index, b.index] frame (crossing (max a.index b.index) r q) y) := by
  constructor
  · intro frames axis declared addressable room suits
    obtain ⟨grid, done, meshed, cells⟩ := onAxis_cells Aggregation.average.rule h frames addressable
      declared room fun frame member => (suits frame member).1
    refine ⟨grid, done, meshed, fun s frame found p inside => ?_⟩
    have finite := (suits frame (List.mem_of_getElem? found)).2
    exact ⟨_, cells s frame (fun _ => p) found inside,
      finiteWhereSummed addressable nonzero finite _ _⟩
  · intro frames step a b frame suits finite
    obtain ⟨plane, done, meshed, cells⟩ := onPlane_cell Aggregation.average.rule h suits
    exact ⟨plane, done, meshed, fun r q low left =>
      ⟨_, cells r q low left, finiteWhereSummed suits.addressable nonzero finite _ _⟩⟩

theorem averages_of_box_are_finite :
    (∀ e ∈ box.extents, e ≠ 0) ∧
    (∃ grid y, onAxis Aggregation.average.rule box [boxFrame] ⟨1⟩ = .ok grid ∧
      grid.cell? 0 2 = some y ∧ y.isFinite = true ∧ |value y| ≤ 2 ^ (4 : ℤ)) ∧
    Suits box [boxFrame] 0 ⟨0⟩ ⟨2⟩ boxFrame ∧
    ∃ plane y, onPlane Aggregation.average.rule box [boxFrame] 0 ⟨0⟩ ⟨2⟩ = .ok plane ∧
      plane.grid.cell? 1 1 = some y ∧ y.isFinite = true ∧ |value y| ≤ 2 ^ (4 : ℤ) := by
  have finite : ∀ v ∈ boxFrame, v.isFinite = true := by decide +kernel
  have small : ∀ v ∈ boxFrame, |value v| ≤ 2 ^ (4 : ℤ) := by
    have all : ∀ n ∈ List.range 13, |value (Float.ofNat n)| ≤ 2 ^ (4 : ℤ) := by
      intro n member
      have few : n ≤ 12 := Nat.lt_succ_iff.mp (List.mem_range.mp member)
      rw [(value_ofNat (by omega)).2, Nat.abs_cast]
      exact (Nat.cast_le.mpr few).trans (by norm_num)
    have numbered : boxFrame = (List.range 12).map fun n => Float.ofNat (n + 1) := rfl
    rw [numbered, List.forall_mem_map]
    exact fun n member => all _ (List.mem_range.mpr (Nat.succ_lt_succ (List.mem_range.mp member)))
  have room : ∀ n ≤ 3, Room n 4 := by
    intro n few
    refine ⟨by decide, by omega, ?_⟩
    have size : (n : ℚ) * 2 ^ (4 : ℤ) = (n * 2 ^ 4 : Nat) := by push_cast; rfl
    rw [size]
    exact natCast_lt_limit (by omega)
  have short : ∀ j < box.rank, box.extents.getD j 0 ≤ 3 := by decide
  have suits : Suits box [boxFrame] 0 ⟨0⟩ ⟨2⟩ boxFrame :=
    ⟨by decide, by decide, by decide, rfl, by decide, by decide⟩
  obtain ⟨onOne, onTwo⟩ := averages_are_finite_where_summed box (by decide)
  refine ⟨by decide, ?_, suits, ?_⟩
  · obtain ⟨grid, done, -, cells⟩ := onOne [boxFrame] ⟨1⟩ (by decide) (by decide)
      (by decide) (List.forall_mem_singleton.mpr ⟨rfl, finite⟩)
    obtain ⟨y, cell, shows⟩ := cells 0 boxFrame rfl 2 (by decide)
    exact ⟨grid, y, done, cell, shows.bounded 4 small fun j declared _ => room _ (short j declared)⟩
  · obtain ⟨plane, done, -, cells⟩ := onTwo [boxFrame] 0 ⟨0⟩ ⟨2⟩ boxFrame suits finite
    obtain ⟨y, cell, shows⟩ := cells 1 1 (by decide) (by decide)
    exact ⟨plane, y, done, cell, shows.bounded 4 small fun j declared _ => room _ (short j declared)⟩

def largePair : List Float := [1e308, 1e308]

theorem average_of_largePair_is_infinite :
    (∀ e ∈ [1, 2], e ≠ 0) ∧ largePair.length = [1, 2].prod ∧
    (∀ v ∈ largePair, v.isFinite = true) ∧
    ∃ grid y, onAxis Aggregation.average.rule (Header.ofExtents [1, 2]) [largePair] ⟨0⟩ = .ok grid ∧
      grid.cell? 0 0 = some y ∧ y.isFinite = false := by
  have finite : ∀ v ∈ largePair, v.isFinite = true := by decide +kernel
  have infinite : (Declared.project Aggregation.average.rule [1, 2] [0] largePair
      fun _ => 0).isFinite = false := by decide +kernel
  have declared : Axis.index ⟨0⟩ < (Header.ofExtents [1, 2]).rank := by decide
  obtain ⟨grid, done, -, cells⟩ := onAxis_cells Aggregation.average.rule (Header.ofExtents [1, 2])
    [largePair] (by decide) declared (by decide) (by decide)
  exact ⟨by decide, rfl, finite, grid, _, done, cells 0 largePair (fun _ => 0) rfl (by decide),
    infinite⟩

end Projection
end FieldPlot
