import FieldPlot.Proofs.NumberOrder

/-!
What becomes of a lane. Each method has a value that is read off the lane as a whole: a sum with its
order of additions, that sum divided by the length, or the first of the greatest values. The rules,
which go through the lane once, give this value (`rule_eq_value`).
-/
namespace FieldPlot

namespace LaneRule

section Sums

variable {α : Type} [Add α] [OfNat α 0]

/-- The values at one place in the full groups of eight, added up group by group. -/
def everyEighth (start : α) (lane : List α) (i : Nat) : α :=
  (List.range (lane.length / 8)).foldl (fun part g => part + lane.getD (8 * g + i) 0) start

def paired (p0 p1 p2 p3 p4 p5 p6 p7 : α) : α :=
  0 + (p0 + p4) + (p1 + p5) + (p2 + p6) + (p3 + p7)

/-- A contiguous lane is added up in eight parts, which are paired, and then the rest; any other lane
    from its first value on. -/
def summed : LaneRule α
  | true, lane =>
    let part := everyEighth 0 lane
    (lane.drop (8 * (lane.length / 8))).foldl (· + ·)
      (paired (part 0) (part 1) (part 2) (part 3) (part 4) (part 5) (part 6) (part 7))
  | false, lane => lane.foldl (· + ·) 0

theorem everyEighth_append (start : α) (group rest : List α) (i : Nat) (eight : group.length = 8)
    (inside : i < 8) :
    everyEighth start (group ++ rest) i = everyEighth (start + group.getD i 0) rest i := by
  have groups : (group ++ rest).length / 8 = rest.length / 8 + 1 := by
    rw [List.length_append, eight]
    omega
  have first : (group ++ rest).getD (8 * 0 + i) 0 = group.getD i 0 := by
    rw [Nat.mul_zero, Nat.zero_add, List.getD_append group rest 0 i (eight ▸ inside)]
  have further : ∀ g, (group ++ rest).getD (8 * (g + 1) + i) 0 = rest.getD (8 * g + i) 0 := by
    intro g
    have behind : 8 * (g + 1) + i - group.length = 8 * g + i := by omega
    rw [List.getD_append_right group rest 0 _ (by omega), behind]
  rw [everyEighth, groups, List.range_succ_eq_map, List.foldl_cons, List.foldl_map, first]
  simp only [Nat.succ_eq_add_one, further]
  rfl

theorem everyEighth_of_short (start : α) {lane : List α} (short : lane.length < 8) (i : Nat) :
    everyEighth start lane i = start := by
  rw [everyEighth, Nat.div_eq_of_lt short]
  rfl

omit [Add α] [OfNat α 0] in
theorem short_of_no_group {lane : List α}
    (none : ∀ a b c d e f g h rest, lane = a :: b :: c :: d :: e :: f :: g :: h :: rest → False) :
    lane.length < 8 := by
  match lane with
  | [] | [_] | [_, _] | [_, _, _] | [_, _, _, _] | [_, _, _, _, _] | [_, _, _, _, _, _]
  | [_, _, _, _, _, _, _] => simp
  | a :: b :: c :: d :: e :: f :: g :: h :: rest => exact (none a b c d e f g h rest rfl).elim

/-- The parts that take turns are the sums of every eighth value. -/
theorem partedSum_eq_parts (p0 p1 p2 p3 p4 p5 p6 p7 : α) (lane : List α) :
    partedSum p0 p1 p2 p3 p4 p5 p6 p7 lane =
      (lane.drop (8 * (lane.length / 8))).foldl (· + ·)
        (paired (everyEighth p0 lane 0) (everyEighth p1 lane 1) (everyEighth p2 lane 2)
          (everyEighth p3 lane 3) (everyEighth p4 lane 4) (everyEighth p5 lane 5)
          (everyEighth p6 lane 6) (everyEighth p7 lane 7)) := by
  fun_induction partedSum p0 p1 p2 p3 p4 p5 p6 p7 lane with
  | case1 p0 p1 p2 p3 p4 p5 p6 p7 a b c d e f g h rest ih =>
    have turn : ∀ start i, i < 8 → everyEighth start (a :: b :: c :: d :: e :: f :: g :: h :: rest) i =
        everyEighth (start + [a, b, c, d, e, f, g, h].getD i 0) rest i := fun start i =>
      everyEighth_append start [a, b, c, d, e, f, g, h] rest i rfl
    have groups : (a :: b :: c :: d :: e :: f :: g :: h :: rest).length / 8 =
        rest.length / 8 + 1 := by
      simp only [List.length_cons]
      omega
    rw [ih, groups, Nat.mul_succ, turn p0 0 (by decide), turn p1 1 (by decide),
      turn p2 2 (by decide), turn p3 3 (by decide), turn p4 4 (by decide), turn p5 5 (by decide),
      turn p6 6 (by decide), turn p7 7 (by decide)]
    rfl
  | case2 p0 p1 p2 p3 p4 p5 p6 p7 rest none =>
    have short := short_of_no_group none
    simp only [everyEighth_of_short _ short, Nat.div_eq_of_lt short]
    rfl

theorem sum_eq_summed (contiguous : Bool) (lane : List α) :
    sum contiguous lane = summed contiguous lane := by
  cases contiguous with
  | true => exact partedSum_eq_parts 0 0 0 0 0 0 0 0 lane
  | false => rfl

end Sums

section Greatest

variable {α : Type} [LE α] [DecidableLE α] {isNone : α → Bool} {least : α}

def topped (values : List α) (v : α) : Bool :=
  values.all (· ≤ v)

/-- The first value that is no number, or else the first that is above all values. -/
def greatest (isNone : α → Bool) (least : α) (values : List α) : α :=
  ((values.find? isNone).or (values.find? (topped values))).getD least

theorem greatest_of_none {a : α} (none : isNone a = true) (values : List α) :
    greatest isNone least (a :: values) = a := by
  rw [greatest, List.find?_cons_of_pos none]
  rfl

variable (order : NumberOrder isNone least)
include order

theorem greatest_singleton (a : α) : greatest isNone least [a] = a := by
  cases none : isNone a with
  | true => exact greatest_of_none none []
  | false =>
    have self : a ≤ a := (order.total a a none none).elim id id
    simp [greatest, topped, none, self]

theorem topped_of_le {values : List α} {a b : α} (top : topped values b = true) (below : b ≤ a) :
    topped values a = true := by
  simp only [topped, List.all_eq_true, decide_eq_true_eq] at top ⊢
  exact fun v member => order.trans v b a (top v member) below

theorem topped_cons_of_le {values : List α} {low high : α} (below : low ≤ high)
    (member : high ∈ values) : topped (low :: values) = topped values := by
  funext v
  refine Bool.and_eq_right_iff_imp.mpr fun top => ?_
  have above : high ≤ v := by simpa using List.all_eq_true.mp top high member
  exact decide_eq_true (order.trans low high v below above)

/-- Of two values in front the larger one is enough. -/
theorem greatest_larger (a b : α) (values : List α) :
    greatest isNone least (a :: b :: values) =
      greatest isNone least (larger isNone a b :: values) := by
  cases none : isNone a with
  | true =>
    have stays : larger isNone a b = a := if_pos (.inl none)
    rw [stays, greatest_of_none none, greatest_of_none none]
  | false =>
    by_cases below : b ≤ a
    · have stays : larger isNone a b = a := if_pos (.inr below)
      have number : isNone b = false := order.number_left b a below
      have tops : topped (a :: b :: values) = topped (a :: values) := by
        have swapped : topped (a :: b :: values) = topped (b :: a :: values) :=
          funext fun v => Bool.and_left_comm _ _ _
        rw [swapped, topped_cons_of_le order below List.mem_cons_self]
      rw [stays, greatest, greatest, tops]
      cases top : topped (a :: values) a with
      | true => simp [none, number, top]
      | false =>
        -- What is above all values is above `a`, and so `a` would be above them too.
        have beyond : topped (a :: values) b = false := by
          rw [Bool.eq_false_iff] at top ⊢
          exact fun high => top (topped_of_le order high below)
        simp [none, number, top, beyond]
    · have moves : larger isNone a b = b := if_neg (by simp [none, below])
      rw [moves]
      cases none' : isNone b with
      | true =>
        rw [greatest_of_none none']
        simp [greatest, none, none']
      | false =>
        have less : a ≤ b := (order.total a b none none').resolve_right below
        have beyond : topped (b :: values) a = false := by simp [topped, below]
        rw [greatest, greatest, topped_cons_of_le order less List.mem_cons_self]
        simp [none, beyond]

theorem foldl_larger_eq (a : α) (lane : List α) :
    lane.foldl (larger isNone) a = greatest isNone least (a :: lane) := by
  induction lane generalizing a with
  | nil => exact (greatest_singleton order a).symm
  | cons b lane ih => rw [List.foldl_cons, ih, greatest_larger order]

end Greatest

end LaneRule

def Aggregation.value : Aggregation → LaneRule Float
  | sum, contiguous, lane => LaneRule.summed contiguous lane
  | average, contiguous, lane => LaneRule.summed contiguous lane / Float.ofNat lane.length
  | maximum, _, lane => LaneRule.greatest Float.isNaN (-(1 / 0)) (-(1 / 0) :: lane)

theorem Aggregation.rule_eq_value (m : Aggregation) : m.rule = m.value := by
  funext contiguous lane
  cases m with
  | sum => exact LaneRule.sum_eq_summed contiguous lane
  | average => exact congrArg (· / Float.ofNat lane.length) (LaneRule.sum_eq_summed contiguous lane)
  | maximum => exact LaneRule.foldl_larger_eq Binary64.numberOrder _ lane

end FieldPlot
