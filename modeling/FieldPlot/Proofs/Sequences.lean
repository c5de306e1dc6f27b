import FieldPlot.Proofs.Refusals
import FieldPlot.Proofs.Sizes

/-!
Sequences of snapshots. A sequence answers with the snapshots of its places in order, or with the
error of the first that fails. Steps are counts of 64 bits: where a sequence reaches a step
`start + place * stride` of unbounded arithmetic that is beyond the largest count, the program halts
instead of refusing the step. That can only be so for strides that come close to the largest count.
-/
namespace FieldPlot

namespace Recording

variable {r : Recording} {q : Request}

/-- In a sequence a snapshot is the same but for its mode. -/
theorem snapshotIn_eq_map (r : Recording) (q : Request) (mode : Mode) (step : Nat) :
    r.snapshotIn mode q step = (r.snapshot q step).map fun f => { f with mode := mode } := by
  rw [snapshot]
  cases found : r.frames[step]? with
  | none =>
    have late := List.getElem?_eq_none_iff.mp found
    rw [snapshotIn_of_late mode late, snapshotIn_of_late .snapshot late]
    rfl
  | some frame =>
    by_cases asked : q.style = .image
    · rw [snapshotIn_of_image mode asked found, snapshotIn_of_image .snapshot asked found]
      cases Image.decode r.header frame with
      | error cause => rfl
      | ok picture => rfl
    · rw [snapshotIn_of_plotted mode asked found, snapshotIn_of_plotted .snapshot asked found]
      cases r.snapshotLayout q step frame with
      | error cause => rfl
      | ok layout => rfl

structure Made (shot : Nat → Except Error Figure) (count : Nat)
    (answer : Except Error (List Figure)) : Prop where
  succeeds : (∃ figures, answer = .ok figures) ↔ ∀ place < count, ∃ f, shot place = .ok f
  figures : ∀ figures, answer = .ok figures → figures.length = count ∧
    ∀ place < count, ∃ f, shot place = .ok f ∧ figures[place]? = some { f with mode := .sequence }

structure InOrder (shot : Nat → Except Error Figure) (count : Nat)
    (answer : Except Error (List Figure)) : Prop extends Made shot count answer where
  refused : ∀ cause, answer = .error cause ↔
    ∃ place < count, shot place = .error cause ∧ ∀ before < place, ∃ f, shot before = .ok f

namespace InOrder

variable {shot : Nat → Except Error Figure} {count : Nat}

theorem nil (shot : Nat → Except Error Figure) : InOrder shot 0 (.ok []) where
  succeeds := iff_of_true ⟨[], rfl⟩ nofun
  figures := by
    rintro _ ⟨⟩
    exact ⟨rfl, nofun⟩
  refused := by
    intro cause
    exact iff_of_false nofun nofun

theorem of_error {cause : Error} (fails : shot 0 = .error cause) :
    InOrder shot (count + 1) (.error cause) where
  succeeds := by
    refine iff_of_false nofun fun all => ?_
    obtain ⟨f, done⟩ := all 0 (Nat.succ_pos count)
    rw [fails] at done
    contradiction
  figures := nofun
  refused := by
    intro other
    constructor
    · rintro ⟨⟩
      exact ⟨0, Nat.succ_pos count, fails, nofun⟩
    · rintro ⟨place, bound, fails', fine⟩
      cases place with
      | zero => exact congrArg Except.error (Except.error.inj (fails.symm.trans fails'))
      | succ place =>
        obtain ⟨f, done⟩ := fine 0 (Nat.succ_pos place)
        rw [fails] at done
        contradiction

theorem cons {f : Figure} {answer : Except Error (List Figure)} (done : shot 0 = .ok f)
    (rest : InOrder (fun place => shot (place + 1)) count answer) :
    InOrder shot (count + 1) (answer.map ({ f with mode := .sequence } :: ·)) where
  succeeds := by
    rw [Nat.forall_lt_succ_left]
    cases answer with
    | error cause =>
      refine iff_of_false nofun fun ⟨_, all⟩ => ?_
      obtain ⟨_, made⟩ := rest.succeeds.mpr all
      contradiction
    | ok figures => exact iff_of_true ⟨_, rfl⟩ ⟨⟨f, done⟩, rest.succeeds.mp ⟨figures, rfl⟩⟩
  figures := by
    intro figures made
    obtain ⟨further, rfl, rfl⟩ := map_eq_ok made
    obtain ⟨length, each⟩ := rest.figures further rfl
    rw [Nat.forall_lt_succ_left]
    exact ⟨congrArg Nat.succ length, ⟨f, done, rfl⟩, each⟩
  refused := by
    intro cause
    rw [Nat.exists_lt_succ_left]
    simp only [Nat.forall_lt_succ_left]
    constructor
    · intro fails
      obtain ⟨place, bound, fails, fine⟩ := (rest.refused cause).mp (map_eq_error fails)
      exact .inr ⟨place, bound, fails, ⟨f, done⟩, fine⟩
    · rintro (⟨fails, _⟩ | ⟨place, bound, fails, _, fine⟩)
      · rw [done] at fails
        contradiction
      · rw [(rest.refused cause).mpr ⟨place, bound, fails, fine⟩]
        rfl

theorem fine_iff {shot' : Nat → Except Error Figure}
    (same : ∀ place < count, (∀ before < place, ∃ f, shot' before = .ok f) →
      shot place = shot' place) (place : Nat) (bound : place ≤ count) :
    (∀ before < place, ∃ f, shot before = .ok f) ↔ ∀ before < place, ∃ f, shot' before = .ok f := by
  induction place with
  | zero => exact iff_of_true nofun nofun
  | succ place ih =>
    rw [Nat.forall_lt_succ_right, Nat.forall_lt_succ_right, ih (Nat.le_of_succ_le bound)]
    exact and_congr_right fun fine => by rw [same place bound fine]

theorem of_same {shot' : Nat → Except Error Figure} {answer : Except Error (List Figure)}
    (order : InOrder shot count answer)
    (same : ∀ place < count, (∀ before < place, ∃ f, shot' before = .ok f) →
      shot place = shot' place) : InOrder shot' count answer where
  succeeds := order.succeeds.trans (fine_iff same count le_rfl)
  figures := by
    intro figures made
    obtain ⟨length, each⟩ := order.figures figures made
    have fine := (fine_iff same count le_rfl).mp (order.succeeds.mp ⟨figures, made⟩)
    refine ⟨length, fun place bound => ?_⟩
    rw [← same place bound fun before earlier => fine before (earlier.trans bound)]
    exact each place bound
  refused := by
    intro cause
    rw [order.refused]
    refine exists_congr fun place => and_congr_right fun bound => ?_
    rw [fine_iff same place bound.le]
    refine and_congr_left fun fine => ?_
    rw [same place bound fine]

end InOrder

def shotOrHalt (r : Recording) (q : Request) (start stride place : Nat) : Except Error Figure :=
  if start + place * stride ≤ Word.limit then r.snapshot q (start + place * stride)
  else .error (.halt (if place * stride ≤ Word.limit then .sum else .product))

theorem sequenceStep_eq (start stride place : Nat) :
    sequenceStep start stride place =
      if start + place * stride ≤ Word.limit then .ok (start + place * stride)
      else .error (.halt (if place * stride ≤ Word.limit then .sum else .product)) := by
  rw [sequenceStep, Word.mul?]
  by_cases near : place * stride ≤ Word.limit
  · simp only [if_pos near, Word.add?]
    by_cases fits : start + place * stride ≤ Word.limit
    · simp only [if_pos fits]
    · simp only [if_neg fits]
  · have far : ¬ start + place * stride ≤ Word.limit := by omega
    simp only [if_neg near, if_neg far]

theorem visit_eq (r : Recording) (q : Request) (start stride place : Nat) :
    r.visit q start stride place =
      (r.shotOrHalt q start stride place).map fun f => { f with mode := .sequence } := by
  rw [visit, shotOrHalt, sequenceStep_eq]
  split_ifs with fits
  · exact snapshotIn_eq_map r q .sequence _
  · rfl
  · rfl

theorem inOrder_sequenceFrom (r : Recording) (q : Request) (start stride count place : Nat) :
    InOrder (fun i => r.shotOrHalt q start stride (place + i)) count
      (r.sequenceFrom q start stride count place) := by
  induction count generalizing place with
  | zero => exact .nil _
  | succ count ih =>
    rw [sequenceFrom, visit_eq]
    cases first : r.shotOrHalt q start stride place with
    | error cause => exact .of_error first
    | ok f =>
      have later : InOrder (fun i => r.shotOrHalt q start stride (place + (i + 1))) count
          (r.sequenceFrom q start stride count (place + 1)) := by
        simpa only [Nat.add_assoc, Nat.add_comm 1] using ih (place + 1)
      have whole : InOrder (fun i => r.shotOrHalt q start stride (place + i)) (count + 1) _ :=
        .cons first later
      cases further : r.sequenceFrom q start stride count (place + 1) with
      | error cause =>
        rw [further] at whole
        exact whole
      | ok figures =>
        rw [further] at whole
        exact whole

theorem inOrder_sequence (r : Recording) (q : Request) (start stride count : Nat) :
    InOrder (r.shotOrHalt q start stride) count (r.sequence q start stride count) := by
  rw [sequence]
  simpa only [Nat.zero_add] using inOrder_sequenceFrom r q start stride count 0

theorem shot_of_shotOrHalt {start stride place : Nat} {f : Figure}
    (done : r.shotOrHalt q start stride place = .ok f) :
    r.snapshot q (start + place * stride) = .ok f := by
  rw [shotOrHalt] at done
  split_ifs at done with fits
  exact done

theorem step_lt_of_shot {step : Nat} {f : Figure} (done : r.snapshot q step = .ok f) :
    step < r.steps := by
  obtain ⟨frame, layout, found, _⟩ := showsStep_of_snapshotIn done
  exact (List.getElem?_eq_some_iff.mp found).1

theorem shotOrHalt_of_shot {start stride place : Nat} {f : Figure}
    (counted : r.steps ≤ Word.limit + 1) (done : r.snapshot q (start + place * stride) = .ok f) :
    r.shotOrHalt q start stride place = .ok f := by
  have inRange := step_lt_of_shot done
  rw [shotOrHalt, if_pos (by omega), done]

theorem figures_of_sequence {start stride count : Nat} {figures : List Figure}
    (done : r.sequence q start stride count = .ok figures) :
    figures.length = count ∧ ∀ place < count, ∃ f,
      r.snapshot q (start + place * stride) = .ok f ∧
        figures[place]? = some { f with mode := .sequence } := by
  obtain ⟨length, each⟩ := (inOrder_sequence r q start stride count).figures figures done
  refine ⟨length, fun place bound => ?_⟩
  obtain ⟨f, shot, there⟩ := each place bound
  exact ⟨f, shot_of_shotOrHalt shot, there⟩

theorem made_sequence (r : Recording) (q : Request) (start stride count : Nat)
    (counted : r.steps ≤ Word.limit + 1) :
    Made (fun place => r.snapshot q (start + place * stride)) count
      (r.sequence q start stride count) where
  succeeds := by
    rw [(inOrder_sequence r q start stride count).succeeds]
    refine forall₂_congr fun place _ => exists_congr fun f => ?_
    exact ⟨shot_of_shotOrHalt, shotOrHalt_of_shot counted⟩
  figures := fun _ => figures_of_sequence

/-- No place of the sequence that is reached has a step beyond the largest count. -/
def StaysInRange (r : Recording) (q : Request) (start stride count : Nat) : Prop :=
  ∀ place < count, (∀ before < place, ∃ f, r.snapshot q (start + before * stride) = .ok f) →
    start + place * stride ≤ Word.limit

theorem StaysInRange.inOrder {start stride count : Nat}
    (stays : StaysInRange r q start stride count) :
    InOrder (fun place => r.snapshot q (start + place * stride)) count
      (r.sequence q start stride count) := by
  refine (inOrder_sequence r q start stride count).of_same fun place bound fine => ?_
  rw [shotOrHalt, if_pos (stays place bound fine)]

/-- A reached step is one of the recording, so the next one leaves the range only by a stride that
    reaches from there over the largest count. -/
theorem staysInRange_of_stride {start stride : Nat} (starts : start ≤ Word.limit)
    (strides : stride + r.steps ≤ Word.limit + 1) (count : Nat) :
    StaysInRange r q start stride count := by
  intro place _ fine
  cases place with
  | zero => simpa using starts
  | succ place =>
    obtain ⟨f, done⟩ := fine place (Nat.lt_succ_self place)
    have inRange := step_lt_of_shot done
    rw [Nat.succ_mul]
    omega

/-- A sequence succeeds just if all its snapshots are made, at the steps of unbounded arithmetic, and
    then it returns them. Otherwise the first place that fails decides; its step is refused, or beyond
    the largest count halts the program. So the law of unbounded arithmetic holds just if no such step
    is reached, and strides that cannot step over the largest count from within the recording reach
    none. What is reported out of range is the step that was asked for. -/
theorem sequence_is_its_snapshots (r : Recording) (q : Request) (start stride count : Nat)
    (counted : r.steps ≤ Word.limit + 1) :
    Made (fun place => r.snapshot q (start + place * stride)) count
      (r.sequence q start stride count) ∧
    InOrder (r.shotOrHalt q start stride) count (r.sequence q start stride count) ∧
    (InOrder (fun place => r.snapshot q (start + place * stride)) count
        (r.sequence q start stride count) ↔ StaysInRange r q start stride count) ∧
    (start ≤ Word.limit → stride + r.steps ≤ Word.limit + 1 →
      StaysInRange r q start stride count) ∧
    ∀ step reported steps, r.snapshot q step = .error (.stepOutOfRange reported steps) →
      reported = step ∧ r.steps ≤ step ∧ steps = r.steps := by
  have halting := inOrder_sequence r q start stride count
  refine ⟨made_sequence r q start stride count counted, halting,
    ⟨fun order place bound fine => ?_, StaysInRange.inOrder⟩,
    fun starts strides => staysInRange_of_stride starts strides count,
    fun step reported steps => step_of_outOfRange⟩
  by_contra huge
  -- At this place unbounded arithmetic refuses a step, but the sequence halts.
  have late : r.snapshot q (start + place * stride) =
      .error (.stepOutOfRange (start + place * stride) r.steps) :=
    snapshotIn_of_late .snapshot (by omega)
  have halts : r.shotOrHalt q start stride place =
      .error (.halt (if place * stride ≤ Word.limit then .sum else .product)) := if_neg huge
  have reached : ∀ before < place, ∃ f, r.shotOrHalt q start stride before = .ok f :=
    fun before earlier => (fine before earlier).imp fun f => shotOrHalt_of_shot counted
  have refuses := (order.refused _).mpr ⟨place, bound, late, fine⟩
  rw [(halting.refused _).mpr ⟨place, bound, halts, reached⟩] at refuses
  exact nomatch Except.error.inj refuses

theorem sequences_of_strip :
    (∃ figures, strip.sequence {} 0 1 2 = .ok figures ∧ figures.length = 2 ∧
      ∀ place < 2, ∃ f, strip.snapshot {} (0 + place * 1) = .ok f ∧
        figures[place]? = some { f with mode := .sequence }) ∧
    strip.sequence {} 1 18446744073709551614 2 =
      .error (.stepOutOfRange 18446744073709551615 2) ∧
    strip.sequence {} 1 18446744073709551615 3 = .error (.halt .sum) := by
  have first : ∀ stride, ∀ before < 1, ∃ f, strip.snapshot {} (1 + before * stride) = .ok f := by
    intro stride before earlier
    obtain rfl := Nat.lt_one_iff.mp earlier
    rw [Nat.zero_mul]
    exact ⟨_, rfl⟩
  refine ⟨?_, ?_, ?_⟩
  · obtain ⟨made, _⟩ := sequence_is_its_snapshots strip {} 0 1 2 (by decide)
    have count : (strip.sequence {} 0 1 2).map List.length = .ok 2 := by decide +kernel
    obtain ⟨figures, done, _⟩ := map_eq_ok count
    exact ⟨figures, done, made.figures figures done⟩
  · obtain ⟨_, _, order, stays, _⟩ :=
      sequence_is_its_snapshots strip {} 1 18446744073709551614 2 (by decide)
    have inOrder := order.mpr (stays (by decide) (by decide))
    exact (inOrder.refused _).mpr ⟨1, Nat.one_lt_two, rfl, first _⟩
  · obtain ⟨_, halting, _⟩ :=
      sequence_is_its_snapshots strip {} 1 18446744073709551615 3 (by decide)
    refine (halting.refused _).mpr ⟨1, by decide, rfl, fun before earlier => ?_⟩
    obtain ⟨f, done⟩ := first 18446744073709551615 before earlier
    exact ⟨f, shotOrHalt_of_shot (by decide) done⟩

/-- Unbounded arithmetic has a step that is not in the recording at the second place of this
    sequence; the program halts there. -/
theorem largest_stride_halts :
    strip.sequence {} 1 18446744073709551615 2 = .error (.halt .sum) ∧
    strip.snapshot {} (1 + 1 * 18446744073709551615) =
      .error (.stepOutOfRange 18446744073709551616 2) ∧
    ¬ InOrder (fun place => strip.snapshot {} (1 + place * 18446744073709551615)) 2
      (strip.sequence {} 1 18446744073709551615 2) := by
  have halts : strip.sequence {} 1 18446744073709551615 2 = .error (.halt .sum) := rfl
  refine ⟨halts, rfl, fun order => ?_⟩
  obtain ⟨place, _, fails, _⟩ := (order.refused _).mp halts
  exact snapshotIn_ne_halt .snapshot _ _ fails

end Recording
end FieldPlot
