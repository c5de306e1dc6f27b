import FieldPlot.Proofs.Peaks
import FieldPlot.Proofs.Projectable

/-!
Maximum projections. A cell is no number just when one of its values is none; otherwise it is one of
its values and below none of them, and the least number where it has no values. So no cell is above
the numbers of its frame.
-/
namespace FieldPlot

section Order

variable {α : Type} [LE α]

/-- The largest of the values, unless one of them is no number. -/
structure IsMaximum (isNone : α → Bool) (least : α) (values : Set α) (y : α) : Prop where
  none_iff : isNone y = true ↔ ∃ v ∈ values, isNone v = true
  above : isNone y = false → ∀ v ∈ values, v ≤ y
  among : isNone y = false → values.Nonempty → y ∈ values
  lowest : values = ∅ → y = least

variable {isNone : α → Bool} {least : α}

namespace NumberOrder

variable (order : NumberOrder isNone least)
include order

/-- Where the least number is alone in its place, a top of values and of it is their maximum. -/
theorem isMaximum_of_tops (alone : ∀ a, a ≤ least → a = least) {values : Set α} {y : α}
    (tops : Tops isNone {v | v = least ∨ v ∈ values} y) : IsMaximum isNone least values y where
  none_iff := by
    rw [order.tops_none_iff tops]
    constructor
    · rintro ⟨v, rfl | member, none⟩
      · rw [order.number_least] at none
        contradiction
      · exact ⟨v, member, none⟩
    · rintro ⟨v, member, none⟩
      exact ⟨v, .inr member, none⟩
  above := by
    intro number v member
    rcases tops.above with none | above
    · rw [number] at none
      contradiction
    · exact above v (.inr member)
  among := by
    rintro number ⟨v, member⟩
    rcases tops.among with lowest | among
    · rcases tops.above with none | above
      · rw [number] at none
        contradiction
      · have same : v = least := alone v (lowest ▸ above v (.inr member))
        rwa [lowest, ← same]
    · exact among
  lowest := by
    intro empty
    rcases tops.among with lowest | among
    · exact lowest
    · rw [empty] at among
      contradiction

theorem maximum_le {values all : Set α} {y m : α} (first : IsMaximum isNone least values y)
    (second : IsMaximum isNone least all m) (numbers : ∀ v ∈ all, isNone v = false)
    (within : ∀ v ∈ values, isNone v = false → v ∈ all) (number : isNone y = false) : y ≤ m := by
  have proper : isNone m = false := by
    rw [Bool.eq_false_iff]
    intro none
    obtain ⟨v, member, none'⟩ := second.none_iff.mp none
    rw [numbers v member] at none'
    contradiction
  rcases values.eq_empty_or_nonempty with empty | some
  · rw [first.lowest empty]
    exact order.least_le m proper
  · exact second.above proper y (within y (first.among number some) number)

end NumberOrder

end Order

namespace Binary64

open Float.Model

theorem eq_of_rank_le_least {u : UnpackedFloat} (number : u.isNaN = false)
    (below : rank u ≤ rank (.infinity .negative)) : u = .infinity .negative := by
  rcases u with ⟨_ | _⟩ | _ | _ | ⟨_ | _, m, e, _⟩ <;>
  simp [rank, Prod.Lex.toLex_le_toLex, UnpackedFloat.isNaN] at number below ⊢

theorem eq_of_le_least (a : Float) (below : a ≤ -(1 / 0)) : a = -(1 / 0) := by
  obtain ⟨number, _, lowest⟩ := (le_iff a _).mp below
  exact unpack_injective (eq_of_rank_le_least number lowest)

end Binary64

def valuesWhere {α : Type} (frame : List α) (hit : Nat → Prop) : Set α :=
  {v | ∃ i, frame[i]? = some v ∧ hit i}

def largestNumber (frame : List Float) : Float :=
  Aggregation.maximum.rule true (frame.filter fun v => !v.isNaN)

theorem largestNumber_isMaximum (frame : List Float) :
    IsMaximum Float.isNaN (-(1 / 0)) {v | v ∈ frame ∧ v.isNaN = false} (largestNumber frame) := by
  apply Binary64.numberOrder.isMaximum_of_tops Binary64.eq_of_le_least
  have tops := LaneRule.foldl_larger_tops Binary64.numberOrder
    (frame.filter fun v => !v.isNaN) (-(1 / 0))
  simpa [largestNumber, Aggregation.rule, LaneRule.maximum] using tops

structure IsMaximumWhere (frame : List Float) (hit : Nat → Prop) (y : Float) : Prop where
  isMaximum : IsMaximum Float.isNaN (-(1 / 0)) (valuesWhere frame hit) y
  le_largest : y.isNaN = false → y ≤ largestNumber frame

theorem isMaximumWhere {frame : List Float} {hit : Nat → Prop} {y : Float}
    (isMaximum : IsMaximum Float.isNaN (-(1 / 0)) (valuesWhere frame hit) y) :
    IsMaximumWhere frame hit y := by
  refine ⟨isMaximum, Binary64.numberOrder.maximum_le isMaximum (largestNumber_isMaximum frame)
    (fun v member => member.2) ?_⟩
  rintro v ⟨i, found, _⟩ number
  exact ⟨List.mem_of_getElem? found, number⟩

theorem values_of_region {α : Type} [Inhabited α] {extents kept : List Nat} {frame : List α}
    {hit : Nat → Prop} {c : Nat → Nat} (fits : frame.length = extents.prod)
    (hits : ∀ i, (∀ j ∈ kept, digit extents j i = c j) ↔ hit i) (v : α) :
    (∃ i ∈ region extents kept c, v = frame.getD i default) ↔ v ∈ valuesWhere frame hit := by
  constructor
  · rintro ⟨i, member, rfl⟩
    obtain ⟨bound, digits⟩ := mem_region.mp member
    exact ⟨i, by simp [fits, bound], (hits i).mp digits⟩
  · rintro ⟨i, found, here⟩
    have bound := (List.getElem?_eq_some_iff.mp found).1
    exact ⟨i, mem_region.mpr ⟨fits ▸ bound, (hits i).mpr here⟩, by simp [found]⟩

theorem Declared.project_maximum {extents kept : List Nat} {frame : List Float}
    {hit : Nat → Prop} {c : Nat → Nat} (fits : frame.length = extents.prod)
    (distinct : kept.Nodup) (declared : ∀ j ∈ kept, j < extents.length)
    (inside : Inside extents kept c) (hits : ∀ i, (∀ j ∈ kept, digit extents j i = c j) ↔ hit i) :
    IsMaximumWhere frame hit (project Aggregation.maximum.rule extents kept frame c) := by
  have peak := project_merges (maximum_merges Binary64.numberOrder (frame.getD · default)) kept
    frame distinct declared (fun i _ => isPeak_single Binary64.numberOrder _ i) c inside
  simp only [IsPeak, values_of_region fits hits] at peak
  exact isMaximumWhere
    (Binary64.numberOrder.isMaximum_of_tops Binary64.eq_of_le_least peak)

namespace Projection

/-- Every cell of a maximum projection is the maximum of the values with its coordinates: no number
    if one of them is none, else one of them and below none of them, or the least number where there
    are none. It is not above the largest number of its frame. Requests that suit the recording are
    projected, as long as there is room for the rows. -/
theorem maximum_of_values_with_coordinates (h : Header) :
    (∀ (frames : List (List Float)) (axis : Axis),
      (axis.index < h.rank → Word.Addressable h.arrayShape →
        Word.Addressable [frames.length, h.extents.getD axis.index 0] →
        (∀ frame ∈ frames, frame.length = h.extents.prod) →
        ∃ grid, onAxis Aggregation.maximum.rule h frames axis = .ok grid) ∧
      ∀ grid, onAxis Aggregation.maximum.rule h frames axis = .ok grid →
        ∀ (s : Nat) (frame : List Float), frames[s]? = some frame →
          grid.Meshed frames.length (h.extents.getD axis.index 0) ∧
          ∀ p < h.extents.getD axis.index 0, ∃ y, grid.cell? s p = some y ∧
            IsMaximumWhere frame (fun i => digit h.extents axis.index i = p) y) ∧
    (∀ (frames : List (List Float)) (step : Nat) (a b : Axis),
      (∀ frame, Suits h frames step a b frame →
        ∃ plane, onPlane Aggregation.maximum.rule h frames step a b = .ok plane) ∧
      ∀ plane, onPlane Aggregation.maximum.rule h frames step a b = .ok plane →
        ∃ frame, frames[step]? = some frame ∧
          plane.grid.Meshed (h.extents.getD (max a.index b.index) 0)
            (h.extents.getD (min a.index b.index) 0) ∧
          ∀ r q, r < h.extents.getD (max a.index b.index) 0 →
            q < h.extents.getD (min a.index b.index) 0 →
            ∃ y, plane.grid.cell? r q = some y ∧
              IsMaximumWhere frame (fun i => digit h.extents (max a.index b.index) i = r ∧
                digit h.extents (min a.index b.index) i = q) y) := by
  constructor
  · intro frames axis
    constructor
    · intro declared addressable room fits
      obtain ⟨grid, done, _⟩ :=
        onAxis_cells Aggregation.maximum.rule h frames addressable declared room fits
      exact ⟨grid, done⟩
    · intro grid done s frame found
      have projected := projected_of_onAxis done
      have addressable := (projected.fits frame (List.mem_of_getElem? found)).1
      have fits := fun frame member => (projected.fits frame member).2
      obtain ⟨grid', done', meshed, cells⟩ := onAxis_cells Aggregation.maximum.rule h frames
        addressable projected.declared projected.room fits
      obtain rfl : grid = grid' := Except.ok.inj (done.symm.trans done')
      refine ⟨meshed, fun p bound => ⟨_, cells s frame (fun _ => p) found bound, ?_⟩⟩
      exact Declared.project_maximum (fits frame (List.mem_of_getElem? found))
        (List.nodup_singleton _) (List.forall_mem_singleton.mpr projected.declared)
        (List.forall_mem_singleton.mpr bound) (by simp)
  · intro frames step a b
    constructor
    · intro frame suits
      obtain ⟨plane, done, _⟩ := onPlane_cell Aggregation.maximum.rule h suits
      exact ⟨plane, done⟩
    · intro plane done
      have suits := suits_of_onPlane done
      obtain ⟨plane', done', meshed, cells⟩ := onPlane_cell Aggregation.maximum.rule h suits
      obtain rfl : plane = plane' := Except.ok.inj (done.symm.trans done')
      refine ⟨_, suits.found, meshed, fun r q low left => ⟨_, cells r q low left, ?_⟩⟩
      exact Declared.project_maximum suits.fits suits.distinct suits.declared
        (inside_crossing suits.less low left) (suits.crosses_iff r q)

def spotted : List Float := [1, 0 / 0, 3, 4, 2, 5]

theorem number_of_spotted {hit : Nat → Prop} {y : Float}
    (isMaximum : IsMaximum Float.isNaN (-(1 / 0)) (valuesWhere spotted hit) y)
    (missed : ¬ hit 1) : y.isNaN = false := by
  rw [Bool.eq_false_iff]
  intro none
  obtain ⟨v, ⟨i, found, here⟩, none'⟩ := isMaximum.none_iff.mp none
  have numbers : ∀ i < 6, i ≠ 1 → (spotted.getD i 0).isNaN = false := by decide
  have bound : i < 6 := (List.getElem?_eq_some_iff.mp found).1
  have number := numbers i bound fun same => missed (same ▸ here)
  rw [List.getD_eq_getElem?_getD, found, Option.getD_some, none'] at number
  contradiction

theorem maximum_of_spotted :
    (∃ grid, onAxis Aggregation.maximum.rule (Header.ofExtents [2, 3]) [spotted] ⟨0⟩ = .ok grid ∧
      (∃ y, grid.cell? 0 0 = some y ∧ y.isNaN = false ∧ 3 ≤ y ∧ y ≤ largestNumber spotted) ∧
      ∃ y, grid.cell? 0 1 = some y ∧ y.isNaN = true) ∧
    Suits (Header.ofExtents [2, 3]) [spotted] 0 ⟨0⟩ ⟨1⟩ spotted ∧
    ∃ plane, onPlane Aggregation.maximum.rule (Header.ofExtents [2, 3]) [spotted] 0 ⟨0⟩ ⟨1⟩ =
        .ok plane ∧
      ∃ y, plane.grid.cell? 2 1 = some y ∧ y.isNaN = false ∧ 5 ≤ y := by
  have suits : Suits (Header.ofExtents [2, 3]) [spotted] 0 ⟨0⟩ ⟨1⟩ spotted :=
    ⟨by decide, by decide, by decide, rfl, by decide, by decide⟩
  obtain ⟨onOne, onTwo⟩ := maximum_of_values_with_coordinates (Header.ofExtents [2, 3])
  constructor
  · obtain ⟨made, cells⟩ := onOne [spotted] ⟨0⟩
    obtain ⟨grid, done⟩ := made (by decide) (by decide) (by decide) (by decide)
    obtain ⟨_, values⟩ := cells grid done 0 spotted rfl
    obtain ⟨y, even, shows⟩ := values 0 (by decide)
    obtain ⟨z, odd, shows'⟩ := values 1 (by decide)
    have number := number_of_spotted shows.isMaximum (by decide)
    refine ⟨grid, done, ⟨y, even, number, ?_, shows.le_largest number⟩, z, odd, ?_⟩
    · exact shows.isMaximum.above number 3 ⟨2, rfl, by decide⟩
    · exact shows'.isMaximum.none_iff.mpr ⟨0 / 0, ⟨1, rfl, by decide⟩, rfl⟩
  · obtain ⟨made, cells⟩ := onTwo [spotted] 0 ⟨0⟩ ⟨1⟩
    obtain ⟨plane, done⟩ := made spotted suits
    obtain ⟨frame, found, _, values⟩ := cells plane done
    obtain rfl : spotted = frame := Option.some.inj found
    obtain ⟨y, cell, shows⟩ := values 2 1 (by decide) (by decide)
    have number := number_of_spotted shows.isMaximum (by decide)
    have above := shows.isMaximum.above number 5 ⟨5, rfl, by decide⟩
    exact ⟨suits, plane, done, y, cell, number, above⟩

end Projection
end FieldPlot
