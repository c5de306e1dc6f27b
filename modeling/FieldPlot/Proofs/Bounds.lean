import FieldPlot.Bounds
import FieldPlot.Proofs.Values

/-!
The range of a list of values. Its ends are finite values of the list, and no finite value is outside.
So it depends on nothing but which finite values there are, and the ranges of parts join to that of
the whole. Only the sign of a zero at an end is left open by this.
-/
namespace FieldPlot

def SameButSign (x y : Float) : Prop :=
  x = y ∨ (x = 0 ∨ x = -0) ∧ (y = 0 ∨ y = -0)

namespace Binary64

open Float.Model

variable {x y : Float}

theorem zero_of_value (finite : x.isFinite = true) (zero : value x = 0) : x = 0 ∨ x = -0 := by
  obtain ⟨sign, same⟩ | ⟨sign, m, e, positive, shape⟩ := zero_or_finite finite
  · cases sign with
    | positive => exact .inl (unpack_injective same)
    | negative => exact .inr (unpack_injective same)
  · have size : (0 : ℚ) < m * 2 ^ e := by positivity
    rw [value, shape] at zero
    cases sign with
    | positive => rw [exact_positive] at zero; linarith
    | negative => rw [exact_negative] at zero; linarith

theorem sameButSign_of_le (finite : x.isFinite = true) (finite' : y.isFinite = true)
    (below : x ≤ y) (above : y ≤ x) : SameButSign x y := by
  have same : rank x.toModel.unpack = rank y.toModel.unpack :=
    le_antisymm ((le_iff x y).mp below).2.2 ((le_iff y x).mp above).2.2
  have values : value x = value y := exact_eq_of_rank finite finite' same
  by_cases zero : value x = 0
  · exact .inr ⟨zero_of_value finite zero, zero_of_value finite' (values.symm.trans zero)⟩
  · exact .inl (unpack_injective (eq_of_rank_eq finite finite' same zero))

theorem smaller_le (finite : x.isFinite = true) (finite' : y.isFinite = true) :
    (if x < y then x else y) ≤ x ∧ (if x < y then x else y) ≤ y := by
  have order := lt_iff_value finite finite'
  split_ifs with less
  · rw [le_iff_value finite finite, le_iff_value finite finite']
    exact ⟨le_rfl, (order.mp less).le⟩
  · rw [le_iff_value finite' finite, le_iff_value finite' finite']
    exact ⟨not_lt.mp (mt order.mpr less), le_rfl⟩

theorem le_larger (finite : x.isFinite = true) (finite' : y.isFinite = true) :
    x ≤ (if y < x then x else y) ∧ y ≤ (if y < x then x else y) := by
  have order := lt_iff_value finite' finite
  split_ifs with less
  · rw [le_iff_value finite finite, le_iff_value finite' finite]
    exact ⟨le_rfl, (order.mp less).le⟩
  · rw [le_iff_value finite finite', le_iff_value finite' finite']
    exact ⟨not_lt.mp (mt order.mpr less), le_rfl⟩

end Binary64

namespace Bounds

def join {α : Type} [LT α] [DecidableLT α] : Option (α × α) → Option (α × α) → Option (α × α)
  | none, second => second
  | first, none => first
  | some (low, high), some (low', high') =>
    some (if low < low' then low else low', if high' < high then high else high')

theorem widen_eq_join {α : Type} [LT α] [DecidableLT α] (range : Option (α × α)) (v : α) :
    widen range v = join range (some (v, v)) := by
  cases range with
  | none => rfl
  | some ends => rfl

structure Tight (values : List Float) (low high : Float) : Prop where
  low_mem : low ∈ values
  low_finite : low.isFinite = true
  high_mem : high ∈ values
  high_finite : high.isFinite = true
  within : ∀ v ∈ values, v.isFinite = true → low ≤ v ∧ v ≤ high

inductive Spans (values : List Float) : Option (Float × Float) → Prop
  | nothing (infinite : ∀ v ∈ values, v.isFinite = false) : Spans values none
  | between {low high : Float} (tight : Tight values low high) : Spans values (some (low, high))

inductive SameRange : Option (Float × Float) → Option (Float × Float) → Prop
  | nothing : SameRange none none
  | between {low low' high high' : Float} (lows : SameButSign low low')
      (highs : SameButSign high high') : SameRange (some (low, high)) (some (low', high'))

variable {values further : List Float} {low high low' high' : Float}
  {range range' : Option (Float × Float)}

theorem not_mem_of_infinite (infinite : ∀ v ∈ values, v.isFinite = false) {v : Float}
    (finite : v.isFinite = true) : v ∉ values := by
  intro member
  rw [infinite v member] at finite
  contradiction

namespace Tight

theorem not_infinite (tight : Tight values low high) : ¬ ∀ v ∈ values, v.isFinite = false :=
  fun infinite => not_mem_of_infinite infinite tight.low_finite tight.low_mem

theorem congr (same : ∀ v, v.isFinite = true → (v ∈ values ↔ v ∈ further))
    (tight : Tight values low high) : Tight further low high where
  low_mem := (same low tight.low_finite).mp tight.low_mem
  low_finite := tight.low_finite
  high_mem := (same high tight.high_finite).mp tight.high_mem
  high_finite := tight.high_finite
  within := fun v member finite => tight.within v ((same v finite).mpr member) finite

theorem join (first : Tight values low high) (second : Tight further low' high') :
    Tight (values ++ further) (if low < low' then low else low')
      (if high' < high then high else high') where
  low_mem := by
    split_ifs
    · exact List.mem_append_left further first.low_mem
    · exact List.mem_append_right values second.low_mem
  low_finite := by
    split_ifs
    · exact first.low_finite
    · exact second.low_finite
  high_mem := by
    split_ifs
    · exact List.mem_append_left further first.high_mem
    · exact List.mem_append_right values second.high_mem
  high_finite := by
    split_ifs
    · exact first.high_finite
    · exact second.high_finite
  within := by
    intro v member finite
    obtain ⟨least, least'⟩ := Binary64.smaller_le first.low_finite second.low_finite
    obtain ⟨most, most'⟩ := Binary64.le_larger first.high_finite second.high_finite
    have trans := Binary64.numberOrder.trans
    rcases List.mem_append.mp member with here | there
    · obtain ⟨above, below⟩ := first.within v here finite
      exact ⟨trans _ _ _ least above, trans _ _ _ below most⟩
    · obtain ⟨above, below⟩ := second.within v there finite
      exact ⟨trans _ _ _ least' above, trans _ _ _ below most'⟩

end Tight

namespace Spans

theorem congr (same : ∀ v, v.isFinite = true → (v ∈ values ↔ v ∈ further))
    (spans : Spans values range) : Spans further range := by
  cases spans with
  | nothing infinite =>
    refine .nothing fun v member => Bool.eq_false_iff.mpr fun finite => ?_
    exact not_mem_of_infinite infinite finite ((same v finite).mpr member)
  | between tight => exact .between (tight.congr same)

theorem append_infinite (infinite : ∀ v ∈ further, v.isFinite = false)
    (spans : Spans values range) : Spans (values ++ further) range := by
  refine spans.congr fun v finite => ?_
  simp [not_mem_of_infinite infinite finite]

theorem join (first : Spans values range) (second : Spans further range') :
    Spans (values ++ further) (Bounds.join range range') := by
  cases second with
  | nothing infinite =>
    have whole := first.append_infinite infinite
    cases range with
    | none => exact whole
    | some ends => exact whole
  | between tight =>
    cases first with
    | nothing infinite =>
      refine (Spans.between tight).congr fun v finite => ?_
      simp [not_mem_of_infinite infinite finite]
    | between tight' => exact .between (tight'.join tight)

theorem single {v : Float} (finite : v.isFinite = true) : Spans [v] (some (v, v)) := by
  have self : v ≤ v := (Binary64.le_iff_value finite finite).mpr le_rfl
  exact .between ⟨List.mem_singleton_self v, finite, List.mem_singleton_self v, finite,
    fun w member _ => by rw [List.mem_singleton.mp member]; exact ⟨self, self⟩⟩

/-- A range is determined by its values, but for the signs of zeros. -/
theorem same (first : Spans values range) (second : Spans values range') :
    SameRange range range' := by
  cases first with
  | nothing infinite =>
    cases second with
    | nothing _ => exact .nothing
    | between tight => exact absurd infinite tight.not_infinite
  | between tight =>
    cases second with
    | nothing infinite => exact absurd infinite tight.not_infinite
    | between tight' =>
      obtain ⟨below, _⟩ := tight.within _ tight'.low_mem tight'.low_finite
      obtain ⟨above, _⟩ := tight'.within _ tight.low_mem tight.low_finite
      obtain ⟨_, above'⟩ := tight.within _ tight'.high_mem tight'.high_finite
      obtain ⟨_, below'⟩ := tight'.within _ tight.high_mem tight.high_finite
      exact .between (Binary64.sameButSign_of_le tight.low_finite tight'.low_finite below above)
        (Binary64.sameButSign_of_le tight.high_finite tight'.high_finite below' above')

theorem foldl_widen (start : Spans values range) (finite : ∀ v ∈ further, v.isFinite = true) :
    Spans (values ++ further) (further.foldl widen range) := by
  induction further generalizing values range with
  | nil => rwa [List.append_nil]
  | cons v further ih =>
    obtain ⟨here, rest⟩ := List.forall_mem_cons.mp finite
    rw [List.append_cons, List.foldl_cons, widen_eq_join]
    exact ih (start.join (single here)) rest

end Spans

/-- The values are taken in one after another, each as a range of its own. -/
theorem spans_finite (values : List Float) : Spans values (finite values) := by
  have none : Spans [] none := .nothing (List.forall_mem_nil _)
  have filtered := none.foldl_widen fun v (member : v ∈ values.filter Float.isFinite) =>
    (List.mem_filter.mp member).2
  exact filtered.congr fun v finite => by simp [finite]

theorem tight_of_finite (range : finite values = some (low, high)) : Tight values low high := by
  have spans := spans_finite values
  rw [range] at spans
  cases spans with
  | between tight => exact tight

theorem finite_eq_none_iff : finite values = none ↔ ∀ v ∈ values, v.isFinite = false := by
  have spans := spans_finite values
  constructor
  · intro none
    rw [none] at spans
    cases spans with
    | nothing infinite => exact infinite
  · intro infinite
    cases range : finite values with
    | none => rfl
    | some ends => exact absurd infinite (tight_of_finite range).not_infinite

theorem spans_parts (parts : List (List Float)) :
    Spans parts.flatten ((parts.map finite).foldl join none) := by
  have fromHere : ∀ values range, Spans values range →
      Spans (values ++ parts.flatten) ((parts.map finite).foldl join range) := by
    induction parts with
    | nil =>
      intro values range spans
      rwa [List.flatten_nil, List.append_nil]
    | cons part parts ih =>
      intro values range spans
      rw [List.flatten_cons, ← List.append_assoc]
      exact ih _ _ (spans.join (spans_finite part))
  exact fromHere [] none (.nothing (List.forall_mem_nil _))

end Bounds
end FieldPlot
