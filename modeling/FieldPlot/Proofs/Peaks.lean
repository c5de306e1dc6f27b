import FieldPlot.Proofs.Declared
import FieldPlot.Proofs.NumberOrder

/-!
Largest values. A value tops a set when it belongs to it and is below none of it, or is no number; a
set with a value that is no number is topped by such values alone. The maximum of a lane tops its
values and the least number, and a maximum projection tops the values of its region, in whatever
order the axes collapse.
-/
namespace FieldPlot

variable {α : Type} [LE α]

/-- A value of the set that is above all of it, or no number. -/
structure Tops (isNone : α → Bool) (values : Set α) (y : α) : Prop where
  among : y ∈ values
  above : isNone y = true ∨ ∀ v ∈ values, v ≤ y

variable {isNone : α → Bool} {least : α}

namespace NumberOrder

variable (order : NumberOrder isNone least)
include order

theorem none_or_le (a : α) : isNone a = true ∨ a ≤ a := by
  cases none : isNone a with
  | true => exact .inl rfl
  | false =>
    right
    rcases order.total a a none none with below | below
    · exact below
    · exact below

theorem not_le_of_none {a : α} (none : isNone a = true) (b : α) : ¬ a ≤ b := by
  intro below
  have number := order.number_left a b below
  rw [none] at number
  contradiction

theorem tops_none_iff {values : Set α} {y : α} (tops : Tops isNone values y) :
    isNone y = true ↔ ∃ v ∈ values, isNone v = true := by
  constructor
  · intro none
    exact ⟨y, tops.among, none⟩
  · rintro ⟨v, member, none⟩
    rcases tops.above with none' | above
    · exact none'
    · exact absurd (above v member) (order.not_le_of_none none y)

theorem tops_unique {values : Set α} {y z : α} (first : Tops isNone values y)
    (second : Tops isNone values z) : SameNumber isNone y z := by
  rcases first.above with none | above
  · exact .inl ⟨none, (order.tops_none_iff second).mpr ⟨y, first.among, none⟩⟩
  · rcases second.above with none | above'
    · exact absurd (above z second.among) (order.not_le_of_none none y)
    · exact .inr ⟨above' y first.among, above z second.among⟩

theorem tops_widen {values all : Set α} {y : α} (tops : Tops isNone values y)
    (within : values ⊆ all) (covered : ∀ v ∈ all, ∃ w ∈ values, isNone w = true ∨ v ≤ w) :
    Tops isNone all y := by
  constructor
  · exact within tops.among
  · rcases tops.above with none | above
    · exact .inl none
    · right
      intro v member
      obtain ⟨w, member', cover⟩ := covered v member
      rcases cover with none | cover
      · exact absurd (above w member') (order.not_le_of_none none y)
      · exact order.trans v w y cover (above w member')

end NumberOrder

namespace LaneRule

variable [DecidableLE α] (order : NumberOrder isNone least)
include order

theorem larger_tops (a b : α) : Tops isNone {a, b} (larger isNone a b) := by
  unfold larger
  by_cases none : isNone a = true
  · rw [if_pos (.inl none)]
    exact ⟨by simp, .inl none⟩
  · have self := (order.none_or_le a).resolve_left none
    by_cases below : b ≤ a
    · rw [if_pos (.inr below)]
      exact ⟨by simp, .inr (by simp [self, below])⟩
    · rw [if_neg (not_or.mpr ⟨none, below⟩)]
      refine ⟨by simp, ?_⟩
      rcases order.none_or_le b with none' | self'
      · exact .inl none'
      · have above := (order.total a b (by simpa using none)
          (order.number_left b b self')).resolve_right below
        exact .inr (by simp [self', above])

theorem foldl_larger_tops (lane : List α) (a : α) :
    Tops isNone {v | v ∈ a :: lane} (lane.foldl (larger isNone) a) := by
  induction lane generalizing a with
  | nil => exact ⟨List.mem_cons_self, by simpa using order.none_or_le a⟩
  | cons b lane ih =>
    have first := larger_tops order a b
    have taken : larger isNone a b = a ∨ larger isNone a b = b := first.among
    refine order.tops_widen (ih (larger isNone a b)) ?_ ?_
    · intro v member
      rcases List.mem_cons.mp member with rfl | member
      · exact List.mem_cons.mpr (taken.imp_right fun same => List.mem_cons.mpr (.inl same))
      · exact List.mem_cons_of_mem a (List.mem_cons_of_mem b member)
    · intro v member
      by_cases old : v ∈ lane
      · exact ⟨v, List.mem_cons_of_mem _ old, order.none_or_le v⟩
      · refine ⟨larger isNone a b, List.mem_cons_self, first.above.imp_right fun above => ?_⟩
        have new : v = a ∨ v = b := by simpa [old] using member
        exact above v new

end LaneRule

namespace Declared

variable (order : NumberOrder isNone least) (f : Nat → α)

def IsPeak (isNone : α → Bool) (least : α) (f : Nat → α) (_ : Nat) (places : Finset Nat) (y : α) :
    Prop :=
  Tops isNone {v | v = least ∨ ∃ i ∈ places, v = f i} y

include order

theorem isPeak_single (i : Nat) : IsPeak isNone least f 1 {i} (f i) := by
  constructor
  · exact .inr ⟨i, Finset.mem_singleton_self i, rfl⟩
  · rcases order.none_or_le (f i) with none | self
    · exact .inl none
    · right
      rintro v (rfl | ⟨j, member, rfl⟩)
      · exact order.least_le _ (order.number_left _ _ self)
      · rwa [Finset.mem_singleton.mp member]

variable [DecidableLE α]

theorem maximum_merges :
    Merges (LaneRule.maximum isNone least) (IsPeak isNone least f) where
  merge := by
    intro contiguous n e parts y _ peaks
    refine order.tops_widen (LaneRule.foldl_larger_tops order _ least) ?_ ?_
    · intro v member
      rcases List.mem_cons.mp member with rfl | member
      · exact .inl rfl
      · obtain ⟨x, bound, rfl⟩ := List.mem_map.mp member
        rcases (peaks x (List.mem_range.mp bound)).among with lowest | ⟨i, here, same⟩
        · exact .inl lowest
        · exact .inr ⟨i, Finset.mem_biUnion.mpr ⟨x, by simpa using bound, here⟩, same⟩
    · rintro v (rfl | ⟨i, member, rfl⟩)
      · exact ⟨_, List.mem_cons_self, order.none_or_le _⟩
      · obtain ⟨x, bound, here⟩ := Finset.mem_biUnion.mp member
        have inRange : x ∈ List.range e := by simpa using bound
        have above := (peaks x (Finset.mem_range.mp bound)).above
        exact ⟨y x, List.mem_cons_of_mem _ (List.mem_map_of_mem inRange),
          above.imp_right fun above => above _ (.inr ⟨i, here, rfl⟩)⟩

end Declared
end FieldPlot
