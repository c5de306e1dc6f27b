import FieldPlot.Tensor

/-!
Collapsing every axis that is not kept. The axes are visited from the first; a kept one is passed
over, and any other vanishes, which moves the kept positions behind it one place forward.
-/
namespace FieldPlot

structure Elimination (α : Type) where
  tensor : Tensor α
  next : Nat
  /-- Where the kept axes are now. -/
  kept : List Nat

namespace Elimination

variable {α : Type}

def Open (e : Elimination α) : Prop :=
  e.kept.length < e.tensor.rank ∧ e.next < e.tensor.rank

instance (e : Elimination α) : Decidable e.Open :=
  inferInstanceAs (Decidable (_ ∧ _))

def shift (vanished position : Nat) : Nat :=
  if vanished < position then position - 1 else position

def step (rule : LaneRule α) (e : Elimination α) : Elimination α :=
  if e.next ∈ e.kept then { e with next := e.next + 1 }
  else ⟨e.tensor.collapse rule e.next, e.next, e.kept.map (shift e.next)⟩

theorem step_closer (rule : LaneRule α) (e : Elimination α) (more : e.Open) :
    (e.step rule).tensor.rank - (e.step rule).next < e.tensor.rank - e.next := by
  obtain ⟨_, bound⟩ := more
  by_cases kept : e.next ∈ e.kept
  · simp only [step, kept, ↓reduceIte]
    omega
  · have shorter : (e.tensor.shape.eraseIdx e.next).length = e.tensor.shape.length - 1 :=
      List.length_eraseIdx_of_lt bound
    simp only [step, kept, ↓reduceIte, Tensor.collapse, Tensor.rank] at bound ⊢
    omega

def run (rule : LaneRule α) (e : Elimination α) : Elimination α :=
  if _ : e.Open then run rule (e.step rule) else e
termination_by e.tensor.rank - e.next
decreasing_by exact step_closer rule e (by assumption)

end Elimination

def Tensor.keep {α : Type} (rule : LaneRule α) (positions : List Nat) (t : Tensor α) :
    Elimination α :=
  (⟨t, 0, positions⟩ : Elimination α).run rule

end FieldPlot
