import Mathlib.Data.List.Forall2

/-!
Outcomes of readers. A reader gives a result or a cause to refuse; a chain of readers gives a result just
if each of them does, and a reader over a list is refused for the first member that is.
-/
namespace FieldPlot

variable {β γ ε : Type}

theorem bind_eq_ok {x : Except ε β} {f : β → Except ε γ} {z : γ} (done : x >>= f = .ok z) :
    ∃ y, x = .ok y ∧ f y = .ok z := by
  cases x with
  | error cause => contradiction
  | ok y => exact ⟨y, rfl, done⟩

theorem map_eq_ok {x : Except ε β} {f : β → γ} {z : γ} (done : x.map f = .ok z) :
    ∃ y, x = .ok y ∧ f y = z := by
  cases x with
  | error cause => contradiction
  | ok y => exact ⟨y, rfl, Except.ok.inj done⟩

theorem bind_eq_error {x : Except ε β} {f : β → Except ε γ} {cause : ε}
    (fails : x >>= f = .error cause) :
    x = .error cause ∨ ∃ y, x = .ok y ∧ f y = .error cause := by
  cases x with
  | error other => exact .inl (congrArg Except.error (Except.error.inj fails))
  | ok y => exact .inr ⟨y, rfl, fails⟩

theorem map_eq_error {x : Except ε β} {f : β → γ} {cause : ε}
    (fails : x.map f = .error cause) : x = .error cause := by
  cases x with
  | error other => exact congrArg Except.error (Except.error.inj fails)
  | ok y => contradiction

theorem map_eq_error_iff {x : Except ε β} {f : β → γ} {cause : ε} :
    x.map f = .error cause ↔ x = .error cause := by
  refine ⟨map_eq_error, fun fails => ?_⟩
  rw [fails]
  rfl

theorem forM_of_ok {f : β → Except ε PUnit} {xs : List β} (passed : ∀ x ∈ xs, f x = .ok ()) :
    xs.forM f = .ok () := by
  induction xs with
  | nil => rfl
  | cons x xs ih =>
    obtain ⟨first, others⟩ := List.forall_mem_cons.mp passed
    simp only [List.forM_eq_forM, List.forM_cons, first]
    exact ih others

theorem exists_of_forM_eq_error {f : β → Except ε Unit} {xs : List β} {cause : ε}
    (fails : xs.forM f = .error cause) : ∃ x ∈ xs, f x = .error cause := by
  induction xs with
  | nil => contradiction
  | cons x xs ih =>
    rw [List.forM_eq_forM, List.forM_cons] at fails
    rcases bind_eq_error fails with first | ⟨_, _, further⟩
    · exact ⟨x, List.mem_cons_self, first⟩
    · obtain ⟨y, member, later⟩ := ih further
      exact ⟨y, List.mem_cons_of_mem x member, later⟩

theorem forall₂_of_mapM {f : β → Except ε γ} {xs : List β} {ys : List γ}
    (done : xs.mapM f = .ok ys) : List.Forall₂ (fun x y => f x = .ok y) xs ys := by
  induction xs generalizing ys with
  | nil =>
    obtain rfl : [] = ys := Except.ok.inj done
    exact .nil
  | cons x xs ih =>
    rw [List.mapM_cons] at done
    obtain ⟨y, first, done⟩ := bind_eq_ok done
    obtain ⟨others, further, done⟩ := bind_eq_ok done
    obtain rfl : y :: others = ys := Except.ok.inj done
    exact .cons first (ih further)

theorem mapM_of_ok (f : β → Except ε γ) (g : β → γ) (xs : List β)
    (all : ∀ x ∈ xs, f x = .ok (g x)) : xs.mapM f = .ok (xs.map g) := by
  induction xs with
  | nil => rfl
  | cons x xs ih =>
    have rest := ih fun y member => all y (List.mem_cons_of_mem x member)
    rw [List.mapM_cons, all x List.mem_cons_self, rest]
    rfl

theorem mapM_of_first_error (f : β → Except ε γ) (g : β → γ) (before : List β)
    (x : β) (after : List β) (cause : ε) (fine : ∀ y ∈ before, f y = .ok (g y))
    (fails : f x = .error cause) : (before ++ x :: after).mapM f = .error cause := by
  rw [List.mapM_append, mapM_of_ok f g before fine, List.mapM_cons, fails]
  rfl

structure FirstError (f : β → Except ε γ) (xs before : List β) (x : β)
    (cause : ε) : Prop where
  split : ∃ after, xs = before ++ x :: after
  fine : ∀ y ∈ before, ∃ z, f y = .ok z
  fails : f x = .error cause

theorem forall_ok_or_firstError (f : β → Except ε γ) (xs : List β) :
    (∃ ys, List.Forall₂ (fun x y => f x = .ok y) xs ys) ∨
      ∃ before x cause, FirstError f xs before x cause := by
  induction xs with
  | nil => exact .inl ⟨[], .nil⟩
  | cons x xs ih =>
    cases first : f x with
    | error cause => exact .inr ⟨[], x, cause, ⟨xs, rfl⟩, by simp, first⟩
    | ok y =>
      rcases ih with ⟨ys, all⟩ | ⟨before, z, cause, ⟨after, rfl⟩, fine, fails⟩
      · exact .inl ⟨y :: ys, .cons first all⟩
      · refine .inr ⟨x :: before, z, cause, ⟨after, rfl⟩, ?_, fails⟩
        rw [List.forall_mem_cons]
        exact ⟨⟨y, first⟩, fine⟩

end FieldPlot
