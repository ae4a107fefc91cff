import Mathlib.Tactic.Common

/-! # Counted loops

The rule of a loop over a range of numbers that changes its variables and never leaves
early: what the body keeps from one number to the next holds at the end.
-/

namespace Loops

variable {State : Type}

/-- The invariant holds in the state that the body leaves. -/
def Leaves (after : State → Prop) (outcome : Id (ForInStep State)) : Prop :=
  ∃ s, outcome = pure (.yield s) ∧ after s

theorem Leaves.yield {after : State → Prop} {s : State} (holds : after s) : Leaves after (pure (.yield s)) :=
  ⟨s, rfl, holds⟩

/-- A body that runs a loop of its own. -/
theorem Leaves.loop {Inner : Type} {after : State → Prop} {inner : Id Inner} {next : Inner → State}
    (holds : after (next inner.run)) : Leaves after (inner >>= fun s => pure (.yield (next s))) :=
  ⟨next inner.run, rfl, holds⟩

theorem forIn_list {body : Nat → State → Id (ForInStep State)} (inv : Nat → State → Prop) (first count : Nat)
    {s : State} (start : inv first s)
    (step : ∀ i s, first ≤ i → i < first + count → inv i s → Leaves (inv (i + 1)) (body i s)) :
    inv (first + count) (forIn (List.range' first count) s body).run := by
  induction count generalizing first s with
  | zero => exact start
  | succ count ih =>
      obtain ⟨s', outcome, next⟩ := step first s (Nat.le_refl _) (by omega) start
      rw [List.range'_succ, List.forIn_cons, outcome, pure_bind]
      have rest := ih (first + 1) next fun i s low high => step i s (by omega) (by omega)
      rwa [Nat.add_assoc, Nat.add_comm 1] at rest

/-- The loop from `first` to `last`. -/
theorem forIn_range {body : Nat → State → Id (ForInStep State)} (inv : Nat → State → Prop) {first last : Nat}
    (ordered : first ≤ last) {s : State} (start : inv first s)
    (step : ∀ i s, first ≤ i → i < last → inv i s → Leaves (inv (i + 1)) (body i s)) :
    inv last (forIn [first:last] s body).run := by
  have size : [first:last].size = last - first := by
    simp [Std.Legacy.Range.size]
  have whole : first + (last - first) = last := Nat.add_sub_cancel' ordered
  have rule := @forIn_list _ body inv first (last - first) _ start
  rw [whole] at rule
  rw [Std.Legacy.Range.forIn_eq_forIn_range', size]
  exact rule step

end Loops
