import Mathlib.Data.List.Basic
import Mathlib.Data.List.Count

/-! # Lists joined by a separator

A joint can be found again if it is known how many separators stand in front of it, or
that none stands behind it.
-/

namespace Joined

variable {α : Type} [DecidableEq α] {sep : α}

theorem split_of_count {a b x y : List α} (same : a ++ sep :: x = b ++ sep :: y)
    (count : a.count sep = b.count sep) : a = b ∧ x = y := by
  induction a generalizing b with
  | nil =>
      cases b with
      | nil => exact ⟨rfl, (List.cons.inj same).2⟩
      | cons c b =>
          obtain ⟨rfl, -⟩ := List.cons.inj same
          rw [List.count_nil, List.count_cons_self] at count
          omega
  | cons c a ih =>
      cases b with
      | nil =>
          obtain ⟨rfl, -⟩ := List.cons.inj same
          rw [List.count_nil, List.count_cons_self] at count
          omega
      | cons d b =>
          obtain ⟨rfl, rest⟩ := List.cons.inj same
          rw [List.count_cons, List.count_cons, Nat.add_right_cancel_iff] at count
          obtain ⟨rfl, rfl⟩ := ih rest count
          exact ⟨rfl, rfl⟩

theorem split_of_notMem {a b x y : List α} (same : a ++ sep :: x = b ++ sep :: y) (absent : sep ∉ x)
    (absent' : sep ∉ y) : a = b ∧ x = y := by
  apply split_of_count same
  have counts := congrArg (List.count sep) same
  simp only [List.count_append, List.count_cons_self, List.count_eq_zero_of_not_mem absent,
    List.count_eq_zero_of_not_mem absent'] at counts
  omega

end Joined
