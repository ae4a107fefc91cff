import Mathlib.Data.List.FinRange
import Mathlib.Data.Fintype.EquivFin
import Mathlib.Logic.Function.Basic

/-! # A table of slots

A fixed number of slots, each empty or with one thing in it. Programs search such a
table from the front: for an empty slot to put something into, or for the slot of a
thing they take out again.
-/

namespace Pool

variable {n : Nat} {α : Type}

abbrev Slots (n : Nat) (α : Type) := Fin n → Option α

/-- The first empty slot. -/
def vacant (s : Slots n α) : Option (Fin n) := (List.finRange n).find? fun i => (s i).isNone

def put (s : Slots n α) (i : Fin n) (a : α) : Slots n α := Function.update s i (some a)

/-- How many slots are taken. -/
def taken (s : Slots n α) : Nat := (List.finRange n).countP fun i => (s i).isSome

/-- Nothing is in two slots. -/
def Once (s : Slots n α) : Prop := ∀ i j a, s i = some a → s j = some a → i = j

variable {s : Slots n α} {i j : Fin n} {a b : α}

theorem vacant_empty (found : vacant s = some i) : s i = none := by
  have empty := List.find?_some found
  simpa using empty

theorem vacant_none (full : vacant s = none) (i : Fin n) : ∃ a, s i = some a := by
  have isSome := List.find?_eq_none.mp full i (List.mem_finRange i)
  rw [Bool.not_eq_true, Option.isNone_eq_false_iff] at isSome
  exact Option.isSome_iff_exists.mp isSome

/-- A table is not full if another holds all that it holds and one thing more. -/
theorem vacant_of_more {t : Slots n α} (once : Once s) (inside : ∀ i a, s i = some a → ∃ j, t j = some a)
    (more : t j = some b) (absent : ∀ i, s i ≠ some b) : vacant s ≠ none := by
  intro full
  have places : ∀ i, ∃ k, t k = s i := by
    intro i
    obtain ⟨a, here⟩ := vacant_none full i
    rw [here]
    exact inside i a here
  choose place same using places
  have injective : Function.Injective place := by
    intro i k together
    obtain ⟨a, here⟩ := vacant_none full i
    refine once i k a here ?_
    rw [← same k, ← together, same i, here]
  obtain ⟨i, there⟩ := Finite.surjective_of_injective injective j
  refine absent i ?_
  rw [← same i, there, more]

theorem put_eq (s : Slots n α) (i : Fin n) (a : α) (j : Fin n) :
    put s i a j = if j = i then some a else s j := Function.update_apply s i (some a) j

theorem Once.put (once : Once s) (absent : ∀ j, s j ≠ some a) (i : Fin n) : Once (put s i a) := by
  intro j k b inJ inK
  rw [put_eq] at inJ inK
  by_cases atJ : j = i
  · by_cases atK : k = i
    · rw [atJ, atK]
    · rw [if_pos atJ, Option.some.injEq] at inJ
      rw [if_neg atK, ← inJ] at inK
      exact absurd inK (absent k)
  · rw [if_neg atJ] at inJ
    by_cases atK : k = i
    · rw [if_pos atK, Option.some.injEq] at inK
      rw [← inK] at inJ
      exact absurd inJ (absent j)
    · rw [if_neg atK] at inK
      exact once j k b inJ inK

variable [DecidableEq α]

/-- The first slot with this in it. -/
def slotOf (s : Slots n α) (a : α) : Option (Fin n) := (List.finRange n).find? fun i => s i = some a

/-- The first slot with this in it is emptied. -/
def remove (s : Slots n α) (a : α) : Slots n α :=
  match slotOf s a with
  | some i => Function.update s i none
  | none => s

theorem slotOf_none (absent : slotOf s a = none) (i : Fin n) : s i ≠ some a := by
  have none := List.find?_eq_none.mp absent i (List.mem_finRange i)
  simpa using none

theorem slotOf_some (found : slotOf s a = some i) : s i = some a := by
  have here := List.find?_some found
  simpa using here

/-- What is in one slot only is gone once it is removed, and the rest stays. -/
theorem remove_eq (once : Once s) (a : α) (j : Fin n) :
    remove s a j = if s j = some a then none else s j := by
  unfold remove
  cases found : slotOf s a with
  | none =>
      have absent := slotOf_none found j
      simp only [if_neg absent]
  | some i =>
      have here := slotOf_some found
      by_cases same : j = i
      · simp only [same, here, if_true, Function.update_self]
      · have elsewhere : s j ≠ some a := fun there => same (once j i a there here)
        simp only [Function.update_of_ne same, if_neg elsewhere]

theorem mem_remove (once : Once s) : remove s a j = some b ↔ s j = some b ∧ b ≠ a := by
  rw [remove_eq once]
  by_cases here : s j = some a
  · rw [if_pos here, here]
    simp only [reduceCtorEq, Option.some.injEq, false_iff, not_and, not_not]
    exact Eq.symm
  · rw [if_neg here]
    refine ⟨fun there => ⟨there, ?_⟩, And.left⟩
    rintro rfl
    exact here there

theorem Once.remove (once : Once s) (a : α) : Once (remove s a) := by
  intro j k b inJ inK
  exact once j k b ((mem_remove once).mp inJ).1 ((mem_remove once).mp inK).1

end Pool
