import Mathlib.Logic.Function.Basic
import Mathlib.Tactic.Common

/-! # Arrays as functions

An array of a known size holds the values of a function of the index; a store updates
the function at one place.
-/

namespace Arrays

/-- The place that is written joins those that are done. -/
theorem update_done {β : Type} (done : Nat → Prop) [DecidablePred done] (f g : Nat → β) (i l : Nat) :
    Function.update (fun l => if done l then g l else f l) i (g i) l = if l = i ∨ done l then g l else f l := by
  by_cases here : l = i
  · rw [if_pos (.inl here), here, Function.update_self]
  · rw [Function.update_of_ne here]
    exact if_congr (or_iff_right here).symm rfl rfl

variable {α : Type} [Inhabited α]

/-- The array has `n` entries, the values of `f`. -/
structure Entries (a : Array α) (n : Nat) (f : Nat → α) : Prop where
  size : a.size = n
  entry : ∀ i < n, a[i]! = f i

namespace Entries

variable {a : Array α} {n : Nat} {f g : Nat → α}

theorem congr (holds : Entries a n f) (same : ∀ i < n, f i = g i) : Entries a n g :=
  ⟨holds.size, fun i inside => (holds.entry i inside).trans (same i inside)⟩

theorem set (holds : Entries a n f) {i : Nat} (inside : i < n) {x v : α} (eq : x = v) :
    Entries (a.set! i x) n (Function.update f i v) := by
  constructor
  · rw [Array.size_set!, holds.size]
  · intro j below
    by_cases same : j = i
    · rw [same, Function.update_self, ← eq]
      exact Array.getElem!_set!_self a i _ (by rw [holds.size]; exact inside)
    · rw [Function.update_of_ne same, Array.getElem!_set!_ne a i j _ (Ne.symm same), holds.entry j below]

theorem put {done : Nat → Prop} [DecidablePred done] (holds : Entries a n fun l => if done l then g l else f l) {i : Nat}
    (inside : i < n) {x : α} (eq : x = g i) : Entries (a.set! i x) n fun l => if l = i ∨ done l then g l else f l :=
  (holds.set inside eq).congr fun l _ => update_done done f g i l

theorem replicate (n : Nat) (v : α) : Entries (Array.replicate n v) n fun _ => v := by
  constructor
  · exact Array.size_replicate
  · intro i inside
    rw [getElem!_pos _ i (by rw [Array.size_replicate]; exact inside), Array.getElem_replicate]

theorem extract (holds : Entries a n f) {m : Nat} (part : m ≤ n) : Entries (a.extract 0 m) m f := by
  have size : (a.extract 0 m).size = m := by
    rw [Array.size_extract, holds.size]
    omega
  constructor
  · exact size
  · intro i inside
    have entry := holds.entry i (by omega)
    rw [getElem!_pos _ i (by rw [holds.size]; omega)] at entry
    rw [getElem!_pos _ i (by rw [size]; exact inside), Array.getElem_extract, ← entry]
    congr 1
    exact Nat.zero_add i

/-- The entries of a list. -/
theorem toArray (l : List α) : Entries l.toArray l.length fun i => l.getD i default := by
  constructor
  · exact List.size_toArray
  · intro i inside
    rw [getElem!_pos _ i (by rw [List.size_toArray]; exact inside), List.getElem_toArray, List.getD_eq_getElem?_getD,
      List.getElem?_eq_getElem inside, Option.getD_some]

/-- Two arrays with the same entries. -/
theorem ext {b : Array α} (one : Entries a n f) (two : Entries b n f) : a = b := by
  apply Array.ext
  · rw [one.size, two.size]
  · intro i inside inside'
    have first := one.entry i (one.size ▸ inside)
    have second := two.entry i (two.size ▸ inside')
    rw [getElem!_pos _ i inside] at first
    rw [getElem!_pos _ i inside'] at second
    rw [first, second]

end Entries

end Arrays
