import Mathlib.Data.List.Basic
import Mathlib.Logic.Function.Basic
import Mathlib.Tactic.Common

/-! # Buffers and who owns them

A program allocates buffers, lends them to somebody else, who keeps them or gives them
back, and frees them. The rules say which of this may be done with which buffer; a list
of operations that breaks one has no outcome.
-/

namespace Ownership

inductive Owner
  | ours
  | lent
  | gone
  deriving DecidableEq

inductive Op
  | alloc (i : Nat)
  | lend (i : Nat)
  | back (i : Nat) (kept : Bool)
  | free (i : Nat)
  deriving DecidableEq

/-- Who owns each buffer; a number that no buffer has had has no owner. -/
abbrev Owners := Nat → Option Owner

/-- The owners after an operation that the rules allow. -/
def step (w : Owners) : Op → Option Owners
  | .alloc i => if w i = none then some (Function.update w i (some .ours)) else none
  | .lend i => if w i = some .ours then some (Function.update w i (some .lent)) else none
  | .back i kept =>
      if w i = some .lent then some (Function.update w i (some (if kept then .gone else .ours))) else none
  | .free i => if w i = some .ours then some (Function.update w i (some .gone)) else none

/-- The owners after a list of operations, if the rules allow all of them. -/
def play (w : Owners) : List Op → Option Owners
  | [] => some w
  | op :: ops => (step w op).bind fun w => play w ops

theorem play_append (w : Owners) (first second : List Op) :
    play w (first ++ second) = (play w first).bind fun w => play w second := by
  induction first generalizing w with
  | nil => rfl
  | cons op first ih =>
      rw [List.cons_append, play, play]
      cases step w op with
      | none => rfl
      | some w => exact ih w

/-- What the rules forbid stays forbidden. -/
theorem play_none {w : Owners} {ops more : List Op} (broken : play w ops = none) : play w (ops ++ more) = none := by
  rw [play_append, broken, Option.bind_none]

theorem play_concat {w v : Owners} {ops : List Op} (played : play w ops = some v) (more : List Op) :
    play w (ops ++ more) = play v more := by
  rw [play_append, played, Option.bind_some]

end Ownership
