import Mathlib.Algebra.Group.Nat.Defs
import Mathlib.Logic.Function.Basic

/-! # Mixing words without loss

The steps from which word mixers and additive generators are built are bijections of
the words of their width: xoring a word with its own right shift, and multiplying it
by or adding an odd constant. That the constant is odd is said by its inverse.
-/

namespace Mixing

open Function

variable {w : Nat}

def xorShift (s : Nat) (x : BitVec w) : BitVec w := x ^^^ (x >>> s)

theorem getLsbD_xorShift (s : Nat) (x : BitVec w) (i : Nat) :
    (xorShift s x).getLsbD i = (x.getLsbD i ^^ x.getLsbD (s + i)) := by
  rw [xorShift, BitVec.getLsbD_xor, BitVec.getLsbD_ushiftRight]

/-- The high bits are kept, and every bit is undone by a higher one. -/
theorem xorShift_injective {s : Nat} (positive : 0 < s) : Injective (xorShift s : BitVec w → BitVec w) := by
  intro x y same
  -- from the top down: `n` bits are left below those that agree
  have above : ∀ n i, w ≤ i + n → x.getLsbD i = y.getLsbD i := by
    intro n
    induction n with
    | zero =>
        intro i outside
        rw [BitVec.getLsbD_of_ge x i outside, BitVec.getLsbD_of_ge y i outside]
    | succ n ih =>
        intro i below
        have bit := congrArg (fun z : BitVec w => z.getLsbD i) same
        have higher := ih (s + i) (by omega)
        simp only [getLsbD_xorShift, higher] at bit
        exact Bool.xor_left_inj.mp bit
  apply BitVec.eq_of_getLsbD_eq
  intro i inside
  exact above w i (Nat.le_add_left w i)

theorem mul_injective {c d : BitVec w} (inverse : c * d = 1#w) : Injective fun x : BitVec w => x * c := by
  apply LeftInverse.injective (g := fun x => x * d)
  intro x
  change x * c * d = x
  rw [BitVec.mul_assoc, inverse, BitVec.mul_one]

theorem add_injective (c : BitVec w) : Injective fun x : BitVec w => x + c :=
  fun _ _ same => (BitVec.add_left_inj c).mp same

/-- The state after `n` steps by an odd constant. -/
def steps (c x : BitVec w) (n : Nat) : BitVec w := x + BitVec.ofNat w n * c

@[simp] theorem steps_zero (c x : BitVec w) : steps c x 0 = x := by
  rw [steps, BitVec.zero_mul, BitVec.add_zero]

theorem steps_add (c x : BitVec w) (m n : Nat) : steps c x (m + n) = steps c (steps c x m) n := by
  unfold steps
  rw [BitVec.ofNat_add, BitVec.add_mul, BitVec.add_assoc]

theorem steps_one (c x : BitVec w) : steps c x 1 = x + c := by
  rw [steps, BitVec.one_mul]

/-- The generator has the full period. -/
theorem steps_distinct {c d : BitVec w} (inverse : c * d = 1#w) (x : BitVec w) {i j : Nat} (first : i < 2 ^ w)
    (second : j < 2 ^ w) (same : steps c x i = steps c x j) : i = j := by
  have products : BitVec.ofNat w i * c = BitVec.ofNat w j * c := (BitVec.add_right_inj x).mp same
  have words : BitVec.ofNat w i = BitVec.ofNat w j := mul_injective inverse products
  have values := congrArg BitVec.toNat words
  rwa [BitVec.toNat_ofNat, BitVec.toNat_ofNat, Nat.mod_eq_of_lt first, Nat.mod_eq_of_lt second] at values

end Mixing
