import Mathlib.Algebra.Group.Nat.Defs
import Mathlib.Tactic.Common

/-! # Deadlines on a clock that wraps around

A counter of 32 bits, and a deadline that is compared with it by the sign of the
difference. The comparison is right as long as the two are less than half a turn apart.
-/

namespace Deadline

/-- The deadline is behind the counter. -/
def passed (deadline now : UInt32) : Bool := (deadline - now).toInt32 < 0

theorem passed_iff (deadline now : UInt32) : passed deadline now = true ↔ 2 ^ 31 ≤ (deadline - now).toNat := by
  unfold passed
  generalize deadline - now = left
  have size := left.toNat_lt
  have value : left.toInt32.toInt = if 2 * left.toNat < 2 ^ 32 then (left.toNat : Int) else left.toNat - (2 ^ 32 : Nat) :=
    BitVec.toInt_eq_toNat_cond left.toBitVec
  have zero : (0 : Int32).toInt = 0 := rfl
  rw [decide_eq_true_iff, Int32.lt_iff_toInt_lt, value, zero]
  split <;> omega

theorem toNat_sub (d t : Nat) :
    (UInt32.ofNat d - UInt32.ofNat t).toNat = (2 ^ 32 - t % 2 ^ 32 + d % 2 ^ 32) % 2 ^ 32 := by
  rw [UInt32.toNat_sub, UInt32.toNat_ofNat', UInt32.toNat_ofNat']

/-- A deadline that is not far ahead has not passed. -/
theorem not_passed {d t : Nat} (ahead : t ≤ d) (near : d < t + 2 ^ 31) :
    passed (UInt32.ofNat d) (UInt32.ofNat t) = false := by
  rw [Bool.eq_false_iff, ne_eq, passed_iff, toNat_sub]
  omega

/-- A deadline that is not far behind has passed. -/
theorem passed_of_lt {d t : Nat} (behind : d < t) (near : t ≤ d + 2 ^ 31) :
    passed (UInt32.ofNat d) (UInt32.ofNat t) = true := by
  rw [passed_iff, toNat_sub]
  omega

/-- A deadline of which only the upper half is kept is rounded up to its end. -/
theorem rounded_eq (d : Nat) :
    ((UInt32.ofNat d >>> 16).toUInt16.toUInt32 <<< 16) ||| 0xffff = UInt32.ofNat (d / 65536 * 65536 + 65535) := by
  apply UInt32.toNat.inj
  have upper : (UInt32.ofNat d >>> 16).toUInt16.toUInt32.toNat = d % 2 ^ 32 / 2 ^ 16 := by
    rw [UInt16.toNat_toUInt32, UInt32.toNat_toUInt16, UInt32.toNat_shiftRight, UInt32.toNat_ofNat',
      Nat.shiftRight_eq_div_pow]
    have shift : (16 : UInt32).toNat % 32 = 16 := rfl
    rw [shift]
    omega
  have place : (16 : UInt32).toNat % 32 = 16 := rfl
  have ones : (0xffff : UInt32).toNat = 65535 := rfl
  have low : d % 2 ^ 32 / 2 ^ 16 * 2 ^ 16 % 2 ^ 32 = 2 ^ 16 * (d % 2 ^ 32 / 2 ^ 16) := by omega
  rw [UInt32.toNat_or, UInt32.toNat_shiftLeft, upper, UInt32.toNat_ofNat', Nat.shiftLeft_eq, place, ones, low,
    ← Nat.two_pow_add_eq_or_of_lt (by omega)]
  omega

end Deadline
