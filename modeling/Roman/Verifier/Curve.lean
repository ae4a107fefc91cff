import Mathlib.Tactic.NormNum.Prime
import Roman.Lib.Edwards
import Roman.Verifier

/-! # The verifier's field and curve

The modulus is prime, `D` is no square modulo it and `SQRT_M1` is a root of `-1`: the
numbers that the script computes are the coefficients of a complete curve.
-/

namespace Roman.Verifier

open PrimeField

/-- Small prime factors of the numbers of the certificate. -/
def smallPrimes : List Nat :=
  [2, 3, 5, 7, 13, 19, 31, 47, 107, 127, 223, 353, 2437, 4153, 57467, 65147, 75707, 132049, 430751, 569003,
    1923133, 8574133]

/-- The modulus and, before it, the large prime factors of what is tested later. -/
def certificate : List Lucas := [
  ⟨2773320623, 5, [2, 2437, 569003]⟩,
  ⟨72106336199, 7, [2, 13, 2773320623]⟩,
  ⟨1919519569386763, 2, [2, 3, 7, 19, 47, 47, 127, 8574133]⟩,
  ⟨75445702479781427272750846543864801, 7, [2, 2, 2, 2, 2, 3, 3, 5, 5, 75707, 72106336199, 1919519569386763]⟩,
  ⟨31757755568855353, 10, [2, 2, 2, 3, 31, 107, 223, 4153, 430751]⟩,
  ⟨74058212732561358302231226437062788676166966415465897661863160754340907, 2, [2, 3, 353, 57467, 132049,
    1923133, 31757755568855353, 75445702479781427272750846543864801]⟩,
  ⟨P, 2, [2, 2, 3, 65147, 74058212732561358302231226437062788676166966415465897661863160754340907]⟩]

theorem smallPrimes_prime : ∀ q ∈ smallPrimes, q.Prime := by
  have all : smallPrimes.Forall Nat.Prime := by norm_num [smallPrimes]
  exact List.forall_iff_forall_mem.mp all

theorem prime_P : Nat.Prime P := by
  have passed : tests smallPrimes certificate = true := by decide +kernel
  exact primes_of_tests smallPrimes_prime passed (certificate.getLast (List.cons_ne_nil _ _)) (List.getLast_mem _)

instance : Fact (Nat.Prime P) := ⟨prime_P⟩

theorem P_large : 2 < P := by norm_num [P]

theorem P_pos : (0 : Int) < P := Int.ofNat_lt.mpr (Nat.zero_lt_of_lt P_large)

theorem cast_mod (a : Int) : ((a % P : Int) : ZMod P) = a := ZMod.intCast_mod a P

theorem cast_P : (((P : Nat) : Int) : ZMod P) = 0 := by
  rw [Int.cast_natCast, ZMod.natCast_self]

/-- A reduced number. -/
def Reduced (a : Int) : Prop := 0 ≤ a ∧ a < P

theorem reduced_mod (a : Int) : Reduced (a % P) :=
  ⟨Int.emod_nonneg a P_pos.ne', Int.emod_lt_of_pos a P_pos⟩

theorem cast_eq_iff (a b : Int) : (a : ZMod P) = b ↔ (a - b) % P = 0 := by
  rw [← sub_eq_zero, ← Int.cast_sub, ZMod.intCast_zmod_eq_zero_iff_dvd, Int.dvd_iff_emod_eq_zero]

theorem cast_pow (b : Int) (e : Nat) : (pow b e P : ZMod P) = (b : ZMod P) ^ e := by
  have base : ((b % P).toNat : ZMod P) = b := by
    rw [← cast_mod b, ← Int.cast_natCast, Int.toNat_of_nonneg (reduced_mod b).1]
  rw [pow, Int.cast_natCast, powMod_cast, base]

theorem reduced_pow (b : Int) (e : Nat) : Reduced (pow b e P) :=
  ⟨Int.natCast_nonneg _, Int.ofNat_lt.mpr (powMod_lt (Int.ofNat_lt.mp P_pos) _ _)⟩

theorem cast_val (x : ZMod P) : (((x.val : Nat) : Int) : ZMod P) = x := by
  rw [Int.cast_natCast, ZMod.natCast_zmod_val]

/-- Reduced numbers are the numbers of the field. -/
theorem Reduced.toNat {a : Int} (reduced : Reduced a) : a.toNat = (a : ZMod P).val := by
  have whole : ((a.toNat : Nat) : ZMod P) = a := by
    rw [← Int.cast_natCast, Int.toNat_of_nonneg reduced.1]
  have small : a.toNat < P := (Int.toNat_lt reduced.1).mpr reduced.2
  rw [← whole, ZMod.val_cast_of_lt small]

theorem sq_sqrt_m1 : (SQRT_M1 : ZMod P) ^ 2 = -1 := by
  have square : (SQRT_M1 * SQRT_M1 - -1) % P = 0 := by decide +kernel
  have := (cast_eq_iff _ _).mpr square
  push_cast at this
  rw [pow_two, this]

theorem nonsquare_D : ¬ IsSquare (D : ZMod P) := by
  have power : (pow D (P / 2) P - -1) % P = 0 := by decide +kernel
  have := (cast_eq_iff _ _).mpr power
  rw [cast_pow] at this
  push_cast at this
  exact not_isSquare_of_pow P_large this

theorem cast_two_ne_zero : (2 : ZMod P) ≠ 0 := by
  intro zero
  have divides : P ∣ 2 := (ZMod.natCast_eq_zero_iff 2 P).mp (by exact_mod_cast zero)
  have := Nat.le_of_dvd (by omega) divides
  exact absurd P_large (by omega)

/-- The curve of the verifier's coefficients. -/
noncomputable def curve : Edwards.Curve (ZMod P) :=
  ⟨D, SQRT_M1, sq_sqrt_m1, nonsquare_D, cast_two_ne_zero⟩

end Roman.Verifier
