import Mathlib.NumberTheory.LegendreSymbol.Basic
import Mathlib.NumberTheory.LucasPrimality

/-! # Powers and roots modulo a prime

A power is computed by squaring along the bits of the exponent, which a kernel does
for exponents of hundreds of bits. Lucas's test of a prime and Euler's test of a
square then are computations. Modulo a prime of the form `8 k + 5` one power of a
square is its root up to sign and up to a root of `-1`.
-/

namespace PrimeField

/-- `b ^ e % m` for an exponent of at most `bits` bits. -/
def powBits (m b : Nat) : Nat → Nat → Nat
  | 0, _ => 1 % m
  | bits + 1, e =>
      let root := powBits m b bits (e / 2)
      if e % 2 = 1 then root * root % m * b % m else root * root % m

def powMod (m b e : Nat) : Nat := powBits m b (e.log2 + 1) e

theorem powBits_cast (m b : Nat) {bits e : Nat} (size : e < 2 ^ bits) :
    (powBits m b bits e : ZMod m) = (b : ZMod m) ^ e := by
  induction bits generalizing e with
  | zero =>
      obtain rfl : e = 0 := by simpa using size
      simp [powBits]
  | succ bits ih =>
      have half : e / 2 < 2 ^ bits := by
        rw [pow_succ] at size
        omega
      have parts : e = e / 2 + e / 2 + e % 2 := by omega
      simp only [powBits]
      split
      · next odd =>
          conv_rhs => rw [parts, odd, pow_succ, pow_add]
          simp [ih half]
      · next even =>
          conv_rhs => rw [parts, Nat.mod_two_ne_one.mp even, Nat.add_zero, pow_add]
          simp [ih half]

theorem powBits_lt {m : Nat} (pos : 0 < m) (b bits e : Nat) : powBits m b bits e < m := by
  cases bits with
  | zero => exact Nat.mod_lt _ pos
  | succ bits =>
      simp only [powBits]
      split <;> exact Nat.mod_lt _ pos

@[simp] theorem powMod_cast (m b e : Nat) : (powMod m b e : ZMod m) = (b : ZMod m) ^ e :=
  powBits_cast m b Nat.lt_log2_self

theorem powMod_lt {m : Nat} (pos : 0 < m) (b e : Nat) : powMod m b e < m := powBits_lt pos b _ e

theorem pow_eq_one_iff {m : Nat} (large : 1 < m) (b e : Nat) : (b : ZMod m) ^ e = 1 ↔ powMod m b e = 1 := by
  rw [← powMod_cast, ← Nat.cast_one, ZMod.natCast_eq_natCast_iff', Nat.mod_eq_of_lt large,
    Nat.mod_eq_of_lt (powMod_lt (by omega) b e)]

/-- A number, a witness and the prime factors of the number before it. -/
structure Lucas where
  number : Nat
  witness : Nat
  factors : List Nat

/-- Lucas's test. -/
def Lucas.test (l : Lucas) : Bool :=
  decide (1 < l.number) && l.factors.prod == l.number - 1 && powMod l.number l.witness (l.number - 1) == 1 &&
    l.factors.all fun q => powMod l.number l.witness ((l.number - 1) / q) != 1

theorem Lucas.prime {l : Lucas} (primes : ∀ q ∈ l.factors, q.Prime) (test : l.test = true) : l.number.Prime := by
  simp only [Lucas.test, Bool.and_eq_true, decide_eq_true_eq, beq_iff_eq, List.all_eq_true, bne_iff_ne] at test
  obtain ⟨⟨⟨large, product⟩, whole⟩, parts⟩ := test
  apply lucas_primality l.number (l.witness : ZMod l.number) ((pow_eq_one_iff large _ _).mpr whole)
  intro q prime divides
  rw [← product, prime.prime.dvd_prod_iff] at divides
  obtain ⟨f, member, divides⟩ := divides
  obtain rfl : q = f := (Nat.prime_dvd_prime_iff_eq prime (primes f member)).mp divides
  exact fun one => parts q member ((pow_eq_one_iff large _ _).mp one)

/-- Tests one after another; what passed may be a factor later on. -/
def tests (known : List Nat) : List Lucas → Bool
  | [] => true
  | l :: ls => l.factors.all known.contains && l.test && tests (l.number :: known) ls

theorem primes_of_tests {known : List Nat} (primes : ∀ q ∈ known, q.Prime) {ls : List Lucas}
    (test : tests known ls = true) : ∀ l ∈ ls, l.number.Prime := by
  induction ls generalizing known with
  | nil => exact fun l member => absurd member List.not_mem_nil
  | cons l ls ih =>
      simp only [tests, Bool.and_eq_true, List.all_eq_true, List.contains_iff_mem] at test
      have prime : l.number.Prime := Lucas.prime (fun q member => primes q (test.1.1 q member)) test.1.2
      have later := ih (List.forall_mem_cons.mpr ⟨prime, primes⟩) test.2
      exact List.forall_mem_cons.mpr ⟨prime, later⟩

variable {p : Nat} [Fact p.Prime]

/-- Fermat's inverse. -/
theorem pow_sub_two (large : 2 < p) (a : ZMod p) : a ^ (p - 2) = a⁻¹ := by
  rcases eq_or_ne a 0 with rfl | nonzero
  · rw [inv_zero, zero_pow (by omega)]
  · have exponent : p - 1 = p - 2 + 1 := by omega
    apply eq_inv_of_mul_eq_one_left
    rw [← pow_succ, ← exponent, ZMod.pow_card_sub_one_eq_one nonzero]

/-- Euler's test, for a number that is no square. -/
theorem not_isSquare_of_pow (odd : 2 < p) {a : ZMod p} (test : a ^ (p / 2) = -1) : ¬ IsSquare a := by
  have : Fact (2 < p) := ⟨odd⟩
  have half : p / 2 ≠ 0 := by omega
  intro square
  rcases eq_or_ne a 0 with rfl | nonzero
  · rw [zero_pow half] at test
    exact one_ne_zero (neg_eq_zero.mp test.symm)
  · rw [(ZMod.euler_criterion p nonzero).mp square] at test
    exact ZMod.neg_one_ne_one test.symm

/-- The power that is a root of a square or a root of its negative. -/
theorem root_of_square (form : p % 8 = 5) {a : ZMod p} (square : IsSquare a) :
    (a ^ ((p + 3) / 8)) ^ 2 = a ∨ (a ^ ((p + 3) / 8)) ^ 2 = -a := by
  obtain ⟨b, rfl⟩ := square
  rcases eq_or_ne b 0 with rfl | nonzero
  · have exponent : (p + 3) / 8 ≠ 0 := by omega
    left
    simp [zero_pow exponent]
  have power : ((b * b) ^ ((p + 3) / 8)) ^ 2 = b * b * b ^ (p / 2) := by
    have exponent : 2 * ((p + 3) / 8 * 2) = 2 + p / 2 := by omega
    rw [← pow_mul, ← pow_two, ← pow_mul, exponent, pow_add]
  rw [power]
  rcases ZMod.pow_div_two_eq_neg_one_or_one p nonzero with one | minus
  · left
    rw [one, mul_one]
  · right
    rw [minus, mul_neg_one]

end PrimeField
