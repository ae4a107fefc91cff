import Mathlib.Algebra.BigOperators.Intervals
import Mathlib.Algebra.BigOperators.Ring.Finset
import Mathlib.Tactic.Linarith
import Mathlib.Tactic.LinearCombination
import Mathlib.Tactic.Positivity
import Mathlib.Tactic.Ring

/-! # Numbers in limbs

A number in limbs of a base is the sum of the limbs times their places. The limbs may
be negative or larger than the base; a pass that carries from one limb to the next
leaves the digits of the number.
-/

namespace Limbs

open Finset

variable {b : Int} {f g : Nat → Int} {n : Nat}

/-- What the first `n` limbs stand for. -/
def value (b : Int) (f : Nat → Int) (n : Nat) : Int := ∑ j ∈ range n, f j * b ^ j

@[simp] theorem value_zero : value b f 0 = 0 := rfl

theorem value_succ (n : Nat) : value b f (n + 1) = value b f n + f n * b ^ n := sum_range_succ _ n

theorem value_congr (same : ∀ j < n, f j = g j) : value b f n = value b g n :=
  sum_congr rfl fun j member => by rw [same j (mem_range.mp member)]

theorem value_add : value b (fun j => f j + g j) n = value b f n + value b g n := by
  rw [value, value, value, ← sum_add_distrib]
  exact sum_congr rfl fun j _ => add_mul ..

theorem value_sub : value b (fun j => f j - g j) n = value b f n - value b g n := by
  rw [value, value, value, ← sum_sub_distrib]
  exact sum_congr rfl fun j _ => sub_mul ..

theorem value_mul (c : Int) : value b (fun j => c * f j) n = c * value b f n := by
  rw [value, value, mul_sum]
  exact sum_congr rfl fun j _ => mul_assoc ..

/-- The upper limbs are a number by themselves. -/
theorem value_append (m n : Nat) : value b f (m + n) = value b f m + b ^ m * value b (fun j => f (m + j)) n := by
  simp only [value]
  rw [sum_range_add, mul_sum]
  congr 1
  exact sum_congr rfl fun j _ => by ring

/-- Changing one limb changes the number by the difference in its place. -/
theorem value_update {k : Nat} (inside : k < n) (v : Int) :
    value b (Function.update f k v) n = value b f n + (v - f k) * b ^ k := by
  rw [value, value, ← sum_erase_add _ _ (mem_range.mpr inside), ← sum_erase_add _ _ (mem_range.mpr inside),
    Function.update_self]
  have rest : ∀ j ∈ (range n).erase k, Function.update f k v j * b ^ j = f j * b ^ j := by
    intro j member
    rw [Function.update_of_ne (ne_of_mem_erase member)]
  rw [sum_congr rfl rest]
  ring

/-- Bounds for all limbs bound the number. -/
theorem value_bounds {low high : Int} (base : 1 < b) (bounds : ∀ j < n, low ≤ f j ∧ f j ≤ high) :
    low * (b ^ n - 1) ≤ (b - 1) * value b f n ∧ (b - 1) * value b f n ≤ high * (b ^ n - 1) := by
  induction n with
  | zero => simp
  | succ n ih =>
      obtain ⟨least, most⟩ := bounds n (Nat.lt_succ_self n)
      obtain ⟨lower, upper⟩ := ih fun j inside => bounds j (Nat.lt_succ_of_lt inside)
      have place : 0 ≤ (b - 1) * b ^ n := mul_nonneg (by omega) (by positivity)
      have first := mul_le_mul_of_nonneg_right least place
      have second := mul_le_mul_of_nonneg_right most place
      rw [value_succ, pow_succ]
      constructor <;> linarith

def digit (b v : Int) (j : Nat) : Int := v / b ^ j % b

theorem digit_nonneg (base : 0 < b) (v : Int) (j : Nat) : 0 ≤ digit b v j := Int.emod_nonneg _ base.ne'

theorem digit_lt (base : 0 < b) (v : Int) (j : Nat) : digit b v j < b := Int.emod_lt_of_pos _ base

theorem div_pow_succ (base : 0 < b) (v : Int) (k : Nat) : v / b ^ (k + 1) = v / b ^ k / b := by
  rw [pow_succ, Int.ediv_ediv_of_nonneg (by positivity)]

/-- The digits below `n` and the quotient are the number. -/
theorem value_digit (base : 0 < b) (v : Int) (n : Nat) : value b (digit b v) n + v / b ^ n * b ^ n = v := by
  induction n with
  | zero => simp
  | succ n ih =>
      have parts := Int.emod_add_mul_ediv (v / b ^ n) b
      rw [value_succ, digit, div_pow_succ base, pow_succ]
      linear_combination ih + b ^ n * parts

theorem value_digit_mod (base : 0 < b) (v : Int) (n : Nat) : value b (digit b v) n = v % b ^ n := by
  have parts := Int.emod_add_mul_ediv v (b ^ n)
  linear_combination value_digit base v n - parts

theorem value_digit_of_lt {v : Int} (base : 0 < b) (nonneg : 0 ≤ v) (less : v < b ^ n) : value b (digit b v) n = v := by
  rw [value_digit_mod base, Int.emod_eq_of_lt nonneg less]

/-- A multiple of a place does not change the digits below it. -/
theorem digit_add_mul (base : 0 < b) (v w : Int) {j k : Nat} (below : j < k) :
    digit b (v + w * b ^ k) j = digit b v j := by
  obtain ⟨m, rfl⟩ := Nat.exists_eq_add_of_lt below
  have place : w * b ^ (j + m + 1) = w * b ^ m * b * b ^ j := by ring
  rw [digit, digit, place, Int.add_mul_ediv_right _ _ (by positivity), Int.add_mul_emod_self_right]

/-- What is carried to a limb and the limb. -/
theorem value_succ_div (base : 0 < b) (k : Nat) : value b f (k + 1) / b ^ k = f k + value b f k / b ^ k := by
  rw [value_succ, Int.add_mul_ediv_right _ _ (by positivity), add_comm]

/-- What is carried on. -/
theorem carry_succ (base : 0 < b) (k : Nat) :
    value b f (k + 1) / b ^ (k + 1) = (f k + value b f k / b ^ k) / b := by
  rw [div_pow_succ base, value_succ_div base]

/-- A carry is no larger than the limbs. -/
theorem carry_bounds (base : 1 < b) {most : Int} (nonneg : 0 ≤ most) {k : Nat}
    (bounds : ∀ j < k, -most ≤ f j ∧ f j ≤ most) : -most ≤ value b f k / b ^ k ∧ value b f k / b ^ k ≤ most := by
  have place : 0 < b ^ k := by positivity
  have less : value b f k ≤ most * b ^ k ∧ -most * b ^ k ≤ value b f k := by
    obtain ⟨lower, upper⟩ := value_bounds base bounds
    constructor <;> by_contra other <;> nlinarith
  constructor
  · rw [Int.le_ediv_iff_mul_le place]
    exact less.2
  · apply Int.ediv_le_of_le_mul place
    exact less.1

/-- What is left of a limb is the digit. -/
theorem digit_carry (base : 0 < b) {j : Nat} (inside : j < n) :
    digit b (value b f n) j = (f j + value b f j / b ^ j) % b := by
  induction n with
  | zero => exact absurd inside (Nat.not_lt_zero j)
  | succ n ih =>
      rcases Nat.lt_succ_iff_lt_or_eq.mp inside with below | rfl
      · rw [value_succ, digit_add_mul base _ _ below, ih below]
      · rw [digit, value_succ_div base]

/-- The carry of a pass that starts with one. -/
theorem carry_from (base : 0 < b) (c : Int) (k : Nat) :
    (c + value b f (k + 1)) / b ^ k = (c + value b f k) / b ^ k + f k := by
  rw [value_succ, ← add_assoc, Int.add_mul_ediv_right _ _ (by positivity)]

theorem carry_from_bounds (base : 1 < b) {c m : Int} (start : 0 ≤ c ∧ c ≤ m) {k : Nat}
    (bounds : ∀ j < k, 0 ≤ f j ∧ f j ≤ m) :
    0 ≤ (c + value b f k) / b ^ k ∧ (c + value b f k) / b ^ k ≤ m := by
  induction k with
  | zero => simpa using start
  | succ k ih =>
      obtain ⟨least, most⟩ := ih fun j below => bounds j (by omega)
      have bound := bounds k (Nat.lt_succ_self k)
      rw [div_pow_succ (by omega), carry_from (by omega)]
      constructor
      · exact Int.ediv_nonneg (by omega) (by omega)
      · apply Int.ediv_le_of_le_mul (by omega)
        nlinarith

/-- The digit of a pass that starts with a carry. -/
theorem digit_from (base : 0 < b) (c : Int) {j k : Nat} (below : j < k) :
    digit b (c + value b f (k + 1)) j = digit b (c + value b f k) j := by
  rw [value_succ, ← add_assoc, digit_add_mul base _ _ below]

theorem value_range (base : 1 < b) (digits : ∀ j < n, 0 ≤ f j ∧ f j < b) :
    0 ≤ value b f n ∧ value b f n < b ^ n := by
  have bounds := value_bounds base fun j inside => ⟨(digits j inside).1, Int.le_sub_one_of_lt (digits j inside).2⟩
  have positive : 0 < b - 1 := by omega
  constructor
  · exact nonneg_of_mul_nonneg_right (by linarith [bounds.1]) positive
  · have := le_of_mul_le_mul_left bounds.2 positive
    linarith

/-- The limbs of a product in as many limbs, what is above them counts `w` fold. -/
def wrapped (w : Int) (f g : Nat → Int) (n i : Nat) : Int :=
  ∑ j ∈ range n, f j * if j ≤ i then g (i - j) else w * g (i + n - j)

/-- The row of one limb. -/
theorem value_row (w : Int) (j m : Nat) :
    b ^ j * value b g (j + m) = value b (fun i => if j ≤ i then g (i - j) else w * g (i + (j + m) - j)) (j + m) +
      (b ^ (j + m) - w) * value b (fun i => g (m + i)) j := by
  have low : value b (fun i => if j ≤ i then g (i - j) else w * g (i + (j + m) - j)) j =
      w * value b (fun i => g (m + i)) j := by
    rw [← value_mul]
    refine value_congr fun i inside => ?_
    rw [if_neg (by omega), show i + (j + m) - j = m + i by omega]
  have high : (fun i => if j ≤ j + i then g (j + i - j) else w * g (j + i + (j + m) - j)) = g := by
    funext i
    rw [if_pos (by omega), Nat.add_sub_cancel_left]
  have rows := value_append (b := b) (f := fun i => if j ≤ i then g (i - j) else w * g (i + (j + m) - j)) j m
  have limbs := value_append (b := b) (f := g) m j
  rw [low, high] at rows
  rw [rows, Nat.add_comm j m, limbs, pow_add]
  ring

/-- The product modulo the difference. -/
theorem value_wrapped (w : Int) (n : Nat) :
    b ^ n - w ∣ value b f n * value b g n - value b (wrapped w f g n) n := by
  have rows : value b (wrapped w f g n) n =
      ∑ j ∈ range n, f j * value b (fun i => if j ≤ i then g (i - j) else w * g (i + n - j)) n := by
    simp only [value, wrapped, sum_mul, mul_sum]
    rw [sum_comm]
    exact sum_congr rfl fun j _ => sum_congr rfl fun i _ => mul_assoc ..
  have product : value b f n * value b g n = ∑ j ∈ range n, f j * (b ^ j * value b g n) := by
    rw [value, sum_mul]
    exact sum_congr rfl fun j _ => mul_assoc ..
  rw [rows, product, ← sum_sub_distrib]
  refine dvd_sum fun j member => ?_
  obtain ⟨m, rfl⟩ := Nat.exists_eq_add_of_le (mem_range.mp member).le
  rw [value_row w j m]
  exact ⟨f j * value b (fun i => g (m + i)) j, by ring⟩

end Limbs
