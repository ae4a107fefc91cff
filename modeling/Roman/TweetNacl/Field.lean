import Roman.Lib.Limbs
import Roman.Lib.Loops
import Roman.Lib.Words
import Roman.TweetNacl.Box
import Roman.Verifier.Curve

/-! # The field arithmetic of tweetnacl.c

Sixteen limbs of 16 bits, not reduced and with signs. The operations compute sums,
differences, products and inverses modulo the prime as long as the limbs stay small, and
`pack25519` prints the number below the prime.
-/

namespace Roman.TweetNacl

open CMem Limbs Loops Words Verifier

/-- The limbs before limb `k` of the pass. -/
def carried (f : Nat → Int) (k j : Nat) : Int :=
  if j < k then
    digit 65536 (value 65536 f 16) j + if j = 0 ∧ k = 16 then 38 * (value 65536 f 16 / 65536 ^ 16) else 0
  else if j = k then f k + value 65536 f k / 65536 ^ k
  else f j

/-- What one pass leaves: the digits, and what is above the place 2^256 counts 38 fold. -/
def folded (v : Int) (j : Nat) : Int := digit 65536 v j + if j = 0 then 38 * (v / 65536 ^ 16) else 0

/-- What limb `k` is when the pass comes to it. -/
theorem carried_here (f : Nat → Int) (k : Nat) : carried f k k = f k + value 65536 f k / 65536 ^ k := by
  unfold carried
  rw [if_neg (Nat.lt_irrefl k), if_pos rfl]

theorem carried_later (f : Nat → Int) {k j : Nat} (later : k < j) : carried f k j = f j := by
  unfold carried
  rw [if_neg (Nat.lt_asymm later), if_neg later.ne']

/-- One limb: what is above its bits goes to the next one, and from the last one 38 fold
    to the first. -/
theorem carried_step (f : Nat → Int) {i next : Nat} {times : Int} (inside : i < 16)
    (way : i < 15 ∧ next = i + 1 ∧ times = 1 ∨ i = 15 ∧ next = 0 ∧ times = 38) {j : Nat} (below : j < 16) :
    Function.update (Function.update (Function.update (carried f i) i (carried f i i + 65536)) next
        (carried f i next + times * (carried f i i / 65536))) i (carried f i i % 65536) j = carried f (i + 1) j := by
  have digit := digit_carry (b := 65536) (f := f) (n := 16) (by norm_num) inside
  have carry := carry_succ (b := 65536) (f := f) (by norm_num) i
  rw [← carried_here f i] at digit carry
  by_cases here : j = i
  · rw [here, Function.update_self, ← digit]
    unfold carried
    rw [if_pos (Nat.lt_succ_self i)]
    split <;> omega
  rw [Function.update_of_ne here]
  by_cases there : j = next
  · rw [there, Function.update_self, ← carry]
    rcases way with ⟨early, rfl, rfl⟩ | ⟨rfl, rfl, rfl⟩
    · rw [carried_here, carried_later f (Nat.lt_succ_self i), one_mul]
    · unfold carried
      simp
  · rw [Function.update_of_ne there, Function.update_of_ne here]
    unfold carried
    rcases way with ⟨early, rfl, rfl⟩ | ⟨rfl, rfl, rfl⟩ <;> split <;> split <;> simp <;> omega

theorem car25519_holds {o : Gf} {f : Nat → Int} (holds : Limbed o 16 f)
    (bounds : ∀ j < 16, -2 ^ 60 ≤ f j ∧ f j ≤ 2 ^ 60) : Limbed (car25519 o) 16 (folded (value 65536 f 16)) := by
  have start : Limbed o 16 (carried f 0) := by
    refine holds.congr fun j inside => ?_
    unfold carried
    rw [if_neg (Nat.not_lt_zero j)]
    split
    · next zero => simp [zero]
    · rfl
  have last : Limbed (car25519 o) 16 (carried f 16) := by
    unfold car25519
    refine forIn_range (fun k s => Limbed s 16 (carried f k)) (by omega) start ?_
    intro i s _ inside held
    have carry := carry_bounds (b := 65536) (by norm_num) (by norm_num) fun j below => bounds j (below.trans inside)
    have bound := bounds i inside
    have limb : s[i]! + 65536 = word (carried f i i + 65536) := by
      rw [held.limb i inside, ← word_add]
      rfl
    have raised := held.set inside limb
    have quotient : (s.set! i (s[i]! + 65536))[i]! >>> 16 = word (carried f i i / 65536 + 1) := by
      rw [raised.limb i inside, Function.update_self, word_shiftRight (k := 16) _ rfl]
      · congr 1
        omega
      · rw [carried_here]
        constructor <;> omega
    have moves : ∀ {next : Nat} {times : Int} {c : Int64},
        (i < 15 ∧ next = i + 1 ∧ times = 1 ∨ i = 15 ∧ next = 0 ∧ times = 38) →
        c = word (times * (carried f i i / 65536)) → ∀ {t : Gf}, t = (s.set! i (s[i]! + 65536)).set! next
          ((s.set! i (s[i]! + 65536))[next]! + c) →
        Limbed (t.set! i (t[i]! - word (carried f i i / 65536 + 1) <<< 16)) 16 (carried f (i + 1)) := by
      rintro next times c way rfl t rfl
      have other : next ≠ i := by omega
      have sum : (s.set! i (s[i]! + 65536))[next]! + word (times * (carried f i i / 65536)) =
          word (carried f i next + times * (carried f i i / 65536)) := by
        rw [raised.limb next (by omega), Function.update_of_ne other, word_add]
      have moved := raised.set (i := next) (by omega) sum
      generalize (s.set! i (s[i]! + 65536)).set! next _ = t at moved ⊢
      have low : t[i]! - word (carried f i i / 65536 + 1) <<< 16 = word (carried f i i % 65536) := by
        rw [moved.limb i inside, Function.update_of_ne other.symm, Function.update_self,
          word_shiftLeft _ (k := 16) rfl, word_sub]
        congr 1
        omega
      exact (moved.set inside low).congr fun j below => carried_step f inside way below
    dsimp only
    rw [quotient]
    split
    · next early =>
        refine .yield (moves (.inl ⟨early, rfl, rfl⟩) ?_ rfl)
        change _ - word 1 = _
        rw [word_sub]
        congr 1
        omega
    · next late =>
        refine .yield (moves (.inr ⟨by omega, rfl, rfl⟩) ?_ rfl)
        change _ - word 1 + word 37 * (_ - word 1) = _
        rw [word_sub, word_mul, word_add]
        congr 1
        omega
  refine last.congr fun j inside => ?_
  unfold carried folded
  rw [if_pos inside]
  simp

theorem place_cast : ((65536 ^ 16 : Int) : ZMod P) = 38 := by
  have divides : ((65536 ^ 16 : Int) - 38) % P = 0 := by norm_num [P]
  rw [← cast_eq_iff] at divides
  exact divides.trans (by norm_num)

theorem value_folded (v : Int) : value 65536 (folded v) 16 = v % 65536 ^ 16 + 38 * (v / 65536 ^ 16) := by
  unfold folded
  rw [value_add, value_digit_mod (by norm_num)]
  congr 1
  rw [value, Finset.sum_eq_single_of_mem 0 (by simp)]
  · simp
  · intro j _ other
    rw [if_neg other, zero_mul]

theorem folded_cast (v : Int) : ((value 65536 (folded v) 16 : Int) : ZMod P) = v := by
  conv_rhs => rw [← Int.emod_add_mul_ediv v (65536 ^ 16)]
  rw [value_folded, Int.cast_add, Int.cast_add, Int.cast_mul, Int.cast_mul, place_cast]
  norm_num

/-- The limbs stand for the element and are no larger than `size`. -/
def Represents (a : Gf) (size : Int) (x : ZMod P) : Prop :=
  ∃ f, Limbed a 16 f ∧ (∀ j < 16, -size ≤ f j ∧ f j ≤ size) ∧ ((value 65536 f 16 : Int) : ZMod P) = x

namespace Represents

variable {a c : Gf} {m n : Int} {x y : ZMod P}

theorem mono (one : Represents a m x) (le : m ≤ n) : Represents a n x := by
  obtain ⟨f, holds, bounds, eq⟩ := one
  refine ⟨f, holds, fun j inside => ?_, eq⟩
  have := bounds j inside
  omega

theorem congr (one : Represents a m x) (same : x = y) : Represents a m y := same ▸ one

theorem add (one : Represents a m x) (two : Represents c n y) : Represents (gfA a c) (m + n) (x + y) := by
  obtain ⟨f, holds, bounds, rfl⟩ := one
  obtain ⟨g, holds', bounds', rfl⟩ := two
  refine ⟨fun j => f j + g j, holds.zipWith holds' word_add, fun j inside => ?_, ?_⟩
  · have := bounds j inside
    have := bounds' j inside
    dsimp only
    omega
  · rw [value_add, Int.cast_add]

theorem sub (one : Represents a m x) (two : Represents c n y) : Represents (gfZ a c) (m + n) (x - y) := by
  obtain ⟨f, holds, bounds, rfl⟩ := one
  obtain ⟨g, holds', bounds', rfl⟩ := two
  refine ⟨fun j => f j - g j, holds.zipWith holds' word_sub, fun j inside => ?_, ?_⟩
  · have := bounds j inside
    have := bounds' j inside
    dsimp only
    omega
  · rw [value_sub, Int.cast_sub]

end Represents

/-- The first loop of `M`. -/
def productLimbs (a b : Gf) : Array Int64 := Id.run do
  let mut t : Array Int64 := Array.replicate 31 0
  for i in [0:16] do
    for j in [0:16] do
      t := t.set! (i + j) (t[i + j]! + a[i]! * b[j]!)
  return t

/-- The second loop of `M`. -/
def overlayLimbs (t : Array Int64) : Array Int64 := Id.run do
  let mut t := t
  for i in [0:15] do
    t := t.set! i (t[i]! + 38 * t[i + 16]!)
  return t

theorem gfM_eq (a b : Gf) : gfM a b = car25519 (car25519 ((overlayLimbs (productLimbs a b)).extract 0 16)) := rfl

/-- The limbs of a product while it is summed up. -/
structure Summed (t : Array Int64) (v size : Int) (h : Nat → Int) : Prop where
  holds : Limbed t 31 h
  value : value 65536 h 31 = v
  bounds : ∀ k < 31, -size ≤ h k ∧ h k ≤ size

/-- One product of limbs is added. -/
theorem Summed.add {t : Array Int64} {v size most u w : Int} {h : Nat → Int} (summed : Summed t v size h) {k : Nat}
    (inside : k < 31) {x y : Int64} (first : x = word u) (second : y = word w) (bound : -most ≤ u * w ∧ u * w ≤ most) :
    Summed (t.set! k (t[k]! + x * y)) (v + u * w * 65536 ^ k) (size + most) (Function.update h k (h k + u * w)) := by
  constructor
  · exact summed.holds.set inside (by rw [summed.holds.limb k inside, first, second, word_mul, word_add])
  · rw [value_update inside, summed.value, add_sub_cancel_left]
  · intro j below
    have before := summed.bounds j below
    by_cases same : j = k
    · have here := summed.bounds k inside
      rw [same, Function.update_self]
      omega
    · rw [Function.update_of_ne same]
      omega

theorem productLimbs_summed {a c : Gf} {f g : Nat → Int} (one : Limbed a 16 f) (two : Limbed c 16 g) {most : Int}
    (bound : ∀ i < 16, ∀ j < 16, -most ≤ f i * g j ∧ f i * g j ≤ most) :
    ∃ h, Summed (productLimbs a c) (value 65536 f 16 * value 65536 g 16) (256 * most) h := by
  unfold productLimbs
  refine forIn_range (fun i t => ∃ h, Summed t (value 65536 f i * value 65536 g 16) (16 * i * most) h)
    (Nat.zero_le 16) ?_ ?_
  · refine ⟨fun _ => 0, .replicate 31, ?_, fun k _ => by simp⟩
    simp [value]
  · rintro i t _ row ⟨h, summed⟩
    refine .loop ?_
    have sum : value 65536 f (i + 1) * value 65536 g 16 =
        value 65536 f i * value 65536 g 16 + f i * value 65536 g 16 * 65536 ^ i := by
      rw [value_succ]
      ring
    have size : 16 * ((i + 1 : Nat) : Int) * most = (16 * i + (16 : Nat)) * most := by
      push_cast
      ring
    rw [sum, size]
    refine forIn_range (fun j t => ∃ h, Summed t
      (value 65536 f i * value 65536 g 16 + f i * value 65536 g j * 65536 ^ i) ((16 * i + j) * most) h)
      (Nat.zero_le 16) ?_ ?_
    · exact ⟨h, by simpa using summed⟩
    · rintro j t _ column ⟨h, summed⟩
      have next := summed.add (k := i + j) (by omega) (one.limb i row) (two.limb j column) (bound i row j column)
      refine .yield ⟨Function.update h (i + j) (h (i + j) + f i * g j), ?_⟩
      convert next using 1
      · rw [value_succ (f := g) j, pow_add]
        ring
      · push_cast
        ring

/-- The upper limbs of a product folded onto the lower ones. -/
def overlaid (h : Nat → Int) (k j : Nat) : Int := if j < k then h j + 38 * h (j + 16) else h j

theorem value_overlaid (h : Nat → Int) :
    value 65536 (overlaid h 15) 16 = value 65536 h 16 + 38 * value 65536 (fun j => h (16 + j)) 15 := by
  have lower : value 65536 (overlaid h 15) 15 = value 65536 (fun j => h j + 38 * h (16 + j)) 15 := by
    refine value_congr fun j inside => ?_
    rw [overlaid, if_pos inside, Nat.add_comm]
  rw [value_succ, lower, value_add, value_mul, value_succ (f := h) 15, overlaid, if_neg (Nat.lt_irrefl 15)]
  ring

theorem overlaid_cast (h : Nat → Int) : ((value 65536 (overlaid h 15) 16 : Int) : ZMod P) = value 65536 h 31 := by
  rw [value_overlaid, value_append 16 15, Int.cast_add, Int.cast_add, Int.cast_mul, Int.cast_mul, place_cast]
  norm_num

theorem overlayLimbs_holds {t : Array Int64} {h : Nat → Int} (holds : Limbed t 31 h) :
    Limbed (overlayLimbs t) 31 (overlaid h 15) := by
  unfold overlayLimbs
  refine forIn_range (fun i t => Limbed t 31 (overlaid h i)) (Nat.zero_le 15) ?_ ?_
  · exact holds.congr fun j _ => by rw [overlaid, if_neg (Nat.not_lt_zero j)]
  · intro i s _ inside held
    have sum : s[i]! + 38 * s[i + 16]! = word (h i + 38 * h (i + 16)) := by
      rw [held.limb i (by omega), held.limb (i + 16) (by omega), overlaid, overlaid, if_neg (Nat.lt_irrefl i),
        if_neg (by omega)]
      change _ + word 38 * _ = _
      rw [word_mul, word_add]
    refine .yield ((held.set (by omega) sum).congr fun j _ => ?_)
    by_cases same : j = i
    · rw [same, Function.update_self, overlaid, if_pos (Nat.lt_succ_self i)]
    · rw [Function.update_of_ne same, overlaid, overlaid]
      congr 1
      simp only [eq_iff_iff]
      omega

/-- What goes above the place 2^256. -/
theorem quotient_bounds {f : Nat → Int} (bounds : ∀ j < 16, -2 ^ 60 ≤ f j ∧ f j ≤ 2 ^ 60) :
    -2 ^ 50 ≤ value 65536 f 16 / 65536 ^ 16 ∧ value 65536 f 16 / 65536 ^ 16 ≤ 2 ^ 50 := by
  have total := value_bounds (b := 65536) (n := 16) (by norm_num) bounds
  norm_num at total ⊢
  omega

theorem folded_bounds {v : Int} (above : -2 ^ 50 ≤ v / 65536 ^ 16 ∧ v / 65536 ^ 16 ≤ 2 ^ 50) (j : Nat) :
    -2 ^ 60 ≤ folded v j ∧ folded v j ≤ 2 ^ 60 := by
  have least := digit_nonneg (b := 65536) (by norm_num) v j
  have most := digit_lt (b := 65536) (by norm_num) v j
  unfold folded
  split <;> omega

/-- The second pass leaves small limbs. -/
theorem folded_small {v : Int} (above : -2 ^ 50 ≤ v / 65536 ^ 16 ∧ v / 65536 ^ 16 ≤ 2 ^ 50) (j : Nat) :
    -65573 ≤ folded (value 65536 (folded v) 16) j ∧ folded (value 65536 (folded v) 16) j ≤ 65573 := by
  rw [value_folded]
  generalize carried : v % 65536 ^ 16 + 38 * (v / 65536 ^ 16) = w
  have least := digit_nonneg (b := 65536) (by norm_num) w j
  have most := digit_lt (b := 65536) (by norm_num) w j
  have once : -1 ≤ w / 65536 ^ 16 ∧ w / 65536 ^ 16 ≤ 1 := by
    norm_num at above carried ⊢
    omega
  unfold folded
  constructor <;> split <;> omega

/-- Two passes over limbs that are not too large. -/
theorem carry_twice {o : Gf} {f : Nat → Int} (holds : Limbed o 16 f)
    (bounds : ∀ j < 16, -2 ^ 60 ≤ f j ∧ f j ≤ 2 ^ 60) :
    Represents (car25519 (car25519 o)) 65573 (value 65536 f 16 : Int) := by
  have above := quotient_bounds bounds
  have second := car25519_holds (car25519_holds holds bounds) fun j _ => folded_bounds above j
  refine ⟨_, second, fun j _ => folded_small above j, ?_⟩
  rw [folded_cast, folded_cast]

namespace Represents

variable {a c : Gf} {m n : Int} {x y : ZMod P}

theorem mul (one : Represents a m x) (two : Represents c n y) (small : m * n ≤ 2 ^ 40) :
    Represents (gfM a c) 65573 (x * y) := by
  obtain ⟨f, holds, bounds, rfl⟩ := one
  obtain ⟨g, holds', bounds', rfl⟩ := two
  have bound : ∀ i < 16, ∀ j < 16, -2 ^ 40 ≤ f i * g j ∧ f i * g j ≤ 2 ^ 40 := by
    intro i row j column
    have first := abs_le.mpr (bounds i row)
    have second := abs_le.mpr (bounds' j column)
    have product : |f i * g j| ≤ m * n := by
      rw [abs_mul]
      exact mul_le_mul first second (abs_nonneg _) ((abs_nonneg _).trans first)
    exact abs_le.mp (product.trans small)
  obtain ⟨h, summed⟩ := productLimbs_summed holds holds' bound
  have limbs := (overlayLimbs_holds summed.holds).extract (m := 16) (by omega)
  have result := carry_twice limbs fun j inside => by
    have lower := summed.bounds j (by omega)
    have upper := fun early : j < 15 => summed.bounds (j + 16) (by omega)
    unfold overlaid
    split <;> omega
  rwa [overlaid_cast, summed.value, Int.cast_mul, ← gfM_eq] at result

theorem square (one : Represents a m x) (small : m * m ≤ 2 ^ 40) : Represents (gfS a) 65573 (x * x) := one.mul one small

/-- The exponent that `inv25519` has reached after `k` squarings. -/
def inverseExponent : Nat → Nat
  | 0 => 1
  | k + 1 => 2 * inverseExponent k + if 253 - k = 2 ∨ 253 - k = 4 then 0 else 1

/-- The inverse, by the power that Fermat's theorem says. -/
theorem inverse (one : Represents a 131146 x) : Represents (inv25519 a) 131146 x⁻¹ := by
  have power : Represents (inv25519 a) 131146 (x ^ inverseExponent 254) := by
    unfold inv25519
    refine forIn_range (fun k s => Represents s 131146 (x ^ inverseExponent k)) (Nat.zero_le 254) ?_ ?_
    · rwa [inverseExponent, pow_one]
    · intro k s _ inside reached
      have squared := reached.square (by norm_num)
      have exponent : x ^ inverseExponent k * x ^ inverseExponent k = x ^ (2 * inverseExponent k) := by
        rw [two_mul, pow_add]
      rw [exponent] at squared
      dsimp only
      split
      · next other =>
          refine .yield ?_
          rw [inverseExponent, if_neg (by omega), pow_succ]
          exact (squared.mul one (by norm_num)).mono (by norm_num)
      · next skipped =>
          refine .yield ?_
          rw [inverseExponent, if_pos (by omega), Nat.add_zero]
          exact squared.mono (by norm_num)
  have fermat : inverseExponent 254 = P - 2 := by decide +kernel
  rwa [fermat, PrimeField.pow_sub_two P_large] at power

end Represents

end Roman.TweetNacl
