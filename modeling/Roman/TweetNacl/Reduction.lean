import Roman.TweetNacl.Points

/-! # Reduction modulo the order of the base point

`modL` takes multiples of the order away from the top, one byte at a time and with
bytes that may be negative, then takes the last quotient away and gives the order back
if that was too much. The bytes are those of the one number below the order.
-/

namespace Roman.TweetNacl

open CMem LittleEndian Limbs Loops Words Verifier

/-- The bytes of the order. -/
def orderByte (j : Nat) : Int := orderL[j]!.toInt

theorem orderL_word (j : Nat) : orderL[j]! = word (orderByte j) := (Int64.ofInt_toInt _).symm

theorem value_orderByte : value 256 orderByte 32 = L := by decide +kernel

theorem orderByte_range : ∀ j < 32, 0 ≤ orderByte j ∧ orderByte j ≤ 255 := by decide +kernel

theorem orderByte_gap : ∀ j < 20, 16 ≤ j → orderByte j = 0 := by decide +kernel

/-- Sixteen times the order, without its top. -/
theorem value_orderByte_low : 16 * value 256 orderByte 20 = 16 * L - 256 ^ 32 := by decide +kernel

/-- The inner loop of `modL`, with the carry that it leaves. -/
def reduceWindow (x : Array Int64) (i : Nat) : Array Int64 × Int64 := Id.run do
  let mut x := x
  let mut carry : Int64 := 0
  for j in [i - 32:i - 12] do
    x := x.set! j (x[j]! + (carry - 16 * x[i]! * orderL[j - (i - 32)]!))
    carry := (x[j]! + 128) >>> 8
    x := x.set! j (x[j]! - (carry <<< 8))
  return (x, carry)

/-- One turn of the outer loop. -/
def reduceByte (x : Array Int64) (i : Nat) : Array Int64 :=
  let (x, carry) := reduceWindow x i
  let x := x.set! (i - 12) (x[i - 12]! + carry)
  x.set! i 0

/-- The outer loop. -/
def reduceBytes (x : Array Int64) : Array Int64 := Id.run do
  let mut x := x
  for k in [0:32] do
    x := reduceByte x (63 - k)
  return x

/-- The loop that takes the last quotient away, with the borrow that it leaves. -/
def takeQuotient (x : Array Int64) : Array Int64 × Int64 := Id.run do
  let mut x := x
  let mut carry : Int64 := 0
  for j in [0:32] do
    x := x.set! j (x[j]! + (carry - (x[31]! >>> 4) * orderL[j]!))
    carry := x[j]! >>> 8
    x := x.set! j (x[j]! &&& 255)
  return (x, carry)

/-- The loop that gives the order back for a borrow. -/
def giveBack (x : Array Int64) (carry : Int64) : Array Int64 := Id.run do
  let mut x := x
  for j in [0:32] do
    x := x.set! j (x[j]! - carry * orderL[j]!)
  return x

/-- The loop that carries for the last time. -/
def carryBytes (x : Array Int64) : Array Int64 := Id.run do
  let mut x := x
  for i in [0:32] do
    x := x.set! (i + 1) (x[i + 1]! + (x[i]! >>> 8))
  return x

theorem modLimbs_eq (x : Array Int64) :
    modLimbs x = carryBytes (giveBack (takeQuotient (reduceBytes x)).1 (takeQuotient (reduceBytes x)).2) := by
  unfold modLimbs
  rw [Id.run_bind]
  generalize first : Id.run (forIn [0:32] x _) = y
  have reduced : y = reduceBytes x := by
    rw [← first]
    rfl
  rw [← reduced, Id.run_bind]
  generalize second : Id.run (forIn [0:32] (y, (0 : Int64)) _) = z
  have taken : z = takeQuotient y := by
    rw [← second]
    rfl
  rw [← taken, Id.run_bind]
  generalize third : Id.run (forIn [0:32] z.1 _) = w
  have given : w = giveBack z.1 z.2 := by
    rw [← third]
    rfl
  rw [← given]
  rfl

/-- The number is no further from zero than this. -/
abbrev Within (most v : Int) : Prop := -most ≤ v ∧ v ≤ most

/-- A bound for the carry after `t` bytes, if the last four bytes of the window are no larger than `most`. -/
def carryMost (most : Int) : Nat → Int
  | 0 => 2 ^ 28
  | t + 1 => if t < 16 then 2 ^ 28 else (most + carryMost most t + 128) / 256

/-- The window that starts at byte `s`, after `t` of its bytes: `c` is carried on. -/
structure Window (f g : Nat → Int) (s t : Nat) (most c : Int) : Prop where
  outside : ∀ j, j < s ∨ s + t ≤ j → g j = f j
  small : ∀ j, s ≤ j → j < s + t → Within 128 (g j)
  number : value 256 g 64 + c * 256 ^ (s + t) =
    value 256 f 64 - 16 * f (s + 32) * value 256 orderByte t * 256 ^ s
  carry : Within (carryMost most t) c

namespace Window

variable {f g : Nat → Int} {s t : Nat} {most c : Int}

theorem start (f : Nat → Int) (s : Nat) (most : Int) : Window f f s 0 most 0 := by
  constructor
  · exact fun j _ => rfl
  · intro j low high
    omega
  · rw [value_zero]
    ring
  · constructor <;> norm_num [carryMost]

theorem carryMost_le (least : 0 ≤ most) (top : most ≤ 2 ^ 22) (t : Nat) :
    0 ≤ carryMost most t ∧ carryMost most t ≤ 2 ^ 28 := by
  induction t with
  | zero => exact ⟨by norm_num [carryMost], le_refl _⟩
  | succ t ih =>
      unfold carryMost
      split_ifs <;> omega

/-- The byte before its carry is split off. -/
def sum (f g : Nat → Int) (s t : Nat) (c : Int) : Int := g (s + t) + (c - 16 * f (s + 32) * orderByte t)

section
variable (window : Window f g s t most c) (inside : t < 20) (fits : s + 32 < 64)
  (bounds : ∀ j < 64, Within (2 ^ 22) (f j)) (lastLimbs : ∀ j, s + 16 ≤ j → j < s + 20 → Within most (f j))
  (least : 0 ≤ most) (top : most ≤ 2 ^ 22)
include window inside fits bounds least top

theorem sum_within : Within (2 ^ 35) (sum f g s t c) := by
  have limb := bounds (s + t) (by omega)
  obtain ⟨lowest, highest⟩ := bounds (s + 32) fits
  obtain ⟨nonneg, byte⟩ := orderByte_range t (by omega)
  have carry := window.carry
  have limit := (carryMost_le least top t).2
  have upper : f (s + 32) * orderByte t ≤ 2 ^ 22 * 255 := by nlinarith
  have lower : -(2 ^ 22 * 255) ≤ f (s + 32) * orderByte t := by nlinarith
  rw [sum, window.outside _ (.inr (le_refl _)), mul_assoc]
  omega

include lastLimbs

/-- One byte of the window. -/
theorem step : Window f (Function.update g (s + t) (sum f g s t c - (sum f g s t c + 128) / 256 * 2 ^ 8))
    s (t + 1) most ((sum f g s t c + 128) / 256) := by
  have within := window.sum_within inside fits bounds least top
  constructor
  · intro j away
    rw [Function.update_of_ne (by omega), window.outside j (by omega)]
  · intro j low high
    by_cases here : j = s + t
    · rw [here, Function.update_self]
      omega
    · rw [Function.update_of_ne here]
      exact window.small j low (by omega)
  · have number := window.number
    rw [value_update (by omega), value_succ (f := orderByte) t, sum, ← Nat.add_assoc, pow_succ]
    linear_combination number
  · by_cases early : t < 16
    · rw [carryMost, if_pos early]
      omega
    · have limb := lastLimbs (s + t) (by omega) (by omega)
      have carry := window.carry
      rw [carryMost, if_neg early, sum, window.outside _ (.inr (le_refl _)), orderByte_gap t inside (by omega)]
      omega

end

end Window

section
variable {x : Array Int64} {f : Nat → Int} {s : Nat} {most : Int} (holds : Limbed x 64 f) (fits : s + 32 < 64)
  (bounds : ∀ j < 64, Within (2 ^ 22) (f j)) (lastLimbs : ∀ j, s + 16 ≤ j → j < s + 20 → Within most (f j))
  (least : 0 ≤ most) (top : most ≤ 2 ^ 22)
include holds fits bounds lastLimbs least top

theorem reduceWindow_holds : ∃ g c, Limbed (reduceWindow x (s + 32)).1 64 g ∧
    (reduceWindow x (s + 32)).2 = word c ∧ Window f g s 20 most c := by
  suffices run : ∃ t, s + 20 = s + t ∧ ∃ g c, Limbed (reduceWindow x (s + 32)).1 64 g ∧
      (reduceWindow x (s + 32)).2 = word c ∧ Window f g s t most c by
    obtain ⟨t, last, run⟩ := run
    rwa [← Nat.add_left_cancel last] at run
  unfold reduceWindow
  simp only [Id.run_bind, Id.run_pure, Nat.add_sub_cancel]
  refine forIn_range (fun j (r : Array Int64 × Int64) => ∃ t, j = s + t ∧ ∃ g c, Limbed r.1 64 g ∧ r.2 = word c ∧
    Window f g s t most c) (Nat.le_add_right s 20) ⟨0, rfl, f, 0, holds, rfl, .start f s most⟩ ?_
  rintro j ⟨y, carry⟩ low high ⟨t, rfl, g, c, held, rfl, window⟩
  have within := window.sum_within (by omega) fits bounds least top
  have summed : y[s + t]! + (word c - 16 * y[s + 32]! * orderL[s + t - s]!) = word (Window.sum f g s t c) := by
    rw [held.limb _ (by omega), held.limb _ fits, Nat.add_sub_cancel_left, orderL_word, Window.sum,
      window.outside (s + 32) (.inr (by omega)), show (16 : Int64) = word 16 from rfl, word_mul, word_mul, word_sub, word_add]
  dsimp only at held ⊢
  have moved := held.set (i := s + t) (by omega) summed
  generalize y.set! (s + t) _ = y' at moved ⊢
  have here := moved.limb (s + t) (by omega)
  rw [Function.update_self] at here
  have carried : (y'[s + t]! + 128) >>> 8 = word ((Window.sum f g s t c + 128) / 256) := by
    rw [here, show (128 : Int64) = word 128 from rfl, word_add,
      word_shiftRight (k := 8) ⟨by omega, by omega⟩ rfl]
    rfl
  have left := moved.set (i := s + t) (by omega) (x := y'[s + t]! - ((y'[s + t]! + 128) >>> 8 <<< 8))
    (v := Window.sum f g s t c - (Window.sum f g s t c + 128) / 256 * 2 ^ 8)
    (by rw [carried, here, word_shiftLeft _ (k := 8) rfl, word_sub])
  rw [Function.update_idem] at left
  exact .yield ⟨t + 1, rfl, _, _, left, carried, window.step (by omega) fits bounds lastLimbs least top⟩

/-- One turn takes a multiple of the order away, and the byte it started from. -/
theorem reduceByte_holds : ∃ g, Limbed (reduceByte x (s + 32)) 64 g ∧ g (s + 32) = 0 ∧
      value 256 g 64 = value 256 f 64 - 16 * f (s + 32) * L * 256 ^ s ∧
      (∀ j, s ≤ j → j < s + 20 → Within 128 (g j)) ∧
      (∀ j, j < s ∨ s + 20 < j → j ≠ s + 32 → g j = f j) ∧
      Within (carryMost most 20) (g (s + 20) - f (s + 20)) := by
  obtain ⟨g, c, held, carry, window⟩ := reduceWindow_holds holds fits bounds lastLimbs least top
  have added : (reduceWindow x (s + 32)).1[s + 20]! + (reduceWindow x (s + 32)).2 = word (g (s + 20) + c) := by
    rw [held.limb _ (by omega), carry, word_add]
  have last := (held.set (i := s + 20) (by omega) added).set (i := s + 32) fits (x := 0) (v := 0) rfl
  have number := window.number
  refine ⟨_, last, Function.update_self .., ?_, ?_, ?_, ?_⟩
  · rw [value_update fits, Function.update_of_ne (by omega), value_update (by omega),
      window.outside (s + 32) (.inr (by omega))]
    rw [mul_comm 16, mul_assoc (f _), value_orderByte_low] at number
    rw [pow_add 256 s 32]
    linear_combination number
  · intro j low high
    rw [Function.update_of_ne (by omega), Function.update_of_ne (by omega)]
    exact window.small j low high
  · intro j away other
    rw [Function.update_of_ne other, Function.update_of_ne (by omega)]
    exact window.outside j (by omega)
  · rw [Function.update_of_ne (by omega), Function.update_self, window.outside (s + 20) (.inr (le_refl _)),
      add_sub_cancel_left]
    exact window.carry

end

/-- The limbs after `k` turns. -/
structure Reducing (f g : Nat → Int) (k : Nat) : Prop where
  number : value 256 g 64 % L = value 256 f 64 % L
  done : ∀ j, 64 ≤ j + k → j < 64 → g j = 0
  most : ∀ j < 64, Within (2 ^ 22) (g j)
  first : k = 0 → ∀ j < 64, Within (2 ^ 21) (g j)
  recent : 0 < k → ∀ j, 32 ≤ j + k → j + k < 52 → Within 128 (g j)
  later : 0 < k → ∀ j, 32 ≤ j + k → j < 51 → Within 129 (g j)

theorem Reducing.start {f : Nat → Int} (bounds : ∀ j < 64, Within (2 ^ 21) (f j)) : Reducing f f 0 := by
  constructor
  · rfl
  · intro j high low
    omega
  · intro j inside
    have := bounds j inside
    omega
  · exact fun _ => bounds
  · exact fun positive => absurd positive (lt_irrefl 0)
  · exact fun positive => absurd positive (lt_irrefl 0)

theorem Reducing.step {f g : Nat → Int} {k : Nat} (reducing : Reducing f g k) (inside : k < 32) {y : Array Int64}
    (holds : Limbed y 64 g) : ∃ g', Limbed (reduceByte y (63 - k)) 64 g' ∧ Reducing f g' (k + 1) := by
  obtain ⟨s, whole⟩ := Nat.exists_eq_add_of_lt inside
  have position : 63 - k = s + 32 := by omega
  have last : ∃ most, 0 ≤ most ∧ most ≤ 2 ^ 22 ∧ (∀ j, s + 16 ≤ j → j < s + 20 → Within most (g j)) ∧
      Within (2 ^ 22 - carryMost most 20) (g (s + 20)) ∧ (0 < k → carryMost most 20 = 1) := by
    by_cases zero : k = 0
    · have early := reducing.first zero (s + 20) (by omega)
      refine ⟨2 ^ 22, by norm_num, le_refl _, fun j _ high => reducing.most j (by omega), ?_, fun positive => by omega⟩
      norm_num [carryMost] at early ⊢
      omega
    · have positive := Nat.pos_of_ne_zero zero
      have before := reducing.recent positive (s + 20) (by omega) (by omega)
      refine ⟨128, by norm_num, by norm_num, fun j low high => reducing.recent positive j (by omega) (by omega), ?_,
        fun _ => by norm_num [carryMost]⟩
      norm_num [carryMost]
      omega
  obtain ⟨most, least, top, lastLimbs, room, one⟩ := last
  obtain ⟨g', holds', zero', number, small, same, carry⟩ := reduceByte_holds holds (by omega) reducing.most lastLimbs least top
  refine ⟨g', position ▸ holds', ?_, ?_, ?_, ?_, ?_, ?_⟩
  · rw [number, ← reducing.number, mul_right_comm, ← neg_add_eq_sub, ← neg_mul, Int.mul_add_emod_self_right]
  · intro j high low
    by_cases here : j = s + 32
    · rw [here, zero']
    · rw [same j (by omega) here, reducing.done j (by omega) low]
  · intro j below
    by_cases here : j = s + 32
    · rw [here, zero']
      omega
    · have before := reducing.most j below
      have window := small j
      have next := same j
      by_cases last : j = s + 20
      · rw [last]
        omega
      · omega
  · exact fun noneYet => absurd noneYet (Nat.succ_ne_zero k)
  · intro _ j low high
    exact small j (by omega) (by omega)
  · intro _ j low high
    by_cases zero : k = 0
    · have := small j (by omega) (by omega)
      omega
    have positive := Nat.pos_of_ne_zero zero
    by_cases last : j = s + 20
    · have before := reducing.recent positive j (by omega) (by omega)
      rw [one positive] at carry
      rw [last] at before ⊢
      omega
    · by_cases inWindow : j < s + 20
      · have := small j (by omega) inWindow
        omega
      · by_cases here : j = s + 32
        · rw [here, zero']
          omega
        · rw [same j (by omega) here]
          exact reducing.later positive j (by omega) high

theorem reduceBytes_holds {x : Array Int64} {f : Nat → Int} (holds : Limbed x 64 f)
    (bounds : ∀ j < 64, Within (2 ^ 21) (f j)) : ∃ g, Limbed (reduceBytes x) 64 g ∧ Reducing f g 32 := by
  unfold reduceBytes
  refine forIn_range (fun k y => ∃ g, Limbed y 64 g ∧ Reducing f g k) (Nat.zero_le 32) ⟨f, holds, .start bounds⟩ ?_
  rintro k y _ inside ⟨g, held, reducing⟩
  exact .yield (reducing.step inside held)

/-- What the loop adds up, byte by byte, if it takes `q` orders away. -/
def lessQuotient (g : Nat → Int) (q : Int) (j : Nat) : Int := g j - q * orderByte j

theorem lessQuotient_within {g : Nat → Int} (small : ∀ j < 32, Within 129 (g j)) {j : Nat} (inside : j < 32) :
    Within (2 ^ 12) (lessQuotient g (g 31 / 16) j) := by
  have limb := small j inside
  have top := small 31 (by omega)
  obtain ⟨nonneg, byte⟩ := orderByte_range j inside
  have lowest : -9 ≤ g 31 / 16 := by omega
  have highest : g 31 / 16 ≤ 9 := by omega
  have upper : g 31 / 16 * orderByte j ≤ 9 * 255 := by nlinarith
  have lower : -(9 * 255) ≤ g 31 / 16 * orderByte j := by nlinarith
  rw [lessQuotient]
  omega

/-- The bytes below `k` of a number of 32 limbs, and the other limbs as they were. -/
def digitsBelow (h g : Nat → Int) (k j : Nat) : Int := if j < k then digit 256 (value 256 h 32) j else g j

theorem digitsBelow_here (h g : Nat → Int) (k : Nat) : digitsBelow h g k k = g k := if_neg (lt_irrefl k)

theorem digitsBelow_succ (h g : Nat → Int) {k : Nat} (inside : k < 32) :
    Function.update (digitsBelow h g k) k ((h k + value 256 h k / 256 ^ k) % 256) = digitsBelow h g (k + 1) := by
  funext j
  rw [← digit_carry (by norm_num) inside]
  by_cases here : j = k
  · rw [here, Function.update_self, digitsBelow, if_pos (Nat.lt_succ_self k)]
  · rw [Function.update_of_ne here, digitsBelow, digitsBelow]
    congr 1
    simp only [eq_iff_iff]
    omega

theorem takeQuotient_holds {x : Array Int64} {g : Nat → Int} (holds : Limbed x 64 g)
    (small : ∀ j < 32, Within 129 (g j)) :
    Limbed (takeQuotient x).1 64 (digitsBelow (lessQuotient g (g 31 / 16)) g 32) ∧
      (takeQuotient x).2 = word (value 256 (lessQuotient g (g 31 / 16)) 32 / 256 ^ 32) := by
  generalize quotient : lessQuotient g (g 31 / 16) = h
  have bounds : ∀ j < 32, Within (2 ^ 12) (h j) := fun j inside => quotient ▸ lessQuotient_within small inside
  unfold takeQuotient
  simp only [Id.run_bind, Id.run_pure]
  refine forIn_range (fun k (r : Array Int64 × Int64) => Limbed r.1 64 (digitsBelow h g k) ∧
    r.2 = word (value 256 h k / 256 ^ k)) (Nat.zero_le 32) ⟨holds.congr fun j _ => (if_neg (Nat.not_lt_zero j)).symm, rfl⟩ ?_
  rintro k ⟨y, carry⟩ _ inside ⟨held, carried⟩
  dsimp only at held carried ⊢
  have top : y[31]! >>> 4 = word (g 31 / 16) := by
    have limb := small 31 (by omega)
    rw [held.limb 31 (by omega), digitsBelow, if_neg (by omega), word_shiftRight (k := 4) ⟨by omega, by omega⟩ rfl]
    rfl
  have summed : y[k]! + (carry - (y[31]! >>> 4) * orderL[k]!) = word (h k + value 256 h k / 256 ^ k) := by
    rw [held.limb k (by omega), digitsBelow_here, top, carried, orderL_word, word_mul, word_sub, word_add, ← quotient,
      lessQuotient]
    congr 1
    ring
  have moved := held.set (i := k) (by omega) summed
  generalize y.set! k _ = y' at moved ⊢
  have here := moved.limb k (by omega)
  rw [Function.update_self] at here
  have limb := bounds k inside
  have carry := carry_bounds (b := 256) (by norm_num) (by norm_num) fun j below => bounds j (below.trans inside)
  refine .yield ⟨?_, ?_⟩
  · have low : y'[k]! &&& 255 = word ((h k + value 256 h k / 256 ^ k) % 256) := by
      rw [here, word_and _ (k := 8) rfl (by norm_num)]
      rfl
    have left := moved.set (i := k) (by omega) low
    rwa [Function.update_idem, digitsBelow_succ h g inside] at left
  · dsimp only
    rw [here, word_shiftRight (k := 8) ⟨by omega, by omega⟩ rfl, carry_succ (by norm_num)]
    rfl

theorem giveBack_holds {x : Array Int64} {g : Nat → Int} (holds : Limbed x 64 g) (c : Int) :
    Limbed (giveBack x (word c)) 64 fun j => if j < 32 then lessQuotient g c j else g j := by
  unfold giveBack
  refine forIn_range (fun k (y : Array Int64) => Limbed y 64 fun j => if j < k then lessQuotient g c j else g j)
    (Nat.zero_le 32) (holds.congr fun j _ => (if_neg (Nat.not_lt_zero j)).symm) ?_
  intro k y _ inside held
  have here : y[k]! - word c * orderL[k]! = word (lessQuotient g c k) := by
    rw [held.limb k (by omega), if_neg (lt_irrefl k), orderL_word, word_mul, word_sub, lessQuotient]
  refine .yield ((held.set (i := k) (by omega) here).congr fun j _ => ?_)
  by_cases same : j = k
  · rw [same, Function.update_self, if_pos (Nat.lt_succ_self k)]
  · rw [Function.update_of_ne same]
    congr 1
    simp only [eq_iff_iff]
    omega

theorem carryBytes_holds {x : Array Int64} {g : Nat → Int} (holds : Limbed x 64 g)
    (small : ∀ j < 32, Within (2 ^ 12) (g j)) :
    ∀ j < 32, (carryBytes x)[j]! = word (g j + value 256 g j / 256 ^ j) := by
  suffices all : Limbed (carryBytes x) 64 fun j => if j ≤ 32 then g j + value 256 g j / 256 ^ j else g j by
    intro j inside
    rw [all.limb j (by omega), if_pos (by omega)]
  unfold carryBytes
  refine forIn_range (fun k (y : Array Int64) => Limbed y 64 fun j => if j ≤ k then g j + value 256 g j / 256 ^ j else g j)
    (Nat.zero_le 32) (holds.congr fun j _ => ?_) ?_
  · split
    · next zero =>
        rw [Nat.le_zero.mp zero]
        simp
    · rfl
  · intro k y _ inside held
    have limb := small k inside
    have carry := carry_bounds (b := 256) (by norm_num) (by norm_num) fun j below => small j (below.trans inside)
    have here : y[k + 1]! + (y[k]! >>> 8) = word (g (k + 1) + value 256 g (k + 1) / 256 ^ (k + 1)) := by
      rw [held.limb k (by omega), held.limb (k + 1) (by omega), if_pos (le_refl k), if_neg (by omega),
        word_shiftRight (k := 8) ⟨by omega, by omega⟩ rfl, word_add, carry_succ (by norm_num)]
      rfl
    refine .yield ((held.set (i := k + 1) (by omega) here).congr fun j _ => ?_)
    by_cases same : j = k + 1
    · rw [same, Function.update_self, if_pos (le_refl _)]
    · rw [Function.update_of_ne same]
      congr 1
      simp only [eq_iff_iff]
      omega

/-- Without its last quotient the number is less than one order from zero. -/
theorem lessQuotient_range {g : Nat → Int} (small : ∀ j < 32, Within 129 (g j)) :
    value 256 (lessQuotient g (g 31 / 16)) 32 = value 256 g 32 - g 31 / 16 * L ∧
      -L ≤ value 256 (lessQuotient g (g 31 / 16)) 32 ∧ value 256 (lessQuotient g (g 31 / 16)) 32 < L := by
  have number : value 256 (lessQuotient g (g 31 / 16)) 32 = value 256 g 32 - g 31 / 16 * L := by
    unfold lessQuotient
    rw [value_sub, value_mul, value_orderByte]
  obtain ⟨lower, upper⟩ := value_bounds (b := 256) (n := 31) (by norm_num) fun j below => small j (by omega)
  have top := small 31 (by omega)
  refine ⟨number, ?_⟩
  rw [number, value_succ (f := g) 31]
  norm_num [L] at lower upper ⊢
  omega

/-- The digits after the order is given back for a borrow. -/
theorem borrow_digits {w : Int} (least : -L ≤ w) (less : w < L) {d : Nat → Int}
    (same : ∀ j < 32, d j = digit 256 w j - w / 256 ^ 32 * orderByte j) {j : Nat} (inside : j < 32) :
    digit 256 (value 256 d 32) j = digit 256 (w % L) j := by
  have number : value 256 d 32 = w % 256 ^ 32 - w / 256 ^ 32 * L := by
    rw [value_congr same, value_sub, value_mul, value_orderByte, value_digit_mod (by norm_num)]
  have whole : value 256 d 32 = w % L + -(w / 256 ^ 32) * 256 ^ 32 := by
    rw [number]
    norm_num [L] at least less ⊢
    omega
  rw [whole, digit_add_mul (by norm_num) _ _ inside]

/-- `modL` gives the bytes of the remainder, whatever the limbs are. -/
theorem modL_eq {x : Array Int64} {f : Nat → Int} (holds : Limbed x 64 f) (bounds : ∀ j < 64, Within (2 ^ 21) (f j)) :
    modL x = toBytes 32 (value 256 f 64 % L).toNat := by
  obtain ⟨g, held, reducing⟩ := reduceBytes_holds holds bounds
  have small : ∀ j < 32, Within 129 (g j) := fun j inside => reducing.later (by omega) j (by omega) (by omega)
  have upper : value 256 g 64 = value 256 g 32 := by
    rw [value_append 32 32, value_congr (g := fun _ => 0) fun j inside => reducing.done (32 + j) (by omega) (by omega)]
    simp [value]
  obtain ⟨number, least, less⟩ := lessQuotient_range small
  obtain ⟨taken, carry⟩ := takeQuotient_holds held small
  have digits : ∀ j < 32, digitsBelow (lessQuotient g (g 31 / 16)) g 32 j =
      digit 256 (value 256 (lessQuotient g (g 31 / 16)) 32) j := fun j inside => if_pos inside
  generalize value 256 (lessQuotient g (g 31 / 16)) 32 = w at number least less carry digits
  obtain ⟨d, back, given⟩ : ∃ d, Limbed (giveBack (takeQuotient (reduceBytes x)).1 (word (w / 256 ^ 32))) 64 d ∧
      ∀ j < 32, d j = digit 256 w j - w / 256 ^ 32 * orderByte j := by
    refine ⟨_, giveBack_holds taken (w / 256 ^ 32), fun j inside => ?_⟩
    rw [if_pos inside, lessQuotient, digits j inside]
  have remainder : w % L = value 256 f 64 % L := by
    rw [number, ← reducing.number, upper, ← neg_add_eq_sub, ← neg_mul, Int.mul_add_emod_self_right]
  have borrow : -1 ≤ w / 256 ^ 32 ∧ w / 256 ^ 32 ≤ 0 := by
    norm_num [L] at least less
    omega
  have limbs := carryBytes_holds back fun j inside => by
    have byte := orderByte_range j inside
    have low := digit_nonneg (b := 256) (by norm_num) w j
    have high := digit_lt (b := 256) (by norm_num) w j
    rw [given j inside]
    constructor <;> nlinarith
  have nonneg : 0 ≤ w % L := Int.emod_nonneg _ (by norm_num [L])
  rw [← remainder, toBytes_map]
  unfold modL
  rw [modLimbs_eq, carry]
  refine List.map_congr_left fun i member => ?_
  have inside := List.mem_range.mp member
  have byte := borrow_digits least less given inside
  obtain ⟨v, whole⟩ := Int.eq_ofNat_of_zero_le nonneg
  have low : digit 256 (w % L) i = (v / 256 ^ i % 256 : Nat) := by
    rw [whole, digit]
    push_cast
    rfl
  have same : UInt8.ofNat (v / 256 ^ i % 256) = UInt8.ofNat (v / 256 ^ i) := by
    apply UInt8.toNat.inj
    change v / 256 ^ i % 256 % 256 = v / 256 ^ i % 256
    omega
  dsimp only
  rw [limbs i inside, word_and _ (k := 8) rfl (by norm_num), show (2 : Int) ^ 8 = 256 from rfl,
    ← digit_carry (by norm_num) inside, byte, low, toUInt8_word, same, whole, Int.toNat_natCast]

/-- The bytes of a string as limbs. -/
def byteLimb (s : Bytes) (j : Nat) : Int := (s.getD j 0).toNat

theorem byteLimb_range (s : Bytes) (j : Nat) : 0 ≤ byteLimb s j ∧ byteLimb s j ≤ 255 := by
  have := (s.getD j 0).toNat_lt
  unfold byteLimb
  omega

theorem value_byteLimb (s : Bytes) (n : Nat) : value 256 (byteLimb s) n = (fromBytes s % 256 ^ n : Nat) := by
  have same : ∀ j < n, byteLimb s j = digit 256 (fromBytes s) j := by
    intro j _
    rw [byteLimb, fromBytes_getD, digit]
    push_cast
    rfl
  rw [value_congr same, value_digit_mod (by norm_num)]
  push_cast
  rfl

/-- `reduce` gives the remainder of a hash. -/
theorem reduce_eq {r : Bytes} (length : r.length = 64) : reduce r = toBytes 32 (fromBytes r % L) := by
  have holds : Limbed (r.map fun b => b.toUInt64.toInt64).toArray 64 (byteLimb r) := by
    constructor
    · rw [List.size_toArray, List.length_map, length]
    · intro i inside
      rw [getElem!_pos _ i (by rw [List.size_toArray, List.length_map, length]; exact inside), List.getElem_toArray,
        List.getElem_map, word_byte, byteLimb, List.getD_eq_getElem?_getD, List.getElem?_eq_getElem (by omega),
        Option.getD_some]
  have limbs : ∀ j < 64, Within (2 ^ 21) (byteLimb r j) := by
    intro j _
    have := byteLimb_range r j
    omega
  have less := fromBytes_lt r
  rw [length] at less
  unfold reduce
  rw [modL_eq holds limbs, value_byteLimb, Nat.mod_eq_of_lt less]
  congr 1

/-- One row of the product: `h * d`, moved by `i` bytes, is added to the limbs. -/
structure Row (f g : Nat → Int) (h : Int) (d : Bytes) (i j : Nat) : Prop where
  number : value 256 g 64 = value 256 f 64 + h * 256 ^ i * value 256 (byteLimb d) j
  range : ∀ k < 64, f k ≤ g k ∧ g k ≤ f k + 255 * 255
  rest : ∀ k, i + j ≤ k → g k = f k

theorem Row.step {f g : Nat → Int} {h : Int} {d : Bytes} {i j : Nat} (row : Row f g h d i j) (fits : i + j < 64)
    (byte : 0 ≤ h ∧ h ≤ 255) :
    Row f (Function.update g (i + j) (g (i + j) + h * byteLimb d j)) h d i (j + 1) := by
  have limb := byteLimb_range d j
  constructor
  · rw [value_update fits, row.number, value_succ (f := byteLimb d) j, pow_add]
    ring
  · intro k inside
    by_cases here : k = i + j
    · rw [here, Function.update_self, row.rest _ (le_refl _)]
      constructor <;> nlinarith
    · rw [Function.update_of_ne here]
      exact row.range k inside
  · intro k above
    rw [Function.update_of_ne (by omega), row.rest k (by omega)]

/-- The inner loop of the product. -/
def addRow (x : Array Int64) (h d : Bytes) (i : Nat) : Array Int64 := Id.run do
  let mut x := x
  for j in [0:32] do
    x := x.set! (i + j) (x[i + j]! + (h.getD i 0).toUInt64.toInt64 * (d.getD j 0).toUInt64.toInt64)
  return x

theorem addRow_holds {x : Array Int64} {f : Nat → Int} (holds : Limbed x 64 f) (h d : Bytes) {i : Nat} (fits : i < 32) :
    ∃ g, Limbed (addRow x h d i) 64 g ∧ Row f g (byteLimb h i) d i 32 := by
  unfold addRow
  refine forIn_range (fun j (x : Array Int64) => ∃ g, Limbed x 64 g ∧ Row f g (byteLimb h i) d i j)
    (Nat.zero_le 32) ⟨f, holds, ?_⟩ ?_
  · exact ⟨by simp, fun k _ => by omega, fun k _ => rfl⟩
  · rintro j x _ below ⟨g, held, row⟩
    have summed : x[i + j]! + (h.getD i 0).toUInt64.toInt64 * (d.getD j 0).toUInt64.toInt64 =
        word (g (i + j) + byteLimb h i * byteLimb d j) := by
      rw [held.limb _ (by omega), word_byte, word_byte, word_mul, word_add]
      rfl
    exact .yield ⟨_, held.set (by omega) summed, row.step (by omega) (byteLimb_range h i)⟩

/-- The limbs of `h * d + r`, before the reduction. -/
theorem signScalar_holds (r h d : Bytes) :
    ∃ f, Limbed (signScalar r h d) 64 f ∧ value 256 f 64 =
        value 256 (byteLimb r) 32 + value 256 (byteLimb h) 32 * value 256 (byteLimb d) 32 ∧
      ∀ j < 64, Within (2 ^ 21) (f j) := by
  suffices last : ∃ f, Limbed (signScalar r h d) 64 f ∧ value 256 f 64 =
        value 256 (byteLimb r) 32 + value 256 (byteLimb h) 32 * value 256 (byteLimb d) 32 ∧
      ∀ j < 64, 0 ≤ f j ∧ f j ≤ 255 + ((32 : Nat) : Int) * (255 * 255) by
    obtain ⟨f, holds, number, bounds⟩ := last
    refine ⟨f, holds, number, fun j inside => ?_⟩
    have := bounds j inside
    omega
  unfold signScalar
  rw [Id.run_bind]
  generalize first : Id.run (forIn [0:32] (Array.replicate 64 (0 : Int64)) _) = y
  have start : Limbed y 64 fun j => if j < 32 then byteLimb r j else 0 := by
    rw [← first]
    refine forIn_range (fun k (y : Array Int64) => Limbed y 64 fun j => if j < k then byteLimb r j else 0)
      (Nat.zero_le 32) (.replicate 64) ?_
    intro k y _ inside held
    refine .yield ((held.set (i := k) (by omega) (word_byte _)).congr fun j _ => ?_)
    by_cases same : j = k
    · rw [same, Function.update_self, if_pos (Nat.lt_succ_self k)]
      rfl
    · rw [Function.update_of_ne same]
      congr 1
      simp only [eq_iff_iff]
      omega
  have lower : value 256 (fun j => if j < 32 then byteLimb r j else 0) 64 = value 256 (byteLimb r) 32 := by
    rw [value_append 32 32, value_congr (g := byteLimb r) fun j inside => if_pos inside,
      value_congr (g := fun _ => 0) fun j _ => if_neg (by omega)]
    simp [value]
  simp only [Id.run_bind, Id.run_pure]
  refine forIn_range (fun i (x : Array Int64) => ∃ f, Limbed x 64 f ∧
    value 256 f 64 = value 256 (byteLimb r) 32 + value 256 (byteLimb h) i * value 256 (byteLimb d) 32 ∧
    ∀ j < 64, 0 ≤ f j ∧ f j ≤ 255 + (i : Int) * (255 * 255)) (Nat.zero_le 32) ⟨_, start, ?_, ?_⟩ ?_
  · rw [lower, value_zero, zero_mul, add_zero]
  · intro j _
    have := byteLimb_range r j
    split_ifs <;> omega
  rintro i x _ inside ⟨f, held, number, bounds⟩
  obtain ⟨g, held', row⟩ := addRow_holds held h d inside
  refine .loop ⟨g, held', ?_, ?_⟩
  · rw [row.number, number, value_succ (f := byteLimb h) i]
    ring
  · intro j below
    have before := bounds j below
    have after := row.range j below
    push_cast
    omega

/-- The last half of a signature. -/
theorem modL_signScalar (r h d : Bytes) : modL (signScalar r h d) =
    toBytes 32 ((fromBytes r % 256 ^ 32 + fromBytes h % 256 ^ 32 * (fromBytes d % 256 ^ 32)) % L) := by
  obtain ⟨f, holds, number, bounds⟩ := signScalar_holds r h d
  rw [modL_eq holds bounds, number, value_byteLimb, value_byteLimb, value_byteLimb, ← Nat.cast_mul, ← Nat.cast_add,
    ← Int.natCast_mod, Int.toNat_natCast]

end Roman.TweetNacl
