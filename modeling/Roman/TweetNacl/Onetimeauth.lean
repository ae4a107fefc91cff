import Mathlib.Data.List.GetD
import Roman.Lib.Limbs
import Roman.Lib.Loops
import Roman.Lib.Poly1305
import Roman.Lib.Words
import Roman.TweetNacl.SecretBox

/-! # crypto_onetimeauth is Poly1305

Seventeen limbs of a byte. Products are folded at the place 2^136, and after each chunk
the limbs stand for a number that may be above the prime; the last subtraction is made
or taken back without a branch.
-/

namespace Roman.TweetNacl

open Arrays CMem Limbs LittleEndian Loops Poly1305 Words

/-- The limbs of an authenticator. -/
abbrev Limbs17 (a : Array UInt32) (f : Nat → Int) : Prop := Entries a 17 fun j => word32 (f j)

theorem Limbs17.set {a : Array UInt32} {f : Nat → Int} (holds : Limbs17 a f) {i : Nat} (inside : i < 17) {x : UInt32}
    {v : Int} (eq : x = word32 v) : Limbs17 (a.set! i x) (Function.update f i v) :=
  (Entries.set holds inside eq).congr fun j _ => (Function.apply_update (fun _ => word32) f i v j).symm

theorem Limbs17.congr {a : Array UInt32} {f g : Nat → Int} (holds : Limbs17 a f) (same : ∀ i < 17, f i = g i) :
    Limbs17 a g :=
  Entries.congr holds fun i inside => by rw [same i inside]

theorem Limbs17.put {a : Array UInt32} {done : Nat → Prop} [DecidablePred done] {f g : Nat → Int}
    (holds : Limbs17 a fun l => if done l then g l else f l) {i : Nat} (inside : i < 17) {x : UInt32}
    (eq : x = word32 (g i)) : Limbs17 (a.set! i x) fun l => if l = i ∨ done l then g l else f l :=
  (Limbs17.set holds inside eq).congr fun l _ => update_done done f g i l

theorem Limbs17.zero : Limbs17 (Array.replicate 17 0) fun _ => 0 := Entries.replicate 17 0

/-- The limbs before step `k` of a pass that starts with a carry. -/
def passed (c : Int) (f rest : Nat → Int) (k j : Nat) : Int := if j < k then digit 256 (c + value 256 f k) j else rest j

theorem passed_step (c : Int) (f rest : Nat → Int) (k j : Nat) :
    Function.update (passed c f rest k) k (((c + value 256 f k) / 256 ^ k + f k) % 256) j = passed c f rest (k + 1) j := by
  rw [← carry_from (by norm_num)]
  unfold passed
  by_cases here : j = k
  · rw [here, Function.update_self, if_pos (Nat.lt_succ_self k), digit]
  rw [Function.update_of_ne here]
  by_cases below : j < k
  · rw [if_pos below, if_pos (by omega), digit_from (by norm_num) c below]
  · rw [if_neg below, if_neg (by omega)]

/-- One step: the low byte stays, the rest is carried. -/
theorem passed_limb {c m : Int} {f rest : Nat → Int} {k : Nat} {a : Array UInt32} {u sum : UInt32} (inside : k < 17)
    (fits : 2 * m < 2 ^ 32) (start : 0 ≤ c ∧ c ≤ m) (bounds : ∀ j ≤ k, 0 ≤ f j ∧ f j ≤ m)
    (holds : Limbs17 a (passed c f rest k)) (carried : u = word32 ((c + value 256 f k) / 256 ^ k))
    (limb : sum = word32 (f k)) :
    Limbs17 (a.set! k ((u + sum) &&& 255)) (passed c f rest (k + 1)) ∧
      (u + sum) >>> 8 = word32 ((c + value 256 f (k + 1)) / 256 ^ (k + 1)) := by
  have carry := carry_from_bounds (b := 256) (by norm_num) start fun j below => bounds j (Nat.le_of_lt below)
  have bound := bounds k (Nat.le_refl k)
  have total : u + sum = word32 ((c + value 256 f k) / 256 ^ k + f k) := by
    rw [carried, limb, word32_add]
  constructor
  · have low : (u + sum) &&& 255 = word32 (((c + value 256 f k) / 256 ^ k + f k) % 256) := by
      rw [total]
      exact word32_and _ (k := 8) rfl (by norm_num)
    exact (holds.set inside low).congr fun j _ => passed_step c f rest k j
  · have next : (c + value 256 f (k + 1)) / 256 ^ (k + 1) = ((c + value 256 f k) / 256 ^ k + f k) / 2 ^ 8 := by
      rw [div_pow_succ (by norm_num), carry_from (by norm_num)]
      rfl
    rw [total, word32_shiftRight ⟨by omega, by omega⟩ (k := 8) rfl, next]

/-- The carries of a pass. -/
def Carries (c : Int) (f rest : Nat → Int) (k : Nat) (s : Array UInt32 × UInt32) : Prop :=
  Limbs17 s.1 (passed c f rest k) ∧ s.2 = word32 ((c + value 256 f k) / 256 ^ k)

theorem add1305_holds {h d : Array UInt32} {f g : Nat → Int} (one : Limbs17 h f) (two : Limbs17 d g)
    (bounds : ∀ j < 17, 0 ≤ f j ∧ f j ≤ 255) (bounds' : ∀ j < 17, 0 ≤ g j ∧ g j ≤ 255) :
    Limbs17 (add1305 h d) (digit 256 (value 256 f 17 + value 256 g 17)) := by
  unfold add1305
  rw [Id.run_bind]
  generalize looped : Id.run (forIn [0:17] _ _) = y
  have last : Carries 0 (fun j => f j + g j) f 17 y := by
    rw [← looped]
    refine forIn_range (Carries 0 (fun j => f j + g j) f) (Nat.zero_le 17) ⟨?_, rfl⟩ ?_
    · exact one.congr fun j _ => by rw [passed, if_neg (Nat.not_lt_zero j)]
    · rintro k ⟨a, u⟩ - inside ⟨holds, carried⟩
      have sum : a[k]! + d[k]! = word32 (f k + g k) := by
        rw [holds.entry k inside, two.entry k inside, word32_add, passed, if_neg (Nat.lt_irrefl k)]
      have next := passed_limb (m := 510) inside (by norm_num) ⟨le_refl 0, by norm_num⟩ (fun j most => by
        have := bounds j (by omega)
        have := bounds' j (by omega)
        omega) holds carried sum
      exact ⟨_, rfl, next⟩
  refine last.1.congr fun j inside => ?_
  rw [passed, if_pos inside, zero_add, value_add]

/-- The chunk as limbs. -/
def chunkLimbs (block : Bytes) : Array UInt32 := Id.run do
  let mut c : Array UInt32 := Array.replicate 17 0
  for j in [0:block.length] do
    c := c.set! j (block.getD j 0).toUInt32
  c := c.set! block.length 1
  return c

/-- The product, folded at the place 2^136. -/
def foldedProduct (h r : Array UInt32) : Array UInt32 := Id.run do
  let mut x : Array UInt32 := Array.replicate 17 0
  for i in [0:17] do
    for j in [0:17] do
      x := x.set! i (x[i]! + h[j]! * (if j ≤ i then r[i - j]! else 320 * r[i + 17 - j]!))
  return x

def carryPass (h : Array UInt32) (u : UInt32) : Array UInt32 × UInt32 := Id.run do
  let mut h := h
  let mut u := u
  for j in [0:16] do
    u := u + h[j]!
    h := h.set! j (u &&& 255)
    u := u >>> 8
  return (h, u)

theorem carryPass_holds {h : Array UInt32} {u : UInt32} {f : Nat → Int} {c m : Int} (holds : Limbs17 h f)
    (carried : u = word32 c) (fits : 2 * m < 2 ^ 32) (start : 0 ≤ c ∧ c ≤ m)
    (bounds : ∀ j < 16, 0 ≤ f j ∧ f j ≤ m) : Carries c f f 16 (carryPass h u) := by
  unfold carryPass
  rw [Id.run_bind]
  refine forIn_range (Carries c f f) (Nat.zero_le 16) ⟨?_, ?_⟩ ?_
  · exact holds.congr fun j _ => by rw [passed, if_neg (Nat.not_lt_zero j)]
  · simpa using carried
  · rintro k ⟨a, u⟩ - inside ⟨holds, carried⟩
    have limb : a[k]! = word32 (f k) := by
      rw [holds.entry k (by omega), passed, if_neg (Nat.lt_irrefl k)]
    exact ⟨_, rfl, passed_limb (by omega) fits start (fun j most => bounds j (by omega)) holds carried limb⟩

/-- The bytes of a number are its digits. -/
theorem digit_fromBytes (s : Bytes) (j : Nat) : ((s.getD j 0).toNat : Int) = digit 256 (fromBytes s) j := by
  rw [fromBytes_getD, digit]
  push_cast
  rfl

theorem chunkLimbs_holds {block : Bytes} (short : block.length ≤ 16) :
    Limbs17 (chunkLimbs block) (digit 256 (chunk block)) := by
  unfold chunkLimbs
  rw [Id.run_bind]
  generalize looped : Id.run (forIn [0:block.length] _ _) = y
  have last : Limbs17 y fun l => if l < block.length then ((block.getD l 0).toNat : Int) else 0 := by
    rw [← looped]
    refine forIn_range (fun j (a : Array UInt32) => Limbs17 a fun l => if l < j then ((block.getD l 0).toNat : Int) else 0)
      (Nat.zero_le _) ?_ ?_
    · exact Limbs17.zero.congr fun l _ => (if_neg (Nat.not_lt_zero l)).symm
    · intro j a _ inside holds
      have next := Limbs17.put holds (by omega) (word32_byte (block.getD j 0))
      exact .yield (next.congr fun l _ => if_congr (by omega) rfl rfl)
  have one : (1 : UInt32) = word32 1 := rfl
  refine (Limbs17.set last (by omega) one).congr fun l _ => ?_
  rw [chunk, ← digit_fromBytes]
  rcases Nat.lt_trichotomy l block.length with below | rfl | above
  · rw [Function.update_of_ne below.ne, if_pos below, List.getD_append _ _ _ _ below]
  · rw [Function.update_self, List.getD_append_right _ _ _ _ (Nat.le_refl _), Nat.sub_self]
    rfl
  · rw [Function.update_of_ne above.ne', if_neg (Nat.lt_asymm above), List.getD_eq_default _ _ (by simpa using above)]
    rfl

/-- The summand of the limb. -/
def summand (f g : Nat → Int) (i j : Nat) : Int := f j * if j ≤ i then g (i - j) else 320 * g (i + 17 - j)

theorem foldedProduct_holds {h r : Array UInt32} {f g : Nat → Int} (one : Limbs17 h f) (two : Limbs17 r g) :
    Limbs17 (foldedProduct h r) (wrapped 320 f g 17) := by
  suffices all : Limbs17 (foldedProduct h r) fun l => if l < 17 then wrapped 320 f g 17 l else 0 from
    all.congr fun l inside => if_pos inside
  unfold foldedProduct
  refine forIn_range (fun i (x : Array UInt32) => Limbs17 x fun l => if l < i then wrapped 320 f g 17 l else 0)
    (Nat.zero_le 17) ?_ ?_
  · exact Limbs17.zero.congr fun l _ => (if_neg (Nat.not_lt_zero l)).symm
  · intro i x _ row holds
    refine .loop ?_
    let done : Nat → Int := fun l => if l < i then wrapped 320 f g 17 l else 0
    have whole : ∀ l < 17, Function.update done i (∑ j ∈ Finset.range 17, summand f g i j) l =
        if l < i + 1 then wrapped 320 f g 17 l else 0 := fun l _ =>
      (update_done (· < i) _ (wrapped 320 f g 17) i l).trans (if_congr (by omega) rfl rfl)
    refine Limbs17.congr ?_ whole
    refine forIn_range (fun j (x : Array UInt32) =>
      Limbs17 x (Function.update done i (∑ m ∈ Finset.range j, summand f g i m))) (Nat.zero_le 17) ?_ ?_
    · rw [Finset.sum_range_zero, Function.update_eq_self_iff.mpr (if_neg (Nat.lt_irrefl i)).symm]
      exact holds
    · intro j x _ column holds
      have factor : (if j ≤ i then r[i - j]! else 320 * r[i + 17 - j]!) =
          word32 (if j ≤ i then g (i - j) else 320 * g (i + 17 - j)) := by
        split
        · exact two.entry _ (by omega)
        · rw [two.entry _ (by omega), ← word32_mul]
          rfl
      have sum : x[i]! + h[j]! * (if j ≤ i then r[i - j]! else 320 * r[i + 17 - j]!) =
          word32 (∑ m ∈ Finset.range (j + 1), summand f g i m) := by
        rw [factor, holds.entry i row, one.entry j column, Function.update_self, word32_mul, word32_add,
          Finset.sum_range_succ, summand]
      have next := Limbs17.set holds row sum
      rw [Function.update_idem] at next
      exact .yield next

/-- The limbs stand for the number and fit in 131 bits. -/
structure Accumulates (h : Array UInt32) (f : Nat → Int) (x : ZMod P) : Prop where
  holds : Limbs17 h f
  bytes : ∀ j < 16, 0 ≤ f j ∧ f j ≤ 255
  top : 0 ≤ f 16 ∧ f 16 ≤ 4
  value : ((value 256 f 17 : Int) : ZMod P) = x

theorem Accumulates.byte {h : Array UInt32} {f : Nat → Int} {x : ZMod P} (acc : Accumulates h f x) :
    ∀ j < 17, 0 ≤ f j ∧ f j ≤ 255 := fun j inside => by
  by_cases last : j = 16
  · have := acc.top
    subst last
    omega
  · exact acc.bytes j (by omega)

theorem Accumulates.range {h : Array UInt32} {f : Nat → Int} {x : ZMod P} (acc : Accumulates h f x) :
    0 ≤ Limbs.value 256 f 17 ∧ Limbs.value 256 f 17 < 5 * 2 ^ 128 := by
  have lower := value_range (b := 256) (f := f) (n := 16) (by norm_num) fun j inside => by
    have := acc.bytes j inside
    omega
  have := acc.top
  rw [value_succ]
  norm_num at lower ⊢
  omega

theorem digit_byte (v : Int) (j : Nat) : 0 ≤ digit 256 v j ∧ digit 256 v j ≤ 255 :=
  ⟨digit_nonneg (by norm_num) v j, Int.le_of_lt_add_one (digit_lt (by norm_num) v j)⟩

theorem chunk_lt {block : Bytes} (short : block.length ≤ 16) : chunk block < 2 ^ 129 := by
  have small := fromBytes_lt block
  have bound := Nat.pow_le_pow_right (by omega : 0 < 256) short
  have one : fromBytes [1] = 1 := rfl
  rw [chunk, fromBytes_append, one]
  norm_num at bound ⊢
  omega

/-- The place 2^130 counts 5 fold. -/
theorem reduced_cast (v : Int) : ((5 * (v / 2 ^ 130) + v % 2 ^ 130 : Int) : ZMod P) = v := by
  have divides : (P : Int) ∣ 5 - 2 ^ 130 := by decide +kernel
  have place : ((2 ^ 130 : Int) : ZMod P) = (5 : Int) := (ZMod.intCast_eq_intCast_iff_dvd_sub _ _ P).mpr divides
  conv_rhs => rw [← Int.emod_add_mul_ediv v (2 ^ 130)]
  rw [Int.cast_add, Int.cast_add, Int.cast_mul, Int.cast_mul, place, add_comm]

theorem foldedProduct_cast (f g : Nat → Int) :
    ((value 256 (wrapped 320 f g 17) 17 : Int) : ZMod P) = value 256 f 17 * value 256 g 17 := by
  have divides : (P : Int) ∣ 256 ^ 17 - 320 := by decide +kernel
  have same := (ZMod.intCast_eq_intCast_iff_dvd_sub _ _ P).mpr (divides.trans (value_wrapped (f := f) (g := g) 320 17))
  rw [same, Int.cast_mul]

/-- The largest sum of products. -/
theorem wrapped_bounds {f g : Nat → Int} (one : ∀ j < 17, 0 ≤ f j ∧ f j ≤ 255) (two : ∀ j < 17, 0 ≤ g j ∧ g j ≤ 255)
    {i : Nat} (inside : i < 17) : 0 ≤ wrapped 320 f g 17 i ∧ wrapped 320 f g 17 i ≤ 353736000 := by
  have term : ∀ j ∈ Finset.range 17, 0 ≤ summand f g i j ∧ summand f g i j ≤ 20808000 := fun j member => by
    have first := one j (Finset.mem_range.mp member)
    have factor : 0 ≤ (if j ≤ i then g (i - j) else 320 * g (i + 17 - j)) ∧
        (if j ≤ i then g (i - j) else 320 * g (i + 17 - j)) ≤ 81600 := by
      split
      · have := two (i - j) (by omega)
        omega
      · have := two (i + 17 - j) (by omega)
        omega
    constructor
    · exact mul_nonneg first.1 factor.1
    · calc summand f g i j ≤ 255 * 81600 := mul_le_mul first.2 factor.2 factor.1 (by norm_num)
        _ = 20808000 := by norm_num
  constructor
  · exact Finset.sum_nonneg fun j member => (term j member).1
  · calc wrapped 320 f g 17 i ≤ (Finset.range 17).card • 20808000 :=
        Finset.sum_le_card_nsmul _ _ _ fun j member => (term j member).2
      _ = 353736000 := by norm_num

/-- The second pass: the top limb takes the carry, and nothing else is left above it. -/
theorem finalPass_accumulates {h : Array UInt32} {g : Nat → Int} {c : Int} (holds : Limbs17 h g)
    (start : 0 ≤ c ∧ c ≤ 2 ^ 30) (bytes : ∀ j < 16, 0 ≤ g j ∧ g j ≤ 255) (top : 0 ≤ g 16 ∧ g 16 ≤ 3) :
    ∃ f, Accumulates ((carryPass h (word32 c)).1.set! 16 ((carryPass h (word32 c)).2 + (carryPass h (word32 c)).1[16]!)) f
      (c + value 256 g 17 : Int) := by
  obtain ⟨digits, carried⟩ := carryPass_holds holds (u := word32 c) (c := c) (m := 2 ^ 30) rfl (by norm_num) start
    fun j below => by
      have := bytes j below
      omega
  generalize carryPass h (word32 c) = s at digits carried ⊢
  have sum : s.2 + s.1[16]! = word32 ((c + value 256 g 16) / 256 ^ 16 + g 16) := by
    rw [carried, digits.entry 16 (by norm_num), passed, if_neg (Nat.lt_irrefl 16), word32_add]
  have limb : ∀ j < 16, Function.update (passed c g g 16) 16 ((c + value 256 g 16) / 256 ^ 16 + g 16) j =
      digit 256 (c + value 256 g 16) j := fun j below => by
    rw [Function.update_of_ne below.ne, passed, if_pos below]
  have small := value_range (b := 256) (f := g) (n := 16) (by norm_num) fun j below => by
    have := bytes j below
    omega
  refine ⟨_, Limbs17.set digits (by norm_num) sum, fun j below => ?_, ?_, congrArg Int.cast ?_⟩
  · rw [limb j below]
    exact digit_byte _ j
  · rw [Function.update_self]
    norm_num at small ⊢
    omega
  · rw [value_succ, value_congr limb, Function.update_self, value_digit_mod (by norm_num), value_succ (f := g) 16]
    have parts := Int.emod_add_mul_ediv (c + value 256 g 16) (256 ^ 16)
    linear_combination parts

/-- The passes after a product. -/
def carryTwice (x : Array UInt32) : Array UInt32 :=
  let (h, u) := carryPass x 0
  let u := u + h[16]!
  let h := h.set! 16 (u &&& 3)
  let (h, u) := carryPass h ((5 : UInt32) * (u >>> 2))
  h.set! 16 (u + h[16]!)

/-- What is above the place 2^130 is folded, with the two bits below it kept in the last limb. -/
theorem folded_top (v : Int) : 5 * (v / 256 ^ 16 / 4) + (v % 256 ^ 16 + v / 256 ^ 16 % 4 * 256 ^ 16) =
    5 * (v / 2 ^ 130) + v % 2 ^ 130 := by
  norm_num
  omega

theorem carryTwice_accumulates {x : Array UInt32} {f : Nat → Int} (holds : Limbs17 x f)
    (bounds : ∀ j < 17, 0 ≤ f j ∧ f j ≤ 353736000) :
    ∃ f', Accumulates (carryTwice x) f' (value 256 f 17 : Int) := by
  have first := carryPass_holds holds (u := 0) (c := 0) (m := 353736000) rfl (by norm_num) (by norm_num)
    fun j below => bounds j (by omega)
  have last := bounds 16 (by norm_num)
  have carry := carry_from_bounds (b := 256) (f := f) (k := 16) (c := 0) (m := 353736000) (by norm_num) (by norm_num)
    fun j below => bounds j (by omega)
  unfold carryTwice
  generalize carryPass x 0 = s at first ⊢
  obtain ⟨h, u⟩ := s
  obtain ⟨digits, carried⟩ := first
  dsimp only at digits carried ⊢
  -- what is above the place 2^128, and what is below
  have above : value 256 f 17 / 256 ^ 16 = (0 + value 256 f 16) / 256 ^ 16 + f 16 := by
    rw [← carry_from (by norm_num), zero_add]
  have below : value 256 f 17 % 256 ^ 16 = value 256 f 16 % 256 ^ 16 := by
    rw [value_succ, Int.add_mul_emod_self_right]
  have sum : u + h[16]! = word32 (value 256 f 17 / 256 ^ 16) := by
    rw [carried, digits.entry 16 (by norm_num), passed, if_neg (Nat.lt_irrefl 16), word32_add, above]
  have low : (u + h[16]!) &&& 3 = word32 (value 256 f 17 / 256 ^ 16 % 4) := by
    rw [sum]
    exact word32_and _ (k := 2) rfl (by norm_num)
  have high : (5 : UInt32) * ((u + h[16]!) >>> 2) = word32 (5 * (value 256 f 17 / 256 ^ 16 / 4)) := by
    rw [sum, word32_shiftRight ⟨by omega, by omega⟩ (k := 2) rfl]
    exact word32_mul 5 _
  have masked := Limbs17.set digits (i := 16) (by norm_num) low
  have bytes : ∀ j < 16, Function.update (passed 0 f f 16) 16 (value 256 f 17 / 256 ^ 16 % 4) j =
      digit 256 (value 256 f 16) j := fun j below => by
    rw [Function.update_of_ne below.ne, passed, if_pos below, zero_add]
  rw [high]
  obtain ⟨f', acc⟩ := finalPass_accumulates masked (c := 5 * (value 256 f 17 / 256 ^ 16 / 4)) (by omega)
    (fun j below => by rw [bytes j below]; exact digit_byte _ j) (by rw [Function.update_self]; omega)
  have number : value 256 (Function.update (passed 0 f f 16) 16 (value 256 f 17 / 256 ^ 16 % 4)) 17 =
      value 256 f 17 % 256 ^ 16 + value 256 f 17 / 256 ^ 16 % 4 * 256 ^ 16 := by
    rw [value_succ 16, value_congr bytes, Function.update_self, value_digit_mod (by norm_num), below]
  rw [number, folded_top, reduced_cast] at acc
  exact ⟨f', acc⟩

theorem onetimeauthBlock_accumulates {h r : Array UInt32} {f g : Nat → Int} {x : ZMod P} (acc : Accumulates h f x)
    (key : Limbs17 r g) (bytes : ∀ j < 17, 0 ≤ g j ∧ g j ≤ 255) {block : Bytes} (short : block.length ≤ 16) :
    ∃ f', Accumulates (onetimeauthBlock r h block) f' ((x + chunk block) * (value 256 g 17 : Int)) := by
  have added := add1305_holds acc.holds (chunkLimbs_holds short) acc.byte fun j _ => digit_byte _ j
  have small := chunk_lt short
  have range := acc.range
  have chunked : value 256 (digit 256 (chunk block)) 17 = chunk block :=
    value_digit_of_lt (by norm_num) (by omega) (by norm_num; omega)
  have summed : value 256 (digit 256 (value 256 f 17 + chunk block)) 17 = value 256 f 17 + chunk block :=
    value_digit_of_lt (by norm_num) (by omega) (by norm_num at range ⊢; omega)
  rw [chunked] at added
  obtain ⟨f', next⟩ := carryTwice_accumulates (foldedProduct_holds added key) fun j inside =>
    wrapped_bounds (fun j _ => digit_byte _ j) bytes inside
  rw [foldedProduct_cast, summed, Int.cast_add, acc.value, Int.cast_natCast] at next
  exact ⟨f', next⟩

/-- The bytes of the mask of the key. -/
def clampMask : Bytes := [255, 255, 255, 15, 252, 255, 255, 15, 252, 255, 255, 15, 252, 255, 255, 15]

theorem clamp_bytes (k : Region 32) : clamp k.bytes = fromBytes (List.zipWith (· &&& ·) (k.bytes.take 16) clampMask) := by
  have size : (k.bytes.take 16).length = clampMask.length := List.length_take_of_le (by rw [k.size]; decide)
  rw [fromBytes_and size]
  rfl

theorem onetimeauthKey_holds (k : Region 32) : Limbs17 (onetimeauthKey k.bytes) (digit 256 (clamp k.bytes)) := by
  have masked : ∀ j < 16, (List.zipWith (· &&& ·) (k.bytes.take 16) clampMask).getD j 0 =
      k.bytes.getD j 0 &&& clampMask.getD j 0 := fun j inside => by
    have size := k.size
    have long : j < clampMask.length := inside
    rw [List.getD_eq_getElem?_getD, List.getElem?_zipWith, List.getElem?_take_of_lt inside,
      List.getElem?_eq_getElem (by omega : j < k.bytes.length), List.getElem?_eq_getElem long,
      List.getD_eq_getElem _ _ (by omega), List.getD_eq_getElem _ _ long]
    rfl
  have byte : ∀ j < 17, (onetimeauthKey k.bytes)[j]! =
      ((List.zipWith (· &&& ·) (k.bytes.take 16) clampMask).getD j 0).toUInt32 := fun j inside => by
    by_cases last : j = 16
    · rw [last, List.getD_eq_default _ _ (by rw [List.length_zipWith]; exact Nat.min_le_right _ _)]
      rfl
    · have whole : ∀ b : UInt8, b.toUInt32 = b.toUInt32 &&& UInt8.toUInt32 255 := fun b => by
        rw [← UInt8.toUInt32_and, show (255 : UInt8) = -1 from rfl, UInt8.and_neg_one]
      rw [masked j (by omega), UInt8.toUInt32_and]
      interval_cases j
      all_goals first | exact absurd rfl last | exact whole _ | rfl
  refine ⟨rfl, fun j inside => ?_⟩
  rw [byte j inside, word32_byte, digit_fromBytes, clamp_bytes]

theorem chunks_cons {m : Bytes} (nonempty : m ≠ []) : chunks m = chunk (m.take 16) :: chunks (m.drop 16) := by
  rw [chunks, if_neg nonempty]

theorem chunks_nil : chunks [] = [] := by
  rw [chunks, if_pos rfl]

/-- The chunks before and the chunks of the rest of the message. -/
theorem onetimeauthBlocks_accumulates {r h : Array UInt32} {m : Bytes} {f g : Nat → Int} {point : Nat} {cs : List Nat}
    (key : Limbs17 r g) (bytes : ∀ j < 17, 0 ≤ g j ∧ g j ≤ 255) (stands : value 256 g 17 = point)
    (acc : Accumulates h f (Nat.ofDigits point (0 :: cs.reverse) : Nat)) :
    ∃ f', Accumulates (onetimeauthBlocks r m h) f' (Nat.ofDigits point (0 :: (cs ++ chunks m).reverse) : Nat) := by
  fun_induction onetimeauthBlocks r m h generalizing f cs with
  | case1 h =>
      rw [chunks_nil, List.append_nil]
      exact ⟨f, acc⟩
  | case2 m h nonempty ih =>
      obtain ⟨f', next⟩ := onetimeauthBlock_accumulates acc key bytes (List.length_take_le 16 m)
      have power : ((Nat.ofDigits point (0 :: cs.reverse) : Nat) + (chunk (m.take 16) : ZMod P)) * (value 256 g 17 : Int) =
          (Nat.ofDigits point (0 :: (cs ++ [chunk (m.take 16)]).reverse) : Nat) := by
        rw [horner, stands]
        push_cast
        rfl
      rw [power] at next
      rw [chunks_cons nonempty, List.append_cons]
      exact ih next

/-- The limbs before the subtraction where the mask is set, otherwise those after it. -/
def chosen (s : UInt32) (g h : Array UInt32) : Array UInt32 := Id.run do
  let mut h := h
  for j in [0:17] do
    h := h.set! j (h[j]! ^^^ (s &&& (g[j]! ^^^ h[j]!)))
  return h

def padLimbs (k : Bytes) : Array UInt32 := Id.run do
  let mut c : Array UInt32 := Array.replicate 17 0
  for j in [0:16] do
    c := c.set! j (k.getD (j + 16) 0).toUInt32
  return c

theorem onetimeauthFinish_eq (h : Array UInt32) (k : Bytes) : onetimeauthFinish h k =
    add1305 (chosen ((0 : UInt32) - ((add1305 h minusp)[16]! >>> 7)) h (add1305 h minusp)) (padLimbs k) := rfl

theorem chosen_entries {g h : Array UInt32} {x y : Nat → UInt32} (s : UInt32) (one : Entries g 17 x) (two : Entries h 17 y) :
    Entries (chosen s g h) 17 fun j => y j ^^^ (s &&& (x j ^^^ y j)) := by
  suffices all : Entries (chosen s g h) 17 fun l => if l < 17 then y l ^^^ (s &&& (x l ^^^ y l)) else y l from
    all.congr fun l inside => if_pos inside
  unfold chosen
  refine forIn_range (fun j (a : Array UInt32) => Entries a 17 fun l => if l < j then y l ^^^ (s &&& (x l ^^^ y l)) else y l)
    (Nat.zero_le 17) ?_ ?_
  · exact two.congr fun l _ => by rw [if_neg (Nat.not_lt_zero l)]
  · intro j a _ inside holds
    have word : a[j]! ^^^ (s &&& (g[j]! ^^^ a[j]!)) = y j ^^^ (s &&& (x j ^^^ y j)) := by
      rw [holds.entry j inside, if_neg (Nat.lt_irrefl j), one.entry j inside]
    exact .yield ((holds.put inside word).congr fun l _ => if_congr (by omega) rfl rfl)

theorem padLimbs_holds (k : Region 32) : Limbs17 (padLimbs k.bytes) (digit 256 (fromBytes ((k.bytes.drop 16).take 16))) := by
  have whole : (k.bytes.drop 16).take 16 = k.bytes.drop 16 :=
    List.take_of_length_le (by rw [List.length_drop, k.size])
  suffices all : Limbs17 (padLimbs k.bytes) fun l => if l < 16 then ((k.bytes.getD (l + 16) 0).toNat : Int) else 0 from
    all.congr fun l inside => by
      have place : (k.bytes.drop 16).getD l 0 = k.bytes.getD (l + 16) 0 := by
        rw [List.getD_eq_getElem?_getD, List.getElem?_drop, ← List.getD_eq_getElem?_getD, Nat.add_comm]
      rw [whole, ← digit_fromBytes, place]
      split
      · rfl
      · rw [List.getD_eq_default _ _ (by rw [k.size]; omega)]
        rfl
  unfold padLimbs
  refine forIn_range (fun j (a : Array UInt32) =>
    Limbs17 a fun l => if l < j then ((k.bytes.getD (l + 16) 0).toNat : Int) else 0) (Nat.zero_le 16) ?_ ?_
  · exact Limbs17.zero.congr fun l _ => (if_neg (Nat.not_lt_zero l)).symm
  · intro j a _ inside holds
    have next := Limbs17.put holds (by omega) (word32_byte (k.bytes.getD (j + 16) 0))
    exact .yield (next.congr fun l _ => if_congr (by omega) rfl rfl)

theorem minusp_holds : Limbs17 minusp (digit 256 (2 ^ 136 - P)) := by
  refine ⟨rfl, fun j inside => ?_⟩
  interval_cases j
  all_goals decide +kernel

theorem chosen_before (x y : UInt32) : y ^^^ (((0 : UInt32) - word32 1) &&& (x ^^^ y)) = x := by
  rw [show (0 : UInt32) - word32 1 = -1 from rfl, UInt32.neg_one_and, UInt32.xor_comm x, ← UInt32.xor_assoc,
    UInt32.xor_self, UInt32.zero_xor]

theorem chosen_after (x y : UInt32) : y ^^^ (((0 : UInt32) - word32 0) &&& (x ^^^ y)) = y := by
  rw [show (0 : UInt32) - word32 0 = 0 from rfl, UInt32.zero_and, UInt32.xor_zero]

/-- The prime is subtracted once if the number is not below it. -/
theorem subtracted {h : Array UInt32} {f : Nat → Int} {x : ZMod P} (acc : Accumulates h f x) :
    ∃ f', Limbs17 (chosen ((0 : UInt32) - ((add1305 h minusp)[16]! >>> 7)) h (add1305 h minusp)) f' ∧
      (∀ j < 17, 0 ≤ f' j ∧ f' j ≤ 255) ∧ value 256 f' 17 = value 256 f 17 % P := by
  have range := acc.range
  have prime : (P : Int) = 2 ^ 130 - 5 := by decide +kernel
  have difference := add1305_holds acc.holds minusp_holds acc.byte fun j _ => digit_byte _ j
  have less : value 256 (digit 256 (2 ^ 136 - P)) 17 = 2 ^ 136 - P :=
    value_digit_of_lt (by norm_num) (by rw [prime]; norm_num) (by rw [prime]; norm_num)
  rw [less] at difference
  generalize add1305 h minusp = d at difference ⊢
  have top : d[16]! >>> 7 = word32 (digit 256 (value 256 f 17 + (2 ^ 136 - P)) 16 / 2 ^ 7) := by
    have byte := digit_byte (value 256 f 17 + (2 ^ 136 - P)) 16
    rw [difference.entry 16 (by norm_num), word32_shiftRight ⟨by omega, by omega⟩ (k := 7) rfl]
  have mixed := chosen_entries ((0 : UInt32) - (d[16]! >>> 7)) acc.holds difference
  by_cases below : value 256 f 17 < P
  · have sign : digit 256 (value 256 f 17 + (2 ^ 136 - P)) 16 / 2 ^ 7 = 1 := by
      rw [digit]
      norm_num at prime range ⊢
      omega
    rw [top, sign] at mixed ⊢
    exact ⟨f, Entries.congr mixed fun j _ => chosen_before _ _, acc.byte, (Int.emod_eq_of_lt range.1 below).symm⟩
  · have sign : digit 256 (value 256 f 17 + (2 ^ 136 - P)) 16 / 2 ^ 7 = 0 := by
      rw [digit]
      norm_num at prime range below ⊢
      omega
    rw [top, sign] at mixed ⊢
    refine ⟨digit 256 (value 256 f 17 + (2 ^ 136 - P)), Entries.congr mixed fun j _ => chosen_after _ _,
      fun j _ => digit_byte _ j, ?_⟩
    rw [prime] at below
    rw [value_digit_mod (by norm_num), prime]
    norm_num at range below ⊢
    omega

theorem output_byte (v : Nat) (j : Nat) : (word32 (digit 256 v j)).toUInt8 = UInt8.ofNat (v / 256 ^ j) := by
  have byte := digit_byte v j
  have fits : Unsigned (digit 256 v j) := ⟨by omega, by omega⟩
  apply UInt8.toNat.inj
  rw [UInt32.toNat_toUInt8, UInt8.toNat_ofNat']
  zify
  rw [fits.toNat_word32, digit]
  push_cast
  exact Int.emod_emod_of_dvd _ (dvd_refl 256)

theorem cryptoOnetimeauth_eq (m : Bytes) (k : Region 32) : cryptoOnetimeauth m k.bytes = poly1305 m k.bytes := by
  have small : clamp k.bytes < 2 ^ 128 := by
    rw [clamp_bytes]
    have bytes := fromBytes_lt (List.zipWith (· &&& ·) (k.bytes.take 16) clampMask)
    rwa [List.length_zipWith, List.length_take_of_le (by rw [k.size]; norm_num)] at bytes
  have key : value 256 (digit 256 (clamp k.bytes)) 17 = clamp k.bytes :=
    value_digit_of_lt (by norm_num) (by omega) (by norm_num; omega)
  have start : Accumulates (Array.replicate 17 0) (fun _ => 0) (Nat.ofDigits (clamp k.bytes) (0 :: [].reverse) : Nat) := by
    refine ⟨Limbs17.zero, fun j _ => by norm_num, by norm_num, ?_⟩
    simp [value]
  obtain ⟨f, acc⟩ := onetimeauthBlocks_accumulates (m := m) (onetimeauthKey_holds k) (fun j _ => digit_byte _ j) key start
  rw [List.nil_append] at acc
  obtain ⟨f', limbs, bytes, remainder⟩ := subtracted acc
  have number : value 256 f 17 % P = (polynomial m (clamp k.bytes) % P : Nat) := by
    have same := acc.value
    rw [← Int.cast_natCast, ZMod.intCast_eq_intCast_iff'] at same
    rw [same, polynomial]
    push_cast
    rfl
  have padded := add1305_holds limbs (padLimbs_holds k) bytes fun j _ => digit_byte _ j
  have pad := fromBytes_lt ((k.bytes.drop 16).take 16)
  rw [List.length_take_of_le (by rw [List.length_drop, k.size])] at pad
  have padLimb : value 256 (digit 256 (fromBytes ((k.bytes.drop 16).take 16))) 17 = fromBytes ((k.bytes.drop 16).take 16) :=
    value_digit_of_lt (by norm_num) (by omega) (by norm_num at pad ⊢; omega)
  rw [remainder, number, padLimb] at padded
  rw [cryptoOnetimeauth, poly1305, toBytes_map, onetimeauthFinish_eq]
  refine List.map_congr_left fun j member => ?_
  have inside := List.mem_range.mp member
  rw [padded.entry j (by omega), ← Nat.cast_add, output_byte]

end Roman.TweetNacl
