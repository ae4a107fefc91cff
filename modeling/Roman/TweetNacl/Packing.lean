import Roman.TweetNacl.Field
import Roman.Verifier.Decoding

/-! # Packing field elements

`pack25519` carries three times and subtracts the prime at most twice, so that the bytes
are those of the one number below the prime, whatever limbs the element was in.
-/

namespace Roman.TweetNacl

open CMem LittleEndian Limbs Loops Words Verifier

/-- The arrays after `k` of the limbs are swapped. -/
structure Swapped (p q : Gf) (k : Nat) (s : Gf × Gf) : Prop where
  first : s.1.size = 16
  second : s.2.size = 16
  done : ∀ j < k, s.1[j]! = q[j]! ∧ s.2[j]! = p[j]!
  rest : ∀ j, k ≤ j → j < 16 → s.1[j]! = p[j]! ∧ s.2[j]! = q[j]!

theorem ext_limbs {p q : Gf} (first : p.size = 16) (second : q.size = 16) (same : ∀ j < 16, p[j]! = q[j]!) : p = q := by
  apply Array.ext (first.trans second.symm)
  intro j inside inside'
  rw [← getElem!_pos p j inside, ← getElem!_pos q j inside', same j (first ▸ inside)]

theorem sel25519_one {p q : Gf} (first : p.size = 16) (second : q.size = 16) : sel25519 p q 1 = (q, p) := by
  have swapped : Swapped p q 16 (sel25519 p q 1) := by
    unfold sel25519
    simp only [Id.run_bind, Id.run_pure]
    refine forIn_range (Swapped p q) (Nat.zero_le 16) ⟨first, second, by simp, by simp⟩ ?_
    rintro i s _ inside ⟨size, size', done, rest⟩
    obtain ⟨here, here'⟩ := rest i (Nat.le_refl i) inside
    have ones : ~~~((1 : Int64) - 1) = -1 := by decide
    have left : p[i]! ^^^ (p[i]! ^^^ q[i]!) = q[i]! := by rw [← Int64.xor_assoc, Int64.xor_self, Int64.zero_xor]
    have right : q[i]! ^^^ (p[i]! ^^^ q[i]!) = p[i]! := by
      rw [Int64.xor_comm p[i]!, ← Int64.xor_assoc, Int64.xor_self, Int64.zero_xor]
    rw [ones, Int64.neg_one_and, here, here', left, right]
    refine .yield ⟨by rw [Array.size_set!, size], by rw [Array.size_set!, size'], ?_, ?_⟩
    · intro j below
      rcases Nat.lt_succ_iff_lt_or_eq.mp below with before | rfl
      · dsimp only
        rw [Array.getElem!_set!_ne _ _ _ _ before.ne', Array.getElem!_set!_ne _ _ _ _ before.ne']
        exact done j before
      · exact ⟨Array.getElem!_set!_self _ _ _ (by omega), Array.getElem!_set!_self _ _ _ (by omega)⟩
    · intro j after below
      dsimp only
      rw [Array.getElem!_set!_ne _ _ _ _ (by omega), Array.getElem!_set!_ne _ _ _ _ (by omega)]
      exact rest j (by omega) below
  ext1
  · exact ext_limbs swapped.first second fun j inside => (swapped.done j inside).1
  · exact ext_limbs swapped.second first fun j inside => (swapped.done j inside).2

theorem set!_same (p : Gf) (i : Nat) : p.set! i p[i]! = p := by
  apply Array.ext (Array.size_set! ..)
  intro j inside inside'
  rw [← getElem!_pos _ j inside, ← getElem!_pos p j inside']
  by_cases same : i = j
  · rw [same, Array.getElem!_set!_self p j _ inside']
  · exact Array.getElem!_set!_ne p i j _ same

theorem sel25519_zero (p q : Gf) : sel25519 p q 0 = (p, q) := by
  unfold sel25519
  simp only [Id.run_bind, Id.run_pure]
  refine forIn_range (fun _ s => s = (p, q)) (Nat.zero_le 16) rfl ?_
  rintro i s _ inside rfl
  have zeros : ~~~((0 : Int64) - 1) = 0 := by decide
  dsimp only
  rw [zeros, Int64.zero_and, Int64.xor_zero, Int64.xor_zero, set!_same, set!_same]
  exact .yield rfl

/-- The limbs of the prime. -/
def primeLimb (j : Nat) : Int := if j = 0 then 0xffed else if j < 15 then 0xffff else 0x7fff

theorem value_primeLimb : value 65536 primeLimb 16 = P := by decide +kernel

/-- The loop of one subtraction. -/
def borrowLimbs (t : Gf) : Gf := Id.run do
  let mut m : Gf := gf0.set! 0 (t[0]! - (0xffed : Int64))
  for i in [1:15] do
    m := m.set! i (t[i]! - (0xffff : Int64) - ((m[i - 1]! >>> 16) &&& 1))
    m := m.set! (i - 1) (m[i - 1]! &&& (0xffff : Int64))
  return m

/-- One subtraction, which is kept if it borrows nothing in the end. -/
def subtractPrime (t : Gf) : Gf :=
  let m := borrowLimbs t
  let m := m.set! 15 (t[15]! - (0x7fff : Int64) - ((m[14]! >>> 16) &&& 1))
  let b : Int64 := (m[15]! >>> 16) &&& 1
  let m := m.set! 14 (m[14]! &&& (0xffff : Int64))
  (sel25519 t m (1 - b)).1

/-- The limbs of a number less the limbs of the prime. -/
def lessPrime (v : Int) (j : Nat) : Int := digit 65536 v j - primeLimb j

/-- The difference after the borrow has come to limb `k`. -/
def borrowed (d : Nat → Int) (k j : Nat) : Int :=
  if j < k then digit 65536 (value 65536 d 16) j
  else if j = k then d k + value 65536 d k / 65536 ^ k
  else 0

theorem borrowed_here (d : Nat → Int) (k : Nat) : borrowed d k k = d k + value 65536 d k / 65536 ^ k := by
  unfold borrowed
  rw [if_neg (Nat.lt_irrefl k), if_pos rfl]

/-- One limb: the borrow of the limb before is taken off, and that limb is done. -/
theorem borrowed_step (d : Nat → Int) {i : Nat} (inside : i + 1 < 16) (j : Nat) :
    Function.update (Function.update (borrowed d i) (i + 1) (d (i + 1) + borrowed d i i / 65536)) i
      (borrowed d i i % 65536) j = borrowed d (i + 1) j := by
  have digit := digit_carry (b := 65536) (f := d) (n := 16) (by norm_num) (Nat.lt_of_succ_lt inside)
  have carry := carry_succ (b := 65536) (f := d) (by norm_num) i
  rw [← borrowed_here] at digit carry
  by_cases here : j = i
  · rw [here, Function.update_self, ← digit, borrowed, if_pos (Nat.lt_succ_self i)]
  rw [Function.update_of_ne here]
  by_cases there : j = i + 1
  · rw [there, Function.update_self, borrowed_here d (i + 1), carry]
  · rw [Function.update_of_ne there, borrowed, borrowed, if_neg here, if_neg there]
    congr 1
    simp only [eq_iff_iff]
    omega

theorem primeLimb_range : ∀ j < 16, 0 ≤ primeLimb j ∧ primeLimb j < 65536 := by decide +kernel

/-- A borrow is one bit. -/
theorem borrow_range (v : Int) {k : Nat} (inside : k ≤ 16) :
    -1 ≤ value 65536 (lessPrime v) k / 65536 ^ k ∧ value 65536 (lessPrime v) k / 65536 ^ k ≤ 0 := by
  have place : (0 : Int) < 65536 ^ k := by positivity
  obtain ⟨nonneg, less⟩ := value_range (b := 65536) (n := k) (by norm_num) fun j _ =>
    ⟨digit_nonneg (by norm_num) v j, digit_lt (by norm_num) v j⟩
  obtain ⟨nonneg', less'⟩ := value_range (b := 65536) (n := k) (by norm_num) fun j below =>
    primeLimb_range j (by omega)
  unfold lessPrime
  rw [value_sub]
  constructor
  · rw [Int.le_ediv_iff_mul_le place]
    linarith
  · apply Int.lt_add_one_iff.mp
    rw [Int.ediv_lt_iff_lt_mul place]
    linarith

theorem borrowed_range (v : Int) {k : Nat} (inside : k < 16) :
    -65536 ≤ borrowed (lessPrime v) k k ∧ borrowed (lessPrime v) k k ≤ 65535 := by
  have borrow := borrow_range v (Nat.le_of_lt inside)
  have least := digit_nonneg (b := 65536) (by norm_num) v k
  have most := digit_lt (b := 65536) (by norm_num) v k
  have prime := primeLimb_range k inside
  rw [borrowed_here, lessPrime]
  omega

/-- The bit that `(x >> 16) & 1` gives of a difference. -/
theorem word_borrow {u : Int} (range : -65536 ≤ u ∧ u ≤ 65535) : (word u >>> 16) &&& 1 = word (-(u / 65536)) := by
  rw [word_shiftRight (k := 16) ⟨by omega, by omega⟩ rfl, word_and _ (k := 1) rfl (by norm_num)]
  congr 1
  omega

section
variable {t : Gf} {v : Int} (holds : Limbed t 16 (digit 65536 v))
include holds

/-- One limb of the difference, and the mask on the limb before. -/
theorem subtractLimb_holds {m : Gf} {k : Nat} {limb : Int64} (held : Limbed m 16 (borrowed (lessPrime v) k))
    (inside : k + 1 < 16) (prime : limb = word (primeLimb (k + 1))) :
    Limbed ((m.set! (k + 1) (t[k + 1]! - limb - ((m[k]! >>> 16) &&& 1))).set! k
      ((m.set! (k + 1) (t[k + 1]! - limb - ((m[k]! >>> 16) &&& 1)))[k]! &&& 0xffff)) 16
      (borrowed (lessPrime v) (k + 1)) := by
  have above : t[k + 1]! - limb - ((m[k]! >>> 16) &&& 1) =
      word (lessPrime v (k + 1) + borrowed (lessPrime v) k k / 65536) := by
    rw [holds.limb (k + 1) inside, held.limb k (by omega), word_borrow (borrowed_range v (by omega)), prime,
      word_sub, word_sub, lessPrime]
    congr 1
    omega
  have moved := held.set inside above
  generalize m.set! (k + 1) _ = m' at moved ⊢
  have low : m'[k]! &&& 0xffff = word (borrowed (lessPrime v) k k % 65536) := by
    rw [moved.limb k (by omega), Function.update_of_ne (by omega), word_and _ (k := 16) rfl (by norm_num)]
    rfl
  exact (moved.set (by omega) low).congr fun j _ => borrowed_step (lessPrime v) inside j

theorem borrowLimbs_holds : Limbed (borrowLimbs t) 16 (borrowed (lessPrime v) 14) := by
  unfold borrowLimbs
  refine forIn_range (fun i (m : Gf) => Limbed m 16 (borrowed (lessPrime v) (i - 1))) (by omega) ?_ ?_
  · have start : t[0]! - (0xffed : Int64) = word (lessPrime v 0) := by
      rw [holds.limb 0 (by omega)]
      exact word_sub _ 0xffed
    refine ((Limbed.replicate 16).set (by omega) start).congr fun j _ => ?_
    by_cases zero : j = 0
    · rw [zero, Function.update_self, borrowed_here]
      simp
    · rw [Function.update_of_ne zero, borrowed, if_neg (Nat.not_lt_zero j), if_neg zero]
  · intro i m low high held
    obtain ⟨k, rfl⟩ := Nat.exists_eq_add_of_le' low
    refine .yield (subtractLimb_holds holds held (by omega) ?_)
    rw [primeLimb, if_neg (by omega), if_pos high]
    rfl

theorem subtractPrime_holds (nonneg : 0 ≤ v) (less : v < 65536 ^ 16) :
    Limbed (subtractPrime t) 16 (digit 65536 (if v < P then v else v - P)) := by
  have whole : value 65536 (lessPrime v) 16 = v - P := by
    unfold lessPrime
    rw [value_sub, value_primeLimb, value_digit_mod (by norm_num), Int.emod_eq_of_lt nonneg less]
  have prime : (0x7fff : Int64) = word (primeLimb 15) := rfl
  have last := subtractLimb_holds holds (borrowLimbs_holds holds) (by omega) prime
  have top : borrowed (lessPrime v) 15 15 = (v - P) / 65536 ^ 15 := by
    rw [borrowed_here, ← value_succ_div (by norm_num), whole]
  unfold subtractPrime
  dsimp only
  generalize (borrowLimbs t).set! 15 _ = m at last ⊢
  have bit : (m[15]! >>> 16) &&& 1 = word (-((v - P) / 65536 ^ 15 / 65536)) := by
    have same := last.limb 15 (by omega)
    rw [Array.getElem!_set!_ne _ _ _ _ (by omega)] at same
    rw [same, word_borrow (borrowed_range v (by omega)), top]
  have prime : (P : Int) = 2 ^ 255 - 19 := rfl
  rw [prime] at whole top bit ⊢
  split
  · next small =>
      have borrows : (v - (2 ^ 255 - 19)) / 65536 ^ 15 / 65536 = -1 := by
        norm_num at *
        omega
      rw [bit, borrows]
      change Limbed (sel25519 t _ 0).1 16 _
      rwa [sel25519_zero]
  · next large =>
      have none : (v - (2 ^ 255 - 19)) / 65536 ^ 15 / 65536 = 0 := by
        norm_num at *
        omega
      rw [bit, none]
      change Limbed (sel25519 t _ 1).1 16 _
      rw [sel25519_one holds.size last.size]
      refine last.congr fun j inside => ?_
      by_cases topLimb : j = 15
      · rw [topLimb, top, digit, ← Int.emod_add_mul_ediv (_ / _) 65536, none]
        simp
      · rw [borrowed, if_pos (by omega), whole]

end

/-- Two subtractions leave the remainder of a number of 256 bits. -/
theorem subtractPrime_twice {t : Gf} {v : Int} (holds : Limbed t 16 (digit 65536 v)) (nonneg : 0 ≤ v)
    (less : v < 65536 ^ 16) : Limbed (subtractPrime (subtractPrime t)) 16 (digit 65536 (v % P)) := by
  have prime : (P : Int) = 2 ^ 255 - 19 := rfl
  have first := subtractPrime_holds holds nonneg less
  norm_num at less
  have second := subtractPrime_holds first (by split_ifs <;> omega) (by norm_num; split_ifs <;> omega)
  convert second using 3
  rw [prime] at *
  norm_num
  split_ifs <;> omega

/-- The third pass leaves the digits of a number of 256 bits. -/
theorem carry_thrice {o : Gf} {f : Nat → Int} (holds : Limbed o 16 f)
    (bounds : ∀ j < 16, -2 ^ 60 ≤ f j ∧ f j ≤ 2 ^ 60) :
    ∃ v, Limbed (car25519 (car25519 (car25519 o))) 16 (digit 65536 v) ∧ 0 ≤ v ∧ v < 65536 ^ 16 ∧
      (v : ZMod P) = (value 65536 f 16 : Int) := by
  have above := quotient_bounds bounds
  have second := car25519_holds (car25519_holds holds bounds) fun j _ => folded_bounds above j
  have third := car25519_holds second fun j _ => by
    have := folded_small above j
    omega
  generalize last : value 65536 (folded (value 65536 (folded (value 65536 f 16)) 16)) 16 = v at third
  have cast : (v : ZMod P) = (value 65536 f 16 : Int) := by
    rw [← last, folded_cast, folded_cast]
  have range : 0 ≤ v ∧ v < 65536 ^ 16 := by
    rw [value_folded, value_folded] at last
    norm_num at above last ⊢
    omega
  refine ⟨v, third.congr fun j _ => ?_, range.1, range.2, cast⟩
  rw [folded, Int.ediv_eq_zero_of_lt range.1 range.2, mul_zero, ite_self, add_zero]

theorem packLimbs_eq (n : Gf) : packLimbs n = subtractPrime (subtractPrime (car25519 (car25519 (car25519 n)))) := by
  unfold packLimbs
  simp only [Id.run_bind, Id.run_pure]
  refine forIn_range (fun k t => t = subtractPrime^[k] (car25519 (car25519 (car25519 n)))) (Nat.zero_le 2) rfl ?_
  rintro k t _ _ rfl
  refine ⟨_, rfl, ?_⟩
  rw [Function.iterate_succ_apply']
  rfl

theorem packLimbs_holds {n : Gf} {size : Int} {x : ZMod P} (represents : Represents n size x) (small : size ≤ 2 ^ 60) :
    Limbed (packLimbs n) 16 (digit 65536 x.val) := by
  obtain ⟨f, holds, bounds, rfl⟩ := represents
  obtain ⟨v, limbs, nonneg, less, cast⟩ := carry_thrice holds fun j inside => by
    have := bounds j inside
    omega
  rw [packLimbs_eq, ← cast, ZMod.val_intCast]
  exact subtractPrime_twice limbs nonneg less

/-- The bytes of the number below the prime. -/
theorem pack25519_eq {n : Gf} {size : Int} {x : ZMod P} (represents : Represents n size x) (small : size ≤ 2 ^ 60) :
    pack25519 n = toBytes 32 x.val := by
  have limbs := packLimbs_holds represents small
  unfold pack25519
  rw [show (32 : Nat) = 2 * 16 from rfl, toBytes_pairs]
  refine List.flatMap_congr fun i member => ?_
  have limb := limbs.limb i (List.mem_range.mp member)
  have whole : digit 65536 x.val i = (x.val / 65536 ^ i % 65536 : Nat) := by
    rw [digit]
    push_cast
    rfl
  generalize x.val / 65536 ^ i = v at whole ⊢
  have high : ((v % 65536 : Nat) : Int) / 2 ^ 8 = (v % 65536 / 256 : Nat) := by omega
  have first : UInt8.ofNat (v % 65536) = UInt8.ofNat v := by
    apply UInt8.toNat.inj
    change v % 65536 % 256 = v % 256
    omega
  have second : UInt8.ofNat (v % 65536 / 256) = UInt8.ofNat (v / 256) := by
    apply UInt8.toNat.inj
    change v % 65536 / 256 % 256 = v / 256 % 256
    omega
  dsimp only
  rw [limb, whole, toUInt8_word, word_shiftRight (k := 8) ⟨by omega, by omega⟩ rfl, high, toUInt8_word, first, second]

end Roman.TweetNacl
