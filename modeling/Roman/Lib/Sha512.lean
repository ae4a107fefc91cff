import Mathlib.Analysis.SpecialFunctions.Pow.NthRootLemmas
import Mathlib.NumberTheory.PrimeCounting
import Roman.Lib.LittleEndian

/-! # SHA-512

The hash function as the standard defines it: the message schedule is a recursion, the
working variables have names, the constants are the roots of the first primes, and the
message is padded before it is cut into blocks.
-/

namespace Sha512

open CMem LittleEndian

def rotr (c : Nat) (x : UInt64) : UInt64 := ⟨x.toBitVec.rotateRight c⟩

def shr (c : Nat) (x : UInt64) : UInt64 := ⟨x.toBitVec >>> c⟩

def ch (x y z : UInt64) : UInt64 := (x &&& y) ^^^ (~~~x &&& z)

def maj (x y z : UInt64) : UInt64 := (x &&& y) ^^^ (x &&& z) ^^^ (y &&& z)

def sum0 (x : UInt64) : UInt64 := rotr 28 x ^^^ rotr 34 x ^^^ rotr 39 x

def sum1 (x : UInt64) : UInt64 := rotr 14 x ^^^ rotr 18 x ^^^ rotr 41 x

def sigma0 (x : UInt64) : UInt64 := rotr 1 x ^^^ rotr 8 x ^^^ shr 7 x

def sigma1 (x : UInt64) : UInt64 := rotr 19 x ^^^ rotr 61 x ^^^ shr 6 x

/-- The first 64 bits behind the point of the root of a prime. -/
noncomputable def rootBits (n i : Nat) : UInt64 := UInt64.ofNat (Nat.nthRoot n (Nat.nth Nat.Prime i * 2 ^ (64 * n)))

noncomputable def k (t : Nat) : UInt64 := rootBits 3 t

/-- The working variables. -/
@[ext] structure Vars where
  a : UInt64
  b : UInt64
  c : UInt64
  d : UInt64
  e : UInt64
  f : UInt64
  g : UInt64
  h : UInt64

noncomputable def initial : Vars where
  a := rootBits 2 0
  b := rootBits 2 1
  c := rootBits 2 2
  d := rootBits 2 3
  e := rootBits 2 4
  f := rootBits 2 5
  g := rootBits 2 6
  h := rootBits 2 7

/-- The message schedule of a block of 16 words. -/
def schedule (block : Nat → UInt64) (t : Nat) : UInt64 :=
  if t < 16 then block t
  else sigma1 (schedule block (t - 2)) + schedule block (t - 7) + sigma0 (schedule block (t - 15)) +
    schedule block (t - 16)

theorem schedule_add (block : Nat → UInt64) (t : Nat) : schedule block (t + 16) =
    sigma1 (schedule block (t + 14)) + schedule block (t + 9) + sigma0 (schedule block (t + 1)) + schedule block t := by
  rw [schedule, if_neg (by omega)]
  rfl

theorem schedule_block (block : Nat → UInt64) {t : Nat} (inside : t < 16) : schedule block t = block t := by
  rw [schedule, if_pos inside]

theorem schedule_congr {block block' : Nat → UInt64} (same : ∀ i < 16, block i = block' i) (t : Nat) :
    schedule block t = schedule block' t := by
  fun_induction schedule block t with
  | case1 t inside => rw [schedule_block _ inside, same t inside]
  | case2 t later one two three four => rw [schedule.eq_1 block' t, if_neg later, one, two, three, four]

def Vars.round (v : Vars) (k w : UInt64) : Vars :=
  let t1 := v.h + sum1 v.e + ch v.e v.f v.g + k + w
  let t2 := sum0 v.a + maj v.a v.b v.c
  ⟨t1 + t2, v.a, v.b, v.c, v.d + t1, v.e, v.f, v.g⟩

/-- The working variables after the first rounds. -/
noncomputable def rounds (v : Vars) (block : Nat → UInt64) : Nat → Vars
  | 0 => v
  | t + 1 => (rounds v block t).round (k t) (schedule block t)

def Vars.add (v w : Vars) : Vars :=
  ⟨v.a + w.a, v.b + w.b, v.c + w.c, v.d + w.d, v.e + w.e, v.f + w.f, v.g + w.g, v.h + w.h⟩

noncomputable def compress (v : Vars) (block : Nat → UInt64) : Vars := v.add (rounds v block 80)

theorem compress_congr {block block' : Nat → UInt64} (same : ∀ i < 16, block i = block' i) (v : Vars) :
    compress v block = compress v block' := by
  have all : ∀ t, rounds v block t = rounds v block' t := by
    intro t
    induction t with
    | zero => rfl
    | succ t ih => rw [rounds, rounds, ih, schedule_congr same]
  rw [compress, compress, all]

/-- The big-endian bytes of a number. -/
def bigEndian (n v : Nat) : Bytes := (toBytes n v).reverse

theorem bigEndian_add (n k v : Nat) : bigEndian (n + k) v = bigEndian k (v / 256 ^ n) ++ bigEndian n v := by
  rw [bigEndian, toBytes_add, List.reverse_append]
  rfl

/-- The word at a place of a block. -/
def word (m : Bytes) (i : Nat) : UInt64 := UInt64.ofNat (fromBytes ((m.drop (8 * i)).take 8).reverse)

/-- The message, one bit, zeros, and the length in bits. -/
def pad (m : Bytes) : Bytes :=
  m ++ 0x80 :: List.replicate ((239 - m.length % 128) % 128) 0 ++ bigEndian 16 (8 * m.length)

noncomputable def blocks (v : Vars) (m : Bytes) : Vars :=
  if 128 ≤ m.length then blocks (compress v (word (m.take 128))) (m.drop 128) else v
termination_by m.length
decreasing_by
  rw [List.length_drop]
  omega

def Vars.bytes (v : Vars) : Bytes :=
  [v.a, v.b, v.c, v.d, v.e, v.f, v.g, v.h].flatMap fun x => bigEndian 8 x.toNat

noncomputable def sha512 (m : Bytes) : Bytes := (blocks initial (pad m)).bytes

/-- Whole blocks in front are hashed first. -/
theorem blocks_append (v : Vars) {m : Bytes} (whole : m.length % 128 = 0) (rest : Bytes) :
    blocks v (m ++ rest) = blocks (blocks v m) rest := by
  fun_induction blocks v m with
  | case1 v m long ih =>
      have front : (m ++ rest).take 128 = m.take 128 := List.take_append_of_le_length long
      have back : (m ++ rest).drop 128 = m.drop 128 ++ rest := List.drop_append_of_le_length long
      rw [blocks, if_pos (by rw [List.length_append]; omega), front, back]
      exact ih (by rw [List.length_drop]; omega)
  | case2 v m short =>
      have nil : m = [] := List.eq_nil_of_length_eq_zero (by omega)
      rw [nil, List.nil_append]

/-- Division by the numbers below 21. -/
def trial (p : Nat) : Bool := (List.range 19).all fun d => p % (d + 2) != 0 || p == d + 2

theorem trial_iff {p : Nat} (low : 2 ≤ p) (small : p < 441) : trial p = true ↔ p.Prime := by
  simp only [trial, List.all_eq_true, List.mem_range, Bool.or_eq_true, bne_iff_ne, beq_iff_eq]
  constructor
  · refine fun tested => Nat.prime_def_le_sqrt.mpr ⟨low, fun m least most divides => ?_⟩
    have square : m * m ≤ p := Nat.le_sqrt.mp most
    have near : m < 21 := by
      by_contra far
      have := Nat.mul_le_mul (Nat.le_of_not_lt far) (Nat.le_of_not_lt far)
      omega
    rcases tested (m - 2) (by omega) with other | same
    · rw [Nat.sub_add_cancel least] at other
      exact other (Nat.mod_eq_zero_of_dvd divides)
    · rw [Nat.sub_add_cancel least] at same
      nlinarith
  · intro prime d _
    by_cases divides : d + 2 ∣ p
    · rcases (Nat.dvd_prime prime).mp divides with one | same
      · omega
      · exact .inr same.symm
    · exact .inl fun zero => divides (Nat.dvd_of_mod_eq_zero zero)

/-- The next prime after a gap. -/
theorem nth_prime_succ {i p q : Nat} (here : Nat.nth Nat.Prime i = p) (prime : q.Prime) (less : p < q)
    (gap : ∀ m, p < m → m < q → ¬m.Prime) : Nat.nth Nat.Prime (i + 1) = q := by
  have place : Nat.nth Nat.Prime (Nat.count Nat.Prime q) = q := Nat.nth_count prime
  have after : i < Nat.count Nat.Prime q :=
    (Nat.nth_lt_nth Nat.infinite_setOfPred_prime).mp (by rw [place, here]; exact less)
  rcases Nat.lt_or_eq_of_le (Nat.succ_le_of_lt after) with between | same
  · have low : p < Nat.nth Nat.Prime (i + 1) :=
      here ▸ (Nat.nth_lt_nth Nat.infinite_setOfPred_prime).mpr (Nat.lt_succ_self i)
    have high : Nat.nth Nat.Prime (i + 1) < q :=
      Nat.lt_of_lt_of_eq ((Nat.nth_lt_nth Nat.infinite_setOfPred_prime).mpr between) place
    exact absurd (Nat.prime_nth_prime (i + 1)) (gap _ low high)
  · exact (congrArg (Nat.nth Nat.Prime) same).trans place

/-- The primes of a list are the first ones, if it starts with two and leaves none out. -/
theorem nth_prime_eq {l : List Nat} (start : l.getD 0 0 = 2)
    (next : ∀ i, i + 1 < l.length → (l.getD (i + 1) 0).Prime ∧ l.getD i 0 < l.getD (i + 1) 0 ∧
      ∀ m, l.getD i 0 < m → m < l.getD (i + 1) 0 → ¬m.Prime) {i : Nat} (inside : i < l.length) :
    Nat.nth Nat.Prime i = l.getD i 0 := by
  induction i with
  | zero => rw [start, Nat.nth_prime_zero_eq_two]
  | succ i ih =>
      obtain ⟨prime, less, gap⟩ := next i inside
      exact nth_prime_succ (ih (by omega)) prime less gap

/-- The bits of a root, by the two powers that it lies between. -/
theorem rootBits_eq {n i whole : Nat} {bits : UInt64}
    (low : (whole * 2 ^ 64 + bits.toNat) ^ n ≤ Nat.nth Nat.Prime i * 2 ^ (64 * n))
    (high : Nat.nth Nat.Prime i * 2 ^ (64 * n) < (whole * 2 ^ 64 + bits.toNat + 1) ^ n) : rootBits n i = bits := by
  have size := bits.toNat_lt
  rw [rootBits, Nat.nthRoot_eq_of_le_of_lt low high]
  apply UInt64.toNat.inj
  rw [UInt64.toNat_ofNat']
  omega

end Sha512
