import Roman.Lib.Arrays
import Roman.Lib.Loops
import Roman.Lib.Sha512
import Roman.TweetNacl.Sign

/-! # crypto_hash is SHA-512

The code keeps 16 words of the message schedule and overwrites them every 16 rounds, and
moves the working variables through an array; the length is written as 72 bits.
-/

namespace Roman.TweetNacl

open Arrays CMem LittleEndian Loops Sha512

/-- The primes below 410. -/
def primes : List Nat :=
  [2, 3, 5, 7, 11, 13, 17, 19, 23, 29, 31, 37, 41, 43, 47, 53, 59, 61, 67, 71, 73, 79, 83, 89, 97, 101, 103, 107, 109,
    113, 127, 131, 137, 139, 149, 151, 157, 163, 167, 173, 179, 181, 191, 193, 197, 199, 211, 223, 227, 229, 233, 239,
    241, 251, 257, 263, 269, 271, 277, 281, 283, 293, 307, 311, 313, 317, 331, 337, 347, 349, 353, 359, 367, 373, 379,
    383, 389, 397, 401, 409]

theorem primes_trial : ∀ i < 79, trial (primes.getD (i + 1) 0) = true ∧ 2 ≤ primes.getD i 0 ∧
    primes.getD i 0 < primes.getD (i + 1) 0 ∧ primes.getD (i + 1) 0 < 441 ∧
      ∀ d < primes.getD (i + 1) 0 - primes.getD i 0 - 1, trial (primes.getD i 0 + d + 1) = false := by
  decide +kernel

theorem primes_eq {i : Nat} (inside : i < 80) : Nat.nth Nat.Prime i = primes.getD i 0 := by
  refine nth_prime_eq rfl (fun j later => ?_) inside
  obtain ⟨tested, two, less, small, gap⟩ := primes_trial j (Nat.lt_of_succ_lt_succ later)
  refine ⟨(trial_iff (by omega) small).mp tested, less, fun m low high prime => ?_⟩
  have between := gap (m - primes.getD j 0 - 1) (by omega)
  rw [show primes.getD j 0 + (m - primes.getD j 0 - 1) + 1 = m by omega] at between
  exact Bool.false_ne_true (between.symm.trans ((trial_iff (by omega) (by omega)).mpr prime))

/-- The whole parts of the cube roots. -/
def cubeRootWhole (p : Nat) : Nat :=
  if p < 8 then 1 else if p < 27 then 2 else if p < 64 then 3 else if p < 125 then 4 else if p < 216 then 5
  else if p < 343 then 6 else 7

theorem K_between : ∀ i < 80,
    (cubeRootWhole (primes.getD i 0) * 2 ^ 64 + K[i]!.toNat) ^ 3 ≤ primes.getD i 0 * 2 ^ (64 * 3) ∧
      primes.getD i 0 * 2 ^ (64 * 3) < (cubeRootWhole (primes.getD i 0) * 2 ^ 64 + K[i]!.toNat + 1) ^ 3 := by
  decide +kernel

theorem K_eq {i : Nat} (inside : i < 80) : K[i]! = k i := by
  obtain ⟨low, high⟩ := K_between i inside
  exact (rootBits_eq (primes_eq inside ▸ low) (primes_eq inside ▸ high)).symm

theorem iv_between : ∀ i < 8,
    ((primes.getD i 0).sqrt * 2 ^ 64 + iv[i]!.toNat) ^ 2 ≤ primes.getD i 0 * 2 ^ (64 * 2) ∧
      primes.getD i 0 * 2 ^ (64 * 2) < ((primes.getD i 0).sqrt * 2 ^ 64 + iv[i]!.toNat + 1) ^ 2 := by
  decide +kernel

/-- The working variables in an array. -/
def vars (v : Vars) : Array UInt64 := #[v.a, v.b, v.c, v.d, v.e, v.f, v.g, v.h]

theorem iv_eq : iv = vars initial := by
  have bits : ∀ i < 8, rootBits 2 i = iv[i]! := fun i inside => by
    obtain ⟨low, high⟩ := iv_between i inside
    have prime := primes_eq (Nat.lt_of_lt_of_le inside (by decide : 8 ≤ 80))
    exact rootBits_eq (prime ▸ low) (prime ▸ high)
  rw [vars, initial]
  dsimp only
  rw [bits 0 (by decide), bits 1 (by decide), bits 2 (by decide), bits 3 (by decide), bits 4 (by decide),
    bits 5 (by decide), bits 6 (by decide), bits 7 (by decide)]
  rfl

theorem R_eq (x : UInt64) (n : Nat) (low : 0 < n) (high : n < 64) : R x (UInt64.ofNat n) = rotr n x := by
  have shift : (UInt64.ofNat n).toNat = n := by
    rw [UInt64.toNat_ofNat']
    omega
  have left : (64 - UInt64.ofNat n).toNat = 64 - n := by
    have size : (64 : UInt64).toNat = 64 := rfl
    rw [UInt64.toNat_sub, shift]
    omega
  have right' : ((UInt64.ofNat n).toBitVec % 64).toNat = n := by
    rw [BitVec.toNat_umod]
    change (UInt64.ofNat n).toNat % 64 = n
    omega
  have left' : ((64 - UInt64.ofNat n).toBitVec % 64).toNat = 64 - n := by
    rw [BitVec.toNat_umod]
    change (64 - UInt64.ofNat n).toNat % 64 = 64 - n
    omega
  apply UInt64.toBitVec_inj.mp
  rw [R, rotr, UInt64.toBitVec_or, UInt64.toBitVec_shiftRight, UInt64.toBitVec_shiftLeft, BitVec.rotateRight_def,
    BitVec.ushiftRight_eq', BitVec.shiftLeft_eq', right', left', Nat.mod_eq_of_lt high]

theorem shr_eq (x : UInt64) (n : Nat) (high : n < 64) : x >>> UInt64.ofNat n = shr n x := by
  have place : ((UInt64.ofNat n).toBitVec % 64).toNat = n := by
    rw [BitVec.toNat_umod]
    change (UInt64.ofNat n).toNat % 64 = n
    rw [UInt64.toNat_ofNat']
    omega
  apply UInt64.toBitVec_inj.mp
  rw [shr, UInt64.toBitVec_shiftRight, BitVec.ushiftRight_eq', place]

theorem bigSigma0_eq (x : UInt64) : bigSigma0 x = sum0 x := by
  rw [sum0, ← R_eq x 28 (by decide) (by decide), ← R_eq x 34 (by decide) (by decide), ← R_eq x 39 (by decide) (by decide)]
  rfl

theorem bigSigma1_eq (x : UInt64) : bigSigma1 x = sum1 x := by
  rw [sum1, ← R_eq x 14 (by decide) (by decide), ← R_eq x 18 (by decide) (by decide), ← R_eq x 41 (by decide) (by decide)]
  rfl

theorem smallSigma0_eq (x : UInt64) : smallSigma0 x = sigma0 x := by
  rw [sigma0, ← R_eq x 1 (by decide) (by decide), ← R_eq x 8 (by decide) (by decide), ← shr_eq x 7 (by decide)]
  rfl

theorem smallSigma1_eq (x : UInt64) : smallSigma1 x = sigma1 x := by
  rw [sigma1, ← R_eq x 19 (by decide) (by decide), ← R_eq x 61 (by decide) (by decide), ← shr_eq x 6 (by decide)]
  rfl

/-- The window moves on by 16 words. -/
def nextWindow (w : Array UInt64) : Array UInt64 := Id.run do
  let mut w := w
  for j in [0:16] do
    w := w.set! j (w[j]! + (w[(j + 9) % 16]! + smallSigma0 w[(j + 1) % 16]! + smallSigma1 w[(j + 14) % 16]!))
  return w

/-- The window of the schedule, of which the first `j` words are 16 further. -/
def window (block : Nat → UInt64) (q j l : Nat) : UInt64 := schedule block (16 * q + if l < j then l + 16 else l)

theorem window_read (block : Nat → UInt64) (q j : Nat) {d : Nat} (inside : j < 16) (near : d < 16) :
    window block q j ((j + d) % 16) = schedule block (16 * q + j + d) := by
  unfold window
  congr 1
  split <;> omega

theorem nextWindow_entries {block : Nat → UInt64} {q : Nat} {w : Array UInt64} (holds : Entries w 16 (window block q 0)) :
    Entries (nextWindow w) 16 (window block (q + 1) 0) := by
  suffices all : Entries (nextWindow w) 16 (window block q 16) from all.congr fun l inside => by
    rw [window, window, if_pos inside, if_neg (Nat.not_lt_zero l)]
    congr 1
    omega
  unfold nextWindow
  refine forIn_range (fun j (w : Array UInt64) => Entries w 16 (window block q j)) (Nat.zero_le 16) holds ?_
  intro j w _ inside holds
  have read : ∀ d < 16, w[(j + d) % 16]! = schedule block (16 * q + j + d) := fun d near => by
    rw [holds.entry _ (Nat.mod_lt _ (by omega)), window_read block q j inside near]
  have here : w[j]! = schedule block (16 * q + j) := by
    have zero := read 0 (by omega)
    rwa [Nat.add_zero, Nat.mod_eq_of_lt inside] at zero
  have next : w[j]! + (w[(j + 9) % 16]! + smallSigma0 w[(j + 1) % 16]! + smallSigma1 w[(j + 14) % 16]!) =
      schedule block (16 * q + j + 16) := by
    rw [schedule_add, here, read 9 (by omega), read 1 (by omega), read 14 (by omega), smallSigma0_eq, smallSigma1_eq]
    ac_rfl
  refine .yield ((holds.set inside next).congr fun l small => ?_)
  by_cases same : l = j
  · rw [same, Function.update_self, window, if_pos (Nat.lt_succ_self j)]
    rfl
  · rw [Function.update_of_ne same, window, window]
    congr 2
    exact if_congr (by omega) rfl rfl

/-- The working variables move by one place. -/
def moved (a b : Array UInt64) : Array UInt64 := Id.run do
  let mut a := a
  for j in [0:8] do
    a := a.set! ((j + 1) % 8) b[j]!
  return a

theorem moved_entries {a b : Array UInt64} (size : a.size = 8) : Entries (moved a b) 8 fun l => b[(l + 7) % 8]! := by
  suffices all : Entries (moved a b) 8 fun l => if (l + 7) % 8 < 8 then b[(l + 7) % 8]! else a[l]! from
    all.congr fun l _ => if_pos (Nat.mod_lt _ (by omega))
  unfold moved
  refine forIn_range (fun j (m : Array UInt64) => Entries m 8 fun l => if (l + 7) % 8 < j then b[(l + 7) % 8]! else a[l]!)
    (Nat.zero_le 8) ⟨size, fun _ _ => rfl⟩ ?_
  intro j m _ inside holds
  have place : ((j + 1) % 8 + 7) % 8 = j := by omega
  refine .yield ((holds.put (Nat.mod_lt (j + 1) (by omega)) ?_).congr fun l _ => if_congr (by omega) rfl rfl)
  rw [place]

/-- One round. -/
def roundArray (a : Array UInt64) (k w : UInt64) : Array UInt64 :=
  let t : UInt64 := a[7]! + bigSigma1 a[4]! + Ch a[4]! a[5]! a[6]! + k + w
  let b := a.set! 7 (t + bigSigma0 a[0]! + Maj a[0]! a[1]! a[2]!)
  let b := b.set! 3 (b[3]! + t)
  moved a b

theorem roundArray_vars (v : Vars) (k w : UInt64) : roundArray (vars v) k w = vars (v.round k w) := by
  have last : Entries (vars (v.round k w)) 8 fun l => (vars (v.round k w))[l]! := ⟨rfl, fun _ _ => rfl⟩
  refine (moved_entries rfl).ext (last.congr fun l inside => ?_)
  have first : v.h + sum1 v.e + ch v.e v.f v.g + k + w + (sum0 v.a + maj v.a v.b v.c) =
      v.h + sum1 v.e + ch v.e v.f v.g + k + w + sum0 v.a + maj v.a v.b v.c := (UInt64.add_assoc ..).symm
  have fifth : v.d + (v.h + sum1 v.e + ch v.e v.f v.g + k + w) = v.d + (v.h + bigSigma1 v.e + Ch v.e v.f v.g + k + w) := by
    rw [bigSigma1_eq]
    rfl
  rw [← bigSigma1_eq, ← bigSigma0_eq] at first
  interval_cases l
  · exact first
  · rfl
  · rfl
  · rfl
  · exact fifth
  · rfl
  · rfl
  · rfl

/-- The words of a block. -/
def blockWords (m : Bytes) (i : Nat) : UInt64 := dl64 m (8 * i)

theorem blockWords_entries (m : Bytes) :
    Entries ((List.range 16).map fun i => dl64 m (8 * i)).toArray 16 (window (blockWords m) 0 0) := by
  have all := Entries.toArray ((List.range 16).map fun i => dl64 m (8 * i))
  rw [List.length_map, List.length_range] at all
  refine all.congr fun l inside => ?_
  rw [window, if_neg (Nat.not_lt_zero l), Nat.mul_zero, Nat.zero_add, schedule_block _ inside,
    List.getD_eq_getElem?_getD, List.getElem?_map, List.getElem?_range inside]
  rfl

/-- The sum of two arrays of working variables. -/
def sumVars (z a : Array UInt64) : Array UInt64 := Id.run do
  let mut r := z
  for i in [0:8] do
    r := r.set! i (a[i]! + z[i]!)
  return r

theorem sumVars_eq (v w : Vars) : sumVars (vars v) (vars w) = vars (v.add w) := by
  have last : Entries (vars (v.add w)) 8 fun l => (vars (v.add w))[l]! := ⟨rfl, fun _ _ => rfl⟩
  suffices all : Entries (sumVars (vars v) (vars w)) 8 fun l =>
      if l < 8 then (vars w)[l]! + (vars v)[l]! else (vars v)[l]! from all.ext (last.congr fun l inside => by
    rw [if_pos inside, UInt64.add_comm]
    interval_cases l <;> rfl)
  unfold sumVars
  refine forIn_range (fun i (r : Array UInt64) => Entries r 8 fun l =>
    if l < i then (vars w)[l]! + (vars v)[l]! else (vars v)[l]!) (Nat.zero_le 8) ⟨rfl, fun _ _ => rfl⟩ ?_
  intro i r _ inside holds
  exact .yield ((holds.put inside rfl).congr fun l _ => if_congr (by omega) rfl rfl)

theorem hashBlock_eq (v : Vars) (m : Bytes) : hashBlock (vars v) m = vars (compress v (blockWords m)) := by
  unfold hashBlock
  rw [Id.run_bind]
  generalize looped : Id.run (forIn [0:80] _ _) = y
  have last : Entries y.1 16 (window (blockWords m) (80 / 16) 0) ∧ y.2 = vars (rounds v (blockWords m) 80) := by
    rw [← looped]
    refine forIn_range (fun i (s : Array UInt64 × Array UInt64) => Entries s.1 16 (window (blockWords m) (i / 16) 0) ∧
      s.2 = vars (rounds v (blockWords m) i)) (Nat.zero_le 80) ⟨blockWords_entries m, rfl⟩ ?_
    rintro i ⟨w, a⟩ - inside ⟨words, same⟩
    dsimp only at words same
    have word : w[i % 16]! = schedule (blockWords m) i := by
      rw [words.entry _ (Nat.mod_lt i (by omega)), window, if_neg (Nat.not_lt_zero _), Nat.div_add_mod]
    have round : roundArray a K[i]! w[i % 16]! = vars (rounds v (blockWords m) (i + 1)) := by
      rw [same, word, K_eq inside, roundArray_vars]
      rfl
    by_cases turn : i % 16 = 15
    · simp only [if_pos turn]
      refine ⟨(nextWindow w, roundArray a K[i]! w[i % 16]!), rfl, ?_, round⟩
      rw [show (i + 1) / 16 = i / 16 + 1 by omega]
      exact nextWindow_entries words
    · simp only [if_neg turn]
      refine ⟨(w, roundArray a K[i]! w[i % 16]!), rfl, ?_, round⟩
      rw [show (i + 1) / 16 = i / 16 by omega]
      exact words
  have sum := sumVars_eq v (rounds v (blockWords m) 80)
  rw [← last.2] at sum
  exact sum

/-- One more byte of a word that is read. -/
theorem shift_byte {u : UInt64} (b : UInt8) (small : u.toNat < 2 ^ 56) :
    ((u <<< 8) ||| b.toUInt64).toNat = b.toNat + 256 * u.toNat := by
  have place : (8 : UInt64).toNat % 64 = 8 := rfl
  have less := b.toNat_lt
  have shifted : u.toNat <<< 8 % 2 ^ 64 = 2 ^ 8 * u.toNat := by
    rw [Nat.shiftLeft_eq]
    omega
  rw [UInt64.toNat_or, UInt64.toNat_shiftLeft, UInt8.toNat_toUInt64, place, shifted,
    ← Nat.two_pow_add_eq_or_of_lt less]
  omega

theorem dl64_fold (m : Bytes) (off : Nat) {n : Nat} (most : n ≤ 8) (fits : off + n ≤ m.length) :
    ((List.range n).foldl (fun (u : UInt64) i => (u <<< 8) ||| (m.getD (off + i) 0).toUInt64) 0).toNat =
      fromBytes ((m.drop off).take n).reverse := by
  induction n with
  | zero => rfl
  | succ n ih =>
      have before := ih (by omega) (by omega)
      have size : ((m.drop off).take n).reverse.length = n := by
        rw [List.length_reverse, List.length_take, List.length_drop]
        omega
      have small := fromBytes_lt ((m.drop off).take n).reverse
      rw [size, ← before] at small
      have bound : 256 ^ n ≤ 256 ^ 7 := Nat.pow_le_pow_right (by omega) (by omega)
      have next : m[off + n]? = some (m.getD (off + n) 0) := by
        rw [List.getD_eq_getElem?_getD, List.getElem?_eq_getElem (by omega), Option.getD_some]
      rw [List.range_succ, List.foldl_concat, shift_byte _ (by omega), before, List.take_add_one, List.getElem?_drop, next,
        Option.toList_some, List.reverse_append, List.reverse_singleton, List.singleton_append, fromBytes_cons]

theorem dl64_eq {m : Bytes} {i : Nat} (fits : 8 * i + 8 ≤ m.length) : dl64 m (8 * i) = word m i := by
  apply UInt64.toNat.inj
  have read := dl64_fold m (8 * i) (n := 8) (le_refl _) fits
  have small := (dl64 m (8 * i)).toNat_lt
  rw [word, UInt64.toNat_ofNat', ← read]
  exact (Nat.mod_eq_of_lt small).symm

theorem ts64_eq (u : UInt64) : ts64 u = bigEndian 8 u.toNat := by
  have byte : ∀ i < 8, (u >>> UInt64.ofNat (8 * i)).toUInt8 = UInt8.ofNat (u.toNat / 256 ^ i) := by
    intro i inside
    apply UInt8.toNat.inj
    have place : (UInt64.ofNat (8 * i)).toNat % 64 = 8 * i := by
      rw [UInt64.toNat_ofNat']
      omega
    have power : 2 ^ (8 * i) = 256 ^ i := by norm_num [pow_mul]
    rw [UInt64.toNat_toUInt8, UInt64.toNat_shiftRight, place, Nat.shiftRight_eq_div_pow, power, UInt8.toNat_ofNat']
  have last : u.toUInt8 = UInt8.ofNat (u.toNat / 256 ^ 0) := by
    rw [pow_zero, Nat.div_one]
    exact UInt8.toNat.inj (by rw [UInt64.toNat_toUInt8, UInt8.toNat_ofNat'])
  rw [bigEndian, toBytes_map, ts64, last]
  simp only [List.range_succ, List.range_zero, List.map_cons, List.map_nil, List.reverse_cons, List.reverse_nil,
    List.nil_append, List.cons_append]
  rw [← byte 1 (by omega), ← byte 2 (by omega), ← byte 3 (by omega), ← byte 4 (by omega), ← byte 5 (by omega),
    ← byte 6 (by omega), ← byte 7 (by omega)]
  rfl

theorem cryptoHashblocks_eq (v : Vars) (m : Bytes) : cryptoHashblocks (vars v) m = vars (blocks v m) := by
  fun_induction blocks v m with
  | case1 v m long ih =>
      have size : (m.take 128).length = 128 := by
        rw [List.length_take]
        omega
      have words : compress v (blockWords (m.take 128)) = compress v (word (m.take 128)) :=
        compress_congr (fun i inside => dl64_eq (by omega)) v
      rw [cryptoHashblocks, if_pos long, hashBlock_eq, words]
      exact ih
  | case2 v m short => rw [cryptoHashblocks, if_neg short]

/-- The length at the end of the padding, of a message whose length is a word. -/
theorem bigEndian_length {n : Nat} (size : n < 2 ^ 64) :
    bigEndian 16 (8 * n) = List.replicate 7 0 ++ UInt8.ofNat (n / 2 ^ 61) :: ts64 (UInt64.ofNat (n * 8)) := by
  have high : 8 * n / 256 ^ 8 = n / 2 ^ 61 := by omega
  have low : bigEndian 8 ((n * 8) % 2 ^ 64) = bigEndian 8 (8 * n) := by
    rw [Nat.mul_comm]
    exact congrArg List.reverse (toBytes_mod 8 (8 * n))
  have zero : n / 2 ^ 61 / 256 ^ 1 = 0 := by omega
  have front : bigEndian (1 + 7) (n / 2 ^ 61) = List.replicate 7 0 ++ [UInt8.ofNat (n / 2 ^ 61)] := by
    rw [bigEndian_add 1 7, zero]
    rfl
  rw [bigEndian_add 8 8, high, front, ts64_eq, UInt64.toNat_ofNat', low, List.append_assoc]
  rfl

/-- The whole blocks of the message, and the blocks that the code puts together from the rest. -/
theorem pad_eq {m : Bytes} (size : m.length < 2 ^ 64) :
    pad m = m.take (m.length - m.length % 128) ++
      (m.drop (m.length - m.length % 128) ++ 128 ::
        List.replicate ((if (m.drop (m.length - m.length % 128)).length < 112 then 128 else 256) - 10 -
          (m.drop (m.length - m.length % 128)).length) 0 ++
        UInt8.ofNat (m.length / 2 ^ 61) :: ts64 (UInt64.ofNat (m.length * 8))) := by
  have tail : (m.drop (m.length - m.length % 128)).length = m.length % 128 := by
    rw [List.length_drop]
    omega
  have zeros : (239 - m.length % 128) % 128 + 7 = (if m.length % 128 < 112 then 128 else 256) - 10 - m.length % 128 := by
    split <;> omega
  have cut : ∀ x, m ++ x = m.take (m.length - m.length % 128) ++ (m.drop (m.length - m.length % 128) ++ x) := fun x => by
    rw [← List.append_assoc, List.take_append_drop]
  rw [tail, ← zeros, pad, bigEndian_length size, List.replicate_add, List.append_assoc, cut]
  simp only [List.append_assoc, List.cons_append]

/-- `crypto_hash` is SHA-512, for every message whose length is a `u64`. -/
theorem cryptoHash_sha512 {m : Bytes} (size : m.length < 2 ^ 64) : cryptoHash m = sha512 m := by
  have whole : (m.take (m.length - m.length % 128)).length % 128 = 0 := by
    rw [List.length_take]
    omega
  have rest : ∀ v, blocks v (m.drop (m.length - m.length % 128)) = v := fun v => by
    rw [blocks, if_neg (by rw [List.length_drop]; omega)]
  have front : blocks initial m = blocks initial (m.take (m.length - m.length % 128)) := by
    conv_lhs => rw [← List.take_append_drop (m.length - m.length % 128) m]
    rw [blocks_append _ whole, rest]
  unfold cryptoHash
  dsimp only
  rw [iv_eq, cryptoHashblocks_eq, cryptoHashblocks_eq, front, sha512, pad_eq size, blocks_append _ whole]
  generalize blocks _ _ = v
  simp only [Vars.bytes, ← ts64_eq]
  rfl

/-- Two whole blocks, and a rest behind which the length does not fit. -/
theorem cryptoHash_sha512_letters : cryptoHash (List.replicate 370 0x61) = sha512 (List.replicate 370 0x61) :=
  cryptoHash_sha512 (by rw [List.length_replicate]; decide)

end Roman.TweetNacl
