import Roman.TweetNacl.Box

/-! # storage.c: randomness

The generator is a splitmix64 state that every answer of the hardware TRNG is
folded into. What the hardware answers is the environment's: one value for each
source that is read once per boot, and a sequence of answers for the TRNG, where
a sample that misses its deadline is `none`. A board without a TRNG is the case
where every answer is `none`.
-/

namespace Roman

open CMem TweetNacl

/-- The sources of entropy of one boot. -/
structure Entropy where
  /-- `rom_get_boot_random`. -/
  bootRandom : Option (UInt32 × UInt32 × UInt32 × UInt32)
  boardId : Bytes
  /-- `time_us_64()` when the generator is seeded. -/
  timeUs : UInt64
  /-- The answer to each `trng_sample` since boot. -/
  trng : Nat → Option (UInt32 × UInt32)

structure Rng where
  entropy : Entropy
  samples : Nat
  randState : UInt64
  randSeeded : Bool
  randTrngSeen : Bool

def mix64 (x : UInt64) : UInt64 :=
  let x := x + 0x9E3779B97F4A7C15
  let x := (x ^^^ (x >>> 30)) * 0xBF58476D1CE4E5B9
  let x := (x ^^^ (x >>> 27)) * 0x94D049BB133111EB
  x ^^^ (x >>> 31)

def wide (hi lo : UInt32) : UInt64 := (hi.toUInt64 <<< 32) ||| lo.toUInt64

def splitmix32 (r : Rng) : UInt32 × Rng :=
  let randState := r.randState + 0x9E3779B97F4A7C15
  ((mix64 randState >>> 32).toUInt32, { r with randState })

def trngSample (r : Rng) : Option (UInt32 × UInt32) × Rng :=
  (r.entropy.trng r.samples, { r with samples := r.samples + 1 })

def randSeed (r : Rng) : Rng :=
  if r.randSeeded then r
  else
    let seed : UInt64 := 0x524F4D414E
    let seed := match r.entropy.bootRandom with
      | some (w0, w1, w2, w3) => seed ^^^ mix64 (wide w1 w0) ^^^ mix64 (wide w3 w2)
      | none => seed
    let id := r.entropy.boardId.foldl (fun (id : UInt64) b => (id <<< 8) ||| b.toUInt64) 0
    let seed := seed ^^^ mix64 id
    let seed := seed ^^^ mix64 r.entropy.timeUs
    { r with randState := if seed ≠ 0 then seed else 0x9E3779B97F4A7C15, randSeeded := true }

/-- Folding one sample into the state, as `rand_next` and the boot probe do. -/
def foldSample (r : Rng) : Bool × Rng :=
  match trngSample r with
  | (some (w0, w1), r) =>
      (true, { r with randTrngSeen := true, randState := r.randState ^^^ mix64 (wide w1 w0) })
  | (none, r) => (false, r)

def randNext (r : Rng) : UInt32 × Rng :=
  splitmix32 (foldSample (randSeed r)).2

def storageTrngProbe (r : Rng) : Bool × Rng :=
  foldSample (randSeed r)

def randombytes : Nat → Rng → Bytes × Rng
  | n + 4, r =>
      let (w, r) := randNext r
      let (rest, r) := randombytes n r
      (st32 w ++ rest, r)
  | 0, r => ([], r)
  | n, r =>
      let (w, r) := randNext r
      ((st32 w).take n, r)

/-- `crypto_box_keypair`: the public key, the secret key and the generator after it. -/
def cryptoBoxKeypair (r : Rng) : Bytes × Bytes × Rng :=
  let (x, r) := randombytes 32 r
  (cryptoScalarmultBase x, x, r)

theorem st32_length (u : UInt32) : (st32 u).length = 4 := rfl

/-- The closing draw for less than a word. -/
private theorem randombytes_short {n : Nat} (nonzero : n ≠ 0) (short : n < 4) (r : Rng) :
    randombytes n r = ((st32 (randNext r).1).take n, (randNext r).2) := by
  obtain rfl | rfl | rfl : n = 1 ∨ n = 2 ∨ n = 3 := by omega
  all_goals rfl

private theorem randombytes_word (n : Nat) (r : Rng) :
    randombytes (n + 4) r =
      (st32 (randNext r).1 ++ (randombytes n (randNext r).2).1, (randombytes n (randNext r).2).2) :=
  rfl

theorem randombytes_length (n : Nat) (r : Rng) : (randombytes n r).1.length = n := by
  induction n using Nat.strongRecOn generalizing r with
  | ind n ih =>
      by_cases zero : n = 0
      · subst zero
        rfl
      · by_cases short : n < 4
        · rw [randombytes_short zero short]
          simp only [List.length_take, st32_length]
          omega
        · obtain ⟨n, rfl⟩ : ∃ m, n = m + 4 := ⟨n - 4, by omega⟩
          rw [randombytes_word]
          simp only [List.length_append, st32_length, ih n (by omega)]
          omega

theorem cryptoBoxKeypair_length (r : Rng) :
    (cryptoBoxKeypair r).1.length = 32 ∧ (cryptoBoxKeypair r).2.1.length = 32 :=
  ⟨cryptoScalarmultBase_length _, randombytes_length 32 r⟩

/-- The generator after `n` more words. -/
def after : Nat → Rng → Rng
  | 0, r => r
  | n + 1, r => after n (randNext r).2

/-- Two generators that will hand out the same words, however they got there. -/
def SameDraws (r r' : Rng) : Prop := ∀ n, (randNext (after n r)).1 = (randNext (after n r')).1

theorem SameDraws.refl (r : Rng) : SameDraws r r := fun _ => rfl

theorem SameDraws.next {r r' : Rng} (same : SameDraws r r') :
    (randNext r).1 = (randNext r').1 ∧ SameDraws (randNext r).2 (randNext r').2 :=
  ⟨same 0, fun n => same (n + 1)⟩

theorem SameDraws.bytes {r r' : Rng} (same : SameDraws r r') (n : Nat) :
    (randombytes n r).1 = (randombytes n r').1 ∧
      SameDraws (randombytes n r).2 (randombytes n r').2 := by
  induction n using Nat.strongRecOn generalizing r r' with
  | ind n ih =>
      obtain ⟨word, rest⟩ := same.next
      by_cases zero : n = 0
      · subst zero
        exact ⟨rfl, same⟩
      · by_cases short : n < 4
        · rw [randombytes_short zero short, randombytes_short zero short, word]
          exact ⟨rfl, rest⟩
        · obtain ⟨n, rfl⟩ : ∃ m, n = m + 4 := ⟨n - 4, by omega⟩
          obtain ⟨tail, later⟩ := ih n (by omega) rest
          rw [randombytes_word, randombytes_word, word, tail]
          exact ⟨rfl, later⟩

theorem SameDraws.keypair {r r' : Rng} (same : SameDraws r r') :
    (cryptoBoxKeypair r).1 = (cryptoBoxKeypair r').1 ∧
      (cryptoBoxKeypair r).2.1 = (cryptoBoxKeypair r').2.1 ∧
      SameDraws (cryptoBoxKeypair r).2.2 (cryptoBoxKeypair r').2.2 := by
  obtain ⟨bytes, later⟩ := same.bytes 32
  exact ⟨congrArg cryptoScalarmultBase bytes, bytes, later⟩

end Roman
