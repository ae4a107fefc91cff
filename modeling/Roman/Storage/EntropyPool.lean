import Mathlib.Data.Fintype.EquivFin
import Mathlib.Data.FinEnum
import Roman.Lib.Mixing
import Roman.Storage.Random

/-! # The entropy pool

The finaliser of splitmix64 is a bijection of the 64-bit words, so nothing of a sample
and nothing of the state is lost when the one is folded into the other. Without samples
the state only grows by an odd constant, and comes back after all 2^64 words.
-/

namespace Roman

open Function Mixing

/-- The constant of the generator, and of the first step of its finaliser. -/
def GAMMA : BitVec 64 := 0x9E3779B97F4A7C15

theorem mix64_toBitVec (x : UInt64) : (mix64 x).toBitVec =
    xorShift 31 (xorShift 27 (xorShift 30 (x.toBitVec + GAMMA) * 0xBF58476D1CE4E5B9) * 0x94D049BB133111EB) := rfl

theorem mix64_injective : Injective mix64 := by
  intro x y same
  have words := congrArg UInt64.toBitVec same
  rw [mix64_toBitVec, mix64_toBitVec] at words
  have third := xorShift_injective (by decide) words
  have second := xorShift_injective (by decide) (mul_injective (d := 0x319642B2D24D8EC3) (by decide) third)
  have first := xorShift_injective (by decide) (mul_injective (d := 0x96DE1B173F119089) (by decide) second)
  exact UInt64.eq_of_toBitVec_eq (add_injective GAMMA first)

theorem mix64_bijective : Bijective mix64 := Finite.injective_iff_bijective.mp mix64_injective

theorem getLsbD_wide (hi lo : UInt32) (i : Nat) : (wide hi lo).toBitVec.getLsbD i =
    if i < 32 then lo.toBitVec.getLsbD i else hi.toBitVec.getLsbD (i - 32) := by
  simp only [wide, UInt64.toBitVec_or, UInt64.toBitVec_shiftLeft, UInt32.toBitVec_toUInt64, BitVec.getLsbD_or]
  by_cases low : i < 32
  · have inside : i < 64 := by omega
    simp [low, inside]
  · have above := BitVec.getLsbD_of_ge lo.toBitVec i (Nat.not_lt.mp low)
    by_cases inside : i < 64
    · simp [low, inside, above]
    · have outside := BitVec.getLsbD_of_ge hi.toBitVec (i - 32) (by omega)
      simp [low, inside, outside]

/-- A sample is its two words. -/
theorem wide_injective {hi lo hi' lo' : UInt32} (same : wide hi lo = wide hi' lo') : hi = hi' ∧ lo = lo' := by
  have bits : ∀ i, (wide hi lo).toBitVec.getLsbD i = (wide hi' lo').toBitVec.getLsbD i := fun i => by rw [same]
  simp only [getLsbD_wide] at bits
  constructor
  · apply UInt32.eq_of_toBitVec_eq
    apply BitVec.eq_of_getLsbD_eq
    intro i inside
    have bit := bits (i + 32)
    rwa [if_neg (by omega), if_neg (by omega), Nat.add_sub_cancel] at bit
  · apply UInt32.eq_of_toBitVec_eq
    apply BitVec.eq_of_getLsbD_eq
    intro i inside
    have bit := bits i
    rwa [if_pos inside, if_pos inside] at bit

/-- The state with a sample folded in. -/
def folded (randState : UInt64) (sample : UInt32 × UInt32) : UInt64 := randState ^^^ mix64 (wide sample.2 sample.1)

theorem foldSample_randState {r : Rng} {sample : UInt32 × UInt32} (answers : r.entropy.trng r.samples = some sample) :
    (foldSample r).2.randState = folded r.randState sample := by
  unfold foldSample trngSample
  rw [answers]
  rfl

theorem folded_sample_injective (randState : UInt64) : Injective (folded randState) := by
  rintro ⟨w0, w1⟩ ⟨w0', w1'⟩ same
  have mixed : mix64 (wide w1 w0) = mix64 (wide w1' w0') := (UInt64.xor_right_inj randState).mp same
  obtain ⟨high, low⟩ := wide_injective (mix64_injective mixed)
  rw [high, low]

theorem folded_state_bijective (sample : UInt32 × UInt32) : Bijective fun randState => folded randState sample := by
  apply Finite.injective_iff_bijective.mp
  intro a b same
  exact (UInt64.xor_left_inj (mix64 (wide sample.2 sample.1))).mp same

/-- The TRNG never answers. -/
def Rng.Unanswered (r : Rng) : Prop := ∀ n, r.entropy.trng n = none

/-- The state that the `n`-th draw from here mixes. -/
def drawnState (r : Rng) (n : Nat) : UInt64 := (after (n + 1) r).randState

theorem after_succ (n : Nat) (r : Rng) : after (n + 1) r = (randNext (after n r)).2 := by
  induction n generalizing r with
  | zero => rfl
  | succ n ih => exact ih (randNext r).2

/-- The word drawn is the upper half of what the finaliser makes of that state. -/
theorem randNext_drawnState (r : Rng) (n : Nat) :
    (randNext (after n r)).1 = (mix64 (drawnState r n) >>> 32).toUInt32 := by
  rw [drawnState, after_succ]
  rfl

theorem randSeed_entropy (r : Rng) : (randSeed r).entropy = r.entropy := by
  unfold randSeed
  split <;> rfl

theorem randSeed_seeded (r : Rng) : (randSeed r).randSeeded = true := by
  unfold randSeed
  split
  · assumption
  · rfl

theorem foldSample_unanswered {r : Rng} (unanswered : r.Unanswered) :
    (foldSample r).2 = { r with samples := r.samples + 1 } := by
  unfold foldSample trngSample
  rw [unanswered]

theorem randNext_unanswered {r : Rng} (unanswered : r.Unanswered) : (randNext r).2.Unanswered ∧
    (randNext r).2.randSeeded = true ∧ (randNext r).2.randState.toBitVec = (randSeed r).randState.toBitVec + GAMMA := by
  have seeded : (randSeed r).Unanswered := by
    unfold Rng.Unanswered
    rw [randSeed_entropy]
    exact unanswered
  unfold randNext
  rw [foldSample_unanswered seeded]
  exact ⟨seeded, randSeed_seeded r, rfl⟩

/-- Every draw adds the constant to the state. -/
theorem drawnState_steps {r : Rng} (unanswered : r.Unanswered) (n : Nat) :
    (drawnState r n).toBitVec = steps GAMMA ((randSeed r).randState.toBitVec + GAMMA) n := by
  induction n generalizing r with
  | zero =>
      rw [steps_zero]
      exact (randNext_unanswered unanswered).2.2
  | succ n ih =>
      obtain ⟨still, seeded, state⟩ := randNext_unanswered unanswered
      have same : randSeed (randNext r).2 = (randNext r).2 := by
        rw [randSeed, if_pos seeded]
      have rest := ih still
      rw [same, state, ← steps_one, ← steps_add, Nat.add_comm 1 n] at rest
      exact rest

/-- No two of 2^64 draws in a row mix the same state. -/
theorem drawnState_distinct {r : Rng} (unanswered : r.Unanswered) {start i j : Nat} (first : i < 2 ^ 64)
    (second : j < 2 ^ 64) (same : drawnState r (start + i) = drawnState r (start + j)) : i = j := by
  have states := congrArg UInt64.toBitVec same
  rw [drawnState_steps unanswered, drawnState_steps unanswered, steps_add, steps_add] at states
  exact steps_distinct (d := 0xF1DE83E19937733D) (by decide) _ first second states

/-- Nothing is lost when a sample is folded in, and each word is the upper half of what the finaliser makes of a
state that does not come back for 2^64 draws. -/
theorem entropyPool_lossless :
    Bijective mix64 ∧
      (∀ r sample, r.entropy.trng r.samples = some sample →
        (foldSample r).2.randState = folded r.randState sample) ∧
      (∀ randState, Injective (folded randState)) ∧
      (∀ sample, Bijective fun randState => folded randState sample) ∧
      (∀ r n, (randNext (after n r)).1 = (mix64 (drawnState r n) >>> 32).toUInt32) ∧
      ∀ r : Rng, r.Unanswered → ∀ start i j, i < 2 ^ 64 → j < 2 ^ 64 → i ≠ j →
        drawnState r (start + i) ≠ drawnState r (start + j) ∧
          mix64 (drawnState r (start + i)) ≠ mix64 (drawnState r (start + j)) := by
  refine ⟨mix64_bijective, fun _ _ => foldSample_randState, folded_sample_injective, folded_state_bijective,
    randNext_drawnState, ?_⟩
  intro r unanswered start i j first second other
  have states : drawnState r (start + i) ≠ drawnState r (start + j) := fun same =>
    other (drawnState_distinct unanswered first second same)
  exact ⟨states, fun same => states (mix64_injective same)⟩

end Roman
