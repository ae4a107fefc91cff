import Roman.Storage

/-! # Section nonces

The loop shifts the 32-bit section index by up to 56 bits. C defines the shifts of the
first four turns only; what comes of the others is up to the compiler and the machine.
The first four turns are enough for what the nonces are used for: they keep the front
of the base nonce and leave different indices apart, whatever the last four do.
-/

namespace Roman

open CMem

/-- A right shift of a 32-bit operand, where C defines it. -/
def shiftRight32 (x : UInt32) (amount : Nat) : Option UInt32 :=
  if amount < 32 then some (x >>> UInt32.ofNat amount) else none

/-- The turn of the loop that XORs one byte of the shifted index in. -/
def nonceByte (out : Region STORAGE_NONCE_LEN) (b : Nat) (shifted : UInt32) : Region STORAGE_NONCE_LEN :=
  out.store (STORAGE_NONCE_LEN - 8 + b)
    [out.bytes.getD (STORAGE_NONCE_LEN - 8 + b) 0 ^^^ shifted.toUInt8]

/-- The first `turns` turns; none when one of them is not defined. -/
def sectionNonceTurns (base : Region STORAGE_NONCE_LEN) (idx : UInt32) (turns : Nat) :
    Option (Region STORAGE_NONCE_LEN) :=
  (List.range turns).foldlM (fun out b => (shiftRight32 idx (b * 8)).map (nonceByte out b)) base

/-- `storage_section_nonce`; none when the call has no defined meaning. -/
def sectionNonce (base : Region STORAGE_NONCE_LEN) (idx : UInt32) : Option (Region STORAGE_NONCE_LEN) :=
  sectionNonceTurns base idx 8

/-- A machine gives every shift some value, and those that C defines the value they have there. -/
structure Shifter where
  shift : UInt32 → Nat → UInt32
  defined : ∀ x amount, amount < 32 → shift x amount = x >>> UInt32.ofNat amount

def Shifter.nonceTurns (m : Shifter) (base : Region STORAGE_NONCE_LEN) (idx : UInt32) (turns : Nat) :
    Region STORAGE_NONCE_LEN :=
  (List.range turns).foldl (fun out b => nonceByte out b (m.shift idx (b * 8))) base

/-- The nonce that such a machine computes. -/
def Shifter.nonce (m : Shifter) (base : Region STORAGE_NONCE_LEN) (idx : UInt32) : Region STORAGE_NONCE_LEN :=
  m.nonceTurns base idx 8

theorem sectionNonceTurns_succ (base : Region STORAGE_NONCE_LEN) (idx : UInt32) (turns : Nat) :
    sectionNonceTurns base idx (turns + 1) = (sectionNonceTurns base idx turns).bind fun out =>
      (shiftRight32 idx (turns * 8)).map (nonceByte out turns) := by
  rw [sectionNonceTurns, List.range_succ, List.foldlM_append]
  unfold sectionNonceTurns
  cases (List.range turns).foldlM (fun out b => (shiftRight32 idx (b * 8)).map (nonceByte out b)) base with
  | none => rfl
  | some out => simp [List.foldlM]

/-- The loop has a meaning as long as it shifts by less than the width. -/
theorem sectionNonceTurns_isSome (base : Region STORAGE_NONCE_LEN) (idx : UInt32) (turns : Nat) :
    (sectionNonceTurns base idx turns).isSome ↔ turns ≤ 4 := by
  induction turns with
  | zero => exact iff_of_true rfl (Nat.zero_le 4)
  | succ turns ih =>
      rw [sectionNonceTurns_succ, shiftRight32]
      cases before : sectionNonceTurns base idx turns with
      | none =>
          rw [before] at ih
          have late : ¬ turns ≤ 4 := fun early => by cases ih.mpr early
          exact iff_of_false nofun (by omega)
      | some out =>
          rw [Option.bind_some]
          by_cases small : turns * 8 < 32
          · rw [if_pos small]
            exact iff_of_true rfl (by omega)
          · rw [if_neg small]
            exact iff_of_false nofun (by omega)

/-- Where C gives the loop a meaning, every machine computes that. -/
theorem sectionNonceTurns_machine (m : Shifter) {base out : Region STORAGE_NONCE_LEN} {idx : UInt32} {turns : Nat}
    (defined : sectionNonceTurns base idx turns = some out) : m.nonceTurns base idx turns = out := by
  induction turns generalizing out with
  | zero => exact Option.some.inj defined
  | succ turns ih =>
      rw [sectionNonceTurns_succ] at defined
      obtain ⟨before, first, last⟩ := Option.bind_eq_some_iff.mp defined
      obtain ⟨shifted, shift, rfl⟩ := Option.map_eq_some_iff.mp last
      have small : turns * 8 < 32 := by
        unfold shiftRight32 at shift
        split at shift
        · assumption
        · cases shift
      rw [shiftRight32, if_pos small, Option.some.injEq] at shift
      rw [Shifter.nonceTurns, List.range_succ, List.foldl_append]
      change nonceByte (m.nonceTurns base idx turns) turns (m.shift idx (turns * 8)) = _
      rw [ih first, m.defined idx _ small, shift]

theorem nonceByte_getElem? (out : Region STORAGE_NONCE_LEN) {b : Nat} (inside : b < 8) (shifted : UInt32) (i : Nat) :
    (nonceByte out b shifted).bytes[i]? =
      if i = 16 + b then out.bytes[i]?.map (· ^^^ shifted.toUInt8) else out.bytes[i]? := by
  have size : out.bytes.length = 24 := out.size
  have room : STORAGE_NONCE_LEN - 8 + b + 1 ≤ STORAGE_NONCE_LEN := by
    rw [STORAGE_NONCE_LEN]
    omega
  unfold nonceByte
  rw [Region.getElem?_store _ _ _ room, List.length_singleton]
  by_cases here : i = 16 + b
  · subst here
    have first : STORAGE_NONCE_LEN - 8 + b = 16 + b := rfl
    have present : out.bytes[16 + b]? = some (out.bytes.get ⟨16 + b, by omega⟩) := List.getElem?_eq_getElem _
    rw [first, if_pos ⟨Nat.le_refl _, Nat.lt_succ_self _⟩, if_pos rfl, Nat.sub_self, List.getD_eq_getElem?_getD, present]
    rfl
  · rw [if_neg here, if_neg]
    rw [STORAGE_NONCE_LEN]
    omega

/-- Byte by byte: a turn XORs its shifted index into its own byte. -/
theorem nonceTurns_getElem? (m : Shifter) (base : Region STORAGE_NONCE_LEN) (idx : UInt32) {turns : Nat}
    (few : turns ≤ 8) (i : Nat) : (m.nonceTurns base idx turns).bytes[i]? =
      if 16 ≤ i ∧ i < 16 + turns then base.bytes[i]?.map (· ^^^ (m.shift idx ((i - 16) * 8)).toUInt8)
      else base.bytes[i]? := by
  induction turns with
  | zero =>
      rw [if_neg (by omega)]
      rfl
  | succ turns ih =>
      have step : m.nonceTurns base idx (turns + 1) =
          nonceByte (m.nonceTurns base idx turns) turns (m.shift idx (turns * 8)) := by
        rw [Shifter.nonceTurns, List.range_succ, List.foldl_append]
        rfl
      rw [step, nonceByte_getElem? _ (by omega), ih (by omega)]
      by_cases here : i = 16 + turns
      · rw [if_pos here, if_neg (by omega), if_pos (by omega), here, Nat.add_sub_cancel_left]
      · rw [if_neg here]
        by_cases before : 16 ≤ i ∧ i < 16 + turns
        · rw [if_pos before, if_pos (by omega)]
        · rw [if_neg before, if_neg (by omega)]

theorem nonce_front (m : Shifter) (base : Region STORAGE_NONCE_LEN) (idx : UInt32) :
    (m.nonce base idx).load 0 16 = base.load 0 16 := by
  apply List.ext_getElem?
  intro i
  unfold Region.load Shifter.nonce
  rw [List.drop_zero, List.drop_zero, List.getElem?_take, List.getElem?_take]
  by_cases front : i < 16
  · rw [if_pos front, if_pos front, nonceTurns_getElem? m base idx (Nat.le_refl 8), if_neg (by omega)]
  · rw [if_neg front, if_neg front]

theorem shiftedByte_toNat (x : UInt32) {amount : Nat} (small : amount < 32) :
    (x >>> UInt32.ofNat amount).toUInt8.toNat = x.toNat / 2 ^ amount % 256 := by
  rw [UInt32.toNat_toUInt8, UInt32.toNat_shiftRight, UInt32.toNat_ofNat_of_lt' (Nat.lt_trans small (by decide)),
    Nat.mod_eq_of_lt small,
    Nat.shiftRight_eq_div_pow]

/-- The four bytes of an index make it up. -/
theorem index_of_bytes {x y : UInt32}
    (bytes : ∀ b < 4, (x >>> UInt32.ofNat (b * 8)).toUInt8 = (y >>> UInt32.ofNat (b * 8)).toUInt8) : x = y := by
  have values : ∀ b < 4, x.toNat / 2 ^ (b * 8) % 256 = y.toNat / 2 ^ (b * 8) % 256 := by
    intro b small
    have byte := congrArg UInt8.toNat (bytes b small)
    rwa [shiftedByte_toNat x (by omega), shiftedByte_toNat y (by omega)] at byte
  have first := values 0 (by decide)
  have second := values 1 (by decide)
  have third := values 2 (by decide)
  have fourth := values 3 (by decide)
  have xSize := x.toNat_lt
  have ySize := y.toNat_lt
  apply UInt32.toNat_inj.mp
  omega

/-- The first four turns leave different indices apart. -/
theorem nonce_injective (m : Shifter) (base : Region STORAGE_NONCE_LEN) {x y : UInt32}
    (same : m.nonce base x = m.nonce base y) : x = y := by
  apply index_of_bytes
  intro b small
  have byte := congrArg (fun r : Region STORAGE_NONCE_LEN => r.bytes[16 + b]?) same
  have size : base.bytes.length = 24 := base.size
  have present : base.bytes[16 + b]? = some (base.bytes.get ⟨16 + b, by omega⟩) := List.getElem?_eq_getElem _
  unfold Shifter.nonce at byte
  simp only [nonceTurns_getElem? m base _ (Nat.le_refl 8)] at byte
  rw [if_pos (by omega), if_pos (by omega), present, Nat.add_sub_cancel_left, Option.map_some, Option.map_some,
    Option.some.injEq, UInt8.xor_right_inj, m.defined _ _ (by omega), m.defined _ _ (by omega)] at byte
  exact byte

/-- A machine that shifts everything out. -/
def zeroShifter : Shifter where
  shift x amount := if amount < 32 then x >>> UInt32.ofNat amount else 0
  defined _ _ small := if_pos small

theorem zeroShifter_byte (x : UInt32) (amount : Nat) :
    (zeroShifter.shift x amount).toUInt8 = UInt8.ofNat (x.toNat >>> amount) := by
  have size := x.toNat_lt
  apply UInt8.toNat_inj.mp
  rw [zeroShifter, UInt8.toNat_ofNat', Nat.shiftRight_eq_div_pow]
  dsimp only
  by_cases small : amount < 32
  · rw [if_pos small, shiftedByte_toNat x small]
  · have large : 2 ^ 32 ≤ 2 ^ amount := Nat.pow_le_pow_right (by decide) (Nat.not_lt.mp small)
    rw [if_neg small, Nat.div_eq_of_lt (by omega)]
    rfl

/-- The store computes its nonces on such a machine. -/
theorem storageSectionNonce_eq (base : Region STORAGE_NONCE_LEN) (idx : UInt32) :
    storageSectionNonce base.bytes idx.toNat = (zeroShifter.nonce base idx).bytes := by
  have size : base.bytes.length = 24 := base.size
  have front : (base.bytes.take 16).length = 16 := by
    rw [List.length_take]
    omega
  apply List.ext_getElem?
  intro i
  unfold Shifter.nonce storageSectionNonce
  rw [nonceTurns_getElem? _ _ _ (Nat.le_refl 8)]
  change (base.bytes.take 16 ++ _)[i]? = _
  by_cases before : i < 16
  · rw [List.getElem?_append_left (by omega), List.getElem?_take_of_lt before, if_neg (by omega)]
  · rw [List.getElem?_append_right (by omega), front, List.getElem?_map]
    by_cases inside : i < 24
    · have present : base.bytes[i]? = some (base.bytes.get ⟨i, by omega⟩) := List.getElem?_eq_getElem _
      have place : STORAGE_NONCE_LEN - 8 + (i - 16) = i := by
        rw [STORAGE_NONCE_LEN]
        omega
      rw [List.getElem?_range (by omega), if_pos (by omega), present, Option.map_some, Option.map_some, place,
        List.getD_eq_getElem?_getD, present, zeroShifter_byte idx]
      rfl
    · rw [List.getElem?_eq_none (by rw [List.length_range]; omega), if_neg (by omega),
        List.getElem?_eq_none (by omega)]
      rfl

/-- What is asked of a section nonce. -/
structure SoundNonce (base : Region STORAGE_NONCE_LEN) (idx : UInt32) (nonce : Region STORAGE_NONCE_LEN) : Prop where
  defined : sectionNonce base idx = some nonce
  front : nonce.load 0 16 = base.load 0 16
  apart : ∀ other, sectionNonce base other = some nonce → other = idx

/-- No call has a meaning in C. On every machine the turns that do have one compute it, and the nonces
    keep the front of the base and are apart; the nonces of the store are those of such a machine. -/
theorem sectionNonce_unsound (base : Region STORAGE_NONCE_LEN) (idx : UInt32) :
    (¬ ∃ nonce, SoundNonce base idx nonce) ∧
    (∀ m : Shifter,
      (∀ turns out, sectionNonceTurns base idx turns = some out → m.nonceTurns base idx turns = out) ∧
      (m.nonce base idx).load 0 16 = base.load 0 16 ∧ ∀ other, m.nonce base other = m.nonce base idx → other = idx) ∧
    storageSectionNonce base.bytes idx.toNat = (zeroShifter.nonce base idx).bytes := by
  refine ⟨?_, fun m => ⟨fun _ _ => sectionNonceTurns_machine m, nonce_front m base idx, fun _ => nonce_injective m base⟩,
    storageSectionNonce_eq base idx⟩
  rintro ⟨nonce, sound⟩
  have defined : (sectionNonceTurns base idx 8).isSome := Option.isSome_of_eq_some sound.defined
  have few := (sectionNonceTurns_isSome base idx 8).mp defined
  omega

theorem sectionNonce_unsound_zero : ¬ ∀ base idx, ∃ nonce, SoundNonce base idx nonce := by
  intro all
  obtain ⟨nonce, sound⟩ := all (.fill _ 0) 0
  have undefined : sectionNonce (.fill _ 0) 0 = none := by decide
  have defined := sound.defined
  rw [undefined] at defined
  cases defined

end Roman
