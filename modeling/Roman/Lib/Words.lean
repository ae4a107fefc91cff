import Mathlib.Algebra.Order.Ring.Int
import Mathlib.Data.Int.Cast.Basic
import Mathlib.Logic.Function.Basic
import Mathlib.Tactic.Linarith
import Mathlib.Tactic.Positivity
import Mathlib.Tactic.Zify
import Roman.Lib.Arrays

/-! # Integers in 64-bit words

Sums, differences, products, left shifts and masks of words are those of the integers
that they are the words of, also where these wrap around. Only a shift to the right and
the integer that a word is read as need one that fits.
-/

namespace Words

open Arrays

/-- The 64-bit word of an integer. -/
abbrev word (v : Int) : Int64 := Int64.ofInt v

/-- The integer is one of 64 bits. -/
def Signed (v : Int) : Prop := -2 ^ 63 ≤ v ∧ v < 2 ^ 63

theorem toInt_word {v : Int} (signed : Signed v) : (word v).toInt = v :=
  Int64.toInt_ofInt_of_le signed.1 signed.2

theorem toBitVec_word (v : Int) : (word v).toBitVec = BitVec.ofInt 64 v := rfl

theorem word_add (v w : Int) : word v + word w = word (v + w) := (Int64.ofInt_add v w).symm

theorem word_sub (v w : Int) : word v - word w = word (v - w) := (Int64.ofInt_sub v w).symm

theorem word_mul (v w : Int) : word v * word w = word (v * w) := (Int64.ofInt_mul v w).symm

/-- A shift to the right divides and rounds down. -/
theorem word_shiftRight {v : Int} (signed : Signed v) {amount : Int64} {k : Nat}
    (shift : (amount.toBitVec.smod 64).toNat = k) : word v >>> amount = word (v / 2 ^ k) := by
  have one : (1 : Int) ≤ 2 ^ k := one_le_pow₀ (by norm_num)
  have fits : Signed (v / 2 ^ k) := by
    have positive : (0 : Int) < 2 ^ k := by positivity
    constructor
    · rw [Int.le_ediv_iff_mul_le positive]
      nlinarith [signed.1]
    · rw [Int.ediv_lt_iff_lt_mul positive]
      nlinarith [signed.2]
  apply Int64.toInt_inj.mp
  rw [toInt_word fits, Int64.toInt, Int64.toBitVec_shiftRight, BitVec.sshiftRight_eq', shift,
    BitVec.toInt_sshiftRight, Int.shiftRight_eq_div_pow, ← Int64.toInt, toInt_word signed, Nat.cast_pow, Nat.cast_ofNat]

theorem word_shiftLeft (v : Int) {amount : Int64} {k : Nat} (shift : (amount.toBitVec.smod 64).toNat = k) :
    word v <<< amount = word (v * 2 ^ k) := by
  have power : BitVec.twoPow 64 k = BitVec.ofInt 64 (2 ^ k) := by
    apply BitVec.eq_of_toNat_eq
    rw [BitVec.toNat_twoPow, BitVec.toNat_ofInt]
    zify
    rw [Int.toNat_of_nonneg (Int.emod_nonneg _ (by norm_num))]
  apply Int64.toBitVec.inj
  rw [Int64.toBitVec_shiftLeft, BitVec.shiftLeft_eq', shift, toBitVec_word, toBitVec_word,
    BitVec.shiftLeft_eq_mul_twoPow, BitVec.ofInt_mul, power]

/-- A mask of low bits is a remainder. -/
theorem word_and (v : Int) {mask : Int64} {k : Nat} (ones : mask.toBitVec = BitVec.ofNat 64 (2 ^ k - 1))
    (small : k ≤ 64) : word v &&& mask = word (v % 2 ^ k) := by
  have fits : 2 ^ k - 1 < 2 ^ 64 := (Nat.sub_one_lt (by positivity)).trans_le (Nat.pow_le_pow_right (by omega) small)
  have divides : (2 ^ k : Int) ∣ 2 ^ 64 := pow_dvd_pow 2 small
  have low : v % 2 ^ k % 2 ^ 64 = v % 2 ^ k := by
    have nonneg : 0 ≤ v % 2 ^ k := Int.emod_nonneg _ (by positivity)
    have less : v % 2 ^ k < 2 ^ k := Int.emod_lt_of_pos _ (by positivity)
    have bound : (2 ^ k : Int) ≤ 2 ^ 64 := Int.le_of_dvd (by norm_num) divides
    exact Int.emod_eq_of_lt nonneg (less.trans_le bound)
  apply Int64.toBitVec.inj
  apply BitVec.eq_of_toNat_eq
  rw [Int64.toBitVec_and, ones, toBitVec_word, toBitVec_word, BitVec.toNat_and, BitVec.toNat_ofNat,
    Nat.mod_eq_of_lt fits, Nat.and_two_pow_sub_one_eq_mod, BitVec.toNat_ofInt, BitVec.toNat_ofInt]
  zify
  rw [Int.toNat_of_nonneg (Int.emod_nonneg _ (by norm_num)), Int.toNat_of_nonneg (Int.emod_nonneg _ (by norm_num)), low]
  exact Int.emod_emod_of_dvd v divides

/-- A byte as a word. -/
theorem word_byte (b : UInt8) : b.toUInt64.toInt64 = word b.toNat := by
  apply Int64.toBitVec.inj
  apply BitVec.eq_of_toNat_eq
  have small := b.toNat_lt
  rw [toBitVec_word, BitVec.toNat_ofInt]
  change b.toNat = _
  omega

/-- The low byte of a word. -/
theorem toUInt8_word (v : Nat) : (word v).toUInt64.toUInt8 = UInt8.ofNat v := by
  apply UInt8.toNat.inj
  change ((word v).toBitVec.toNat % 2 ^ 8) = v % 2 ^ 8
  rw [toBitVec_word, BitVec.toNat_ofInt]
  omega

/-- The array has `n` limbs, the words of these integers. -/
abbrev Limbed (a : Array Int64) (n : Nat) (f : Nat → Int) : Prop := Entries a n fun i => word (f i)

namespace Limbed

variable {a c : Array Int64} {n : Nat} {f g : Nat → Int}

theorem limb (holds : Limbed a n f) : ∀ i < n, a[i]! = word (f i) := holds.entry

theorem congr (holds : Limbed a n f) (same : ∀ i < n, f i = g i) : Limbed a n g :=
  Entries.congr holds fun i inside => by rw [same i inside]

theorem set (holds : Limbed a n f) {i : Nat} (inside : i < n) {x : Int64} {v : Int} (eq : x = word v) :
    Limbed (a.set! i x) n (Function.update f i v) :=
  (Entries.set holds inside eq).congr fun j _ => (Function.apply_update (fun _ => word) f i v j).symm

theorem replicate (n : Nat) : Limbed (Array.replicate n 0) n fun _ => 0 := Entries.replicate n 0

theorem extract (holds : Limbed a n f) {m : Nat} (part : m ≤ n) : Limbed (a.extract 0 m) m f :=
  Entries.extract holds part

/-- A word by word operation. -/
theorem zipWith (one : Limbed a n f) (two : Limbed c n g) {op : Int64 → Int64 → Int64} {opInt : Int → Int → Int}
    (hom : ∀ v w, op (word v) (word w) = word (opInt v w)) :
    Limbed (Array.zipWith op a c) n fun i => opInt (f i) (g i) := by
  have size : (Array.zipWith op a c).size = n := by
    rw [Array.size_zipWith, one.size, two.size, Nat.min_self]
  constructor
  · exact size
  · intro i inside
    have first := one.limb i inside
    have second := two.limb i inside
    rw [getElem!_pos _ i (by rw [one.size]; exact inside)] at first
    rw [getElem!_pos _ i (by rw [two.size]; exact inside)] at second
    rw [getElem!_pos _ i (by rw [size]; exact inside), Array.getElem_zipWith, first, second, hom]

end Limbed

/-- The 32-bit word of an integer. -/
abbrev word32 (v : Int) : UInt32 := ⟨BitVec.ofInt 32 v⟩

theorem toNat_word32 (v : Int) : ((word32 v).toNat : Int) = v % 2 ^ 32 := by
  change ((BitVec.ofInt 32 v).toNat : Int) = v % 2 ^ 32
  rw [BitVec.toNat_ofInt]
  exact Int.toNat_of_nonneg (Int.emod_nonneg _ (by norm_num))

/-- The integer is one of 32 bits, without a sign. -/
def Unsigned (v : Int) : Prop := 0 ≤ v ∧ v < 2 ^ 32

theorem Unsigned.toNat_word32 {v : Int} (unsigned : Unsigned v) : ((word32 v).toNat : Int) = v := by
  rw [Words.toNat_word32, Int.emod_eq_of_lt unsigned.1 unsigned.2]

theorem word32_add (v w : Int) : word32 v + word32 w = word32 (v + w) :=
  congrArg UInt32.ofBitVec (BitVec.ofInt_add v w).symm

theorem word32_mul (v w : Int) : word32 v * word32 w = word32 (v * w) :=
  congrArg UInt32.ofBitVec (BitVec.ofInt_mul v w).symm

theorem word32_shiftRight {v : Int} (unsigned : Unsigned v) {amount : UInt32} {k : Nat}
    (shift : amount.toNat % 32 = k) : word32 v >>> amount = word32 (v / 2 ^ k) := by
  have positive : (0 : Int) < 2 ^ k := by positivity
  have fits : Unsigned (v / 2 ^ k) :=
    ⟨Int.ediv_nonneg unsigned.1 positive.le, (Int.ediv_le_self _ unsigned.1).trans_lt unsigned.2⟩
  apply UInt32.toNat.inj
  rw [UInt32.toNat_shiftRight, shift, Nat.shiftRight_eq_div_pow]
  zify
  rw [fits.toNat_word32, unsigned.toNat_word32]

theorem word32_and (v : Int) {mask : UInt32} {k : Nat} (ones : mask.toNat = 2 ^ k - 1) (small : k ≤ 32) :
    word32 v &&& mask = word32 (v % 2 ^ k) := by
  have divides : (2 ^ k : Int) ∣ 2 ^ 32 := pow_dvd_pow 2 small
  have bound : (2 ^ k : Int) ≤ 2 ^ 32 := Int.le_of_dvd (by norm_num) divides
  have fits : Unsigned (v % 2 ^ k) :=
    ⟨Int.emod_nonneg _ (by positivity), (Int.emod_lt_of_pos _ (by positivity)).trans_le bound⟩
  apply UInt32.toNat.inj
  rw [UInt32.toNat_and, ones, Nat.and_two_pow_sub_one_eq_mod]
  zify
  rw [fits.toNat_word32, toNat_word32, Int.emod_emod_of_dvd v divides]

theorem word32_byte (b : UInt8) : b.toUInt32 = word32 b.toNat := by
  have small := b.toNat_lt
  apply UInt32.toNat.inj
  rw [UInt8.toNat_toUInt32]
  zify
  rw [Unsigned.toNat_word32 ⟨by positivity, by omega⟩]

end Words
