import Mathlib.Data.Nat.Digits.Defs
import Mathlib.Tactic.IntervalCases
import Roman.Lib.Region

/-! # Numbers as little-endian bytes -/

namespace LittleEndian

open CMem

def fromBytes (s : Bytes) : Nat := Nat.ofDigits 256 (s.map UInt8.toNat)

/-- The low `n` bytes of a number. -/
def toBytes : Nat → Nat → Bytes
  | 0, _ => []
  | n + 1, v => UInt8.ofNat v :: toBytes n (v / 256)

@[simp] theorem fromBytes_cons (b : UInt8) (s : Bytes) : fromBytes (b :: s) = b.toNat + 256 * fromBytes s :=
  Nat.ofDigits_cons

@[simp] theorem toBytes_length (n v : Nat) : (toBytes n v).length = n := by
  induction n generalizing v with
  | zero => rfl
  | succ n ih => rw [toBytes, List.length_cons, ih]

theorem fromBytes_append (s t : Bytes) : fromBytes (s ++ t) = fromBytes s + 256 ^ s.length * fromBytes t := by
  rw [fromBytes, List.map_append, Nat.ofDigits_append, List.length_map]
  rfl

theorem digits_lt (s : Bytes) : ∀ v ∈ s.map UInt8.toNat, v < 256 := by
  intro v member
  obtain ⟨b, _, rfl⟩ := List.mem_map.mp member
  exact b.toNat_lt

theorem fromBytes_lt (s : Bytes) : fromBytes s < 256 ^ s.length := by
  simpa [fromBytes] using Nat.ofDigits_lt_base_pow_length (by omega) (digits_lt s)

theorem fromBytes_toBytes (n v : Nat) : fromBytes (toBytes n v) = v % 256 ^ n := by
  induction n generalizing v with
  | zero => simp [toBytes, fromBytes, Nat.mod_one]
  | succ n ih =>
      have low : (UInt8.ofNat v).toNat = v % 256 := rfl
      rw [toBytes, fromBytes_cons, ih, low, pow_succ', Nat.mod_mul]

theorem toBytes_fromBytes (s : Bytes) : toBytes s.length (fromBytes s) = s := by
  induction s with
  | nil => rfl
  | cons b s ih =>
      have small := b.toNat_lt
      have rest : (b.toNat + 256 * fromBytes s) / 256 = fromBytes s := by omega
      have low : UInt8.ofNat (b.toNat + 256 * fromBytes s) = b := by
        apply UInt8.toNat.inj
        change (b.toNat + 256 * fromBytes s) % 256 = b.toNat
        omega
      rw [List.length_cons, fromBytes_cons, toBytes, rest, ih, low]

/-- Dropping bytes divides. -/
theorem fromBytes_drop (s : Bytes) (i : Nat) : fromBytes (s.drop i) = fromBytes s / 256 ^ i := by
  rw [fromBytes, List.map_drop, fromBytes, Nat.ofDigits_div_pow_eq_ofDigits_drop i (by omega) _ (digits_lt s)]

theorem fromBytes_take (s : Bytes) (i : Nat) : fromBytes (s.take i) = fromBytes s % 256 ^ i := by
  by_cases inside : i ≤ s.length
  · have size : (s.take i).length = i := List.length_take_of_le inside
    have small := fromBytes_lt (s.take i)
    rw [size] at small
    conv_rhs => rw [← List.take_append_drop i s, fromBytes_append, size, Nat.add_mul_mod_self_left, Nat.mod_eq_of_lt small]
  · have below := Nat.pow_le_pow_right (by omega : 0 < 256) (Nat.le_of_not_le inside)
    rw [List.take_of_length_le (Nat.le_of_not_le inside), Nat.mod_eq_of_lt (Nat.lt_of_lt_of_le (fromBytes_lt s) below)]

theorem fromBytes_getD (s : Bytes) (i : Nat) : (s.getD i 0).toNat = fromBytes s / 256 ^ i % 256 := by
  rw [← fromBytes_drop]
  by_cases inside : i < s.length
  · have small := s[i].toNat_lt
    rw [List.drop_eq_getElem_cons inside, fromBytes_cons, List.getD_eq_getElem?_getD, List.getElem?_eq_getElem inside,
      Option.getD_some]
    omega
  · rw [List.getD_eq_getElem?_getD, List.getElem?_eq_none (by omega), List.drop_eq_nil_of_le (by omega)]
    rfl

/-- A mask, byte by byte. -/
theorem fromBytes_and {s t : Bytes} (size : s.length = t.length) :
    fromBytes (List.zipWith (· &&& ·) s t) = fromBytes s &&& fromBytes t := by
  induction s generalizing t with
  | nil => rw [List.zipWith_nil_left, fromBytes, List.map_nil, Nat.ofDigits_nil, Nat.zero_and]
  | cons b s ih =>
      cases t with
      | nil => cases size
      | cons c t =>
          have low : ∀ (x : UInt8) (v : Nat), (x.toNat + 256 * v) % 2 ^ 8 = x.toNat ∧ (x.toNat + 256 * v) / 2 ^ 8 = v :=
            fun x v => by
              have small := x.toNat_lt
              omega
          rw [List.zipWith_cons_cons, fromBytes_cons, fromBytes_cons, fromBytes_cons, ih (Nat.succ.inj size), UInt8.toNat_and]
          have parts := Nat.mod_add_div ((b.toNat + 256 * fromBytes s) &&& (c.toNat + 256 * fromBytes t)) (2 ^ 8)
          rwa [Nat.and_mod_two_pow, Nat.and_div_two_pow, (low b _).1, (low c _).1, (low b _).2, (low c _).2] at parts

/-- One bit. -/
theorem fromBytes_bit (s : Bytes) (i : Nat) :
    ((s.getD (i / 8) 0 >>> UInt8.ofNat (i % 8)) &&& 1).toNat = fromBytes s / 2 ^ i % 2 := by
  have place : 2 ^ i = 256 ^ (i / 8) * 2 ^ (i % 8) := by
    rw [show 256 = 2 ^ 8 from rfl, ← pow_mul, ← pow_add, Nat.div_add_mod]
  have shift : (UInt8.ofNat (i % 8)).toNat % 8 = i % 8 := by
    rw [UInt8.toNat_ofNat']
    omega
  rw [UInt8.toNat_and, UInt8.toNat_shiftRight, shift, fromBytes_getD, Nat.shiftRight_eq_div_pow, place,
    ← Nat.div_div_eq_div_mul]
  generalize fromBytes s / 256 ^ (i / 8) = v
  have small : i % 8 < 8 := Nat.mod_lt _ (by omega)
  generalize i % 8 = j at small ⊢
  change v % 256 / 2 ^ j &&& 1 = _
  rw [Nat.and_one_is_mod]
  interval_cases j <;> omega

/-- The last byte of a number. -/
theorem toBytes_succ (n v : Nat) : toBytes (n + 1) v = toBytes n v ++ [UInt8.ofNat (v / 256 ^ n)] := by
  induction n generalizing v with
  | zero => simp [toBytes]
  | succ n ih =>
      rw [toBytes, ih, toBytes, List.cons_append, Nat.div_div_eq_div_mul, pow_succ']

/-- The bytes of a number, by their places. -/
theorem toBytes_map (n v : Nat) : toBytes n v = (List.range n).map fun i => UInt8.ofNat (v / 256 ^ i) := by
  induction n with
  | zero => rfl
  | succ n ih => rw [toBytes_succ, ih, List.range_succ, List.map_append, List.map_singleton]

/-- What is above the bytes does not matter. -/
theorem toBytes_add_mul (n v w : Nat) : toBytes n (v + w * 256 ^ n) = toBytes n v := by
  induction n generalizing v with
  | zero => rfl
  | succ n ih =>
      have low : UInt8.ofNat (v + w * 256 ^ (n + 1)) = UInt8.ofNat v := by
        apply UInt8.toNat.inj
        change (v + w * 256 ^ (n + 1)) % 256 = v % 256
        rw [pow_succ, ← mul_assoc, Nat.add_mul_mod_self_right]
      have rest : (v + w * 256 ^ (n + 1)) / 256 = v / 256 + w * 256 ^ n := by
        rw [pow_succ, ← mul_assoc, Nat.add_mul_div_right _ _ (by norm_num)]
      rw [toBytes, low, rest, ih, toBytes]

/-- The low bytes and the others. -/
theorem toBytes_add (n k v : Nat) : toBytes (n + k) v = toBytes n v ++ toBytes k (v / 256 ^ n) := by
  induction n generalizing v with
  | zero => rw [Nat.zero_add, pow_zero, Nat.div_one, toBytes, List.nil_append]
  | succ n ih =>
      rw [Nat.add_right_comm, toBytes, ih, toBytes, List.cons_append, Nat.div_div_eq_div_mul, pow_succ']

theorem toBytes_mod (n v : Nat) : toBytes n (v % 256 ^ n) = toBytes n v := by
  conv_rhs => rw [← Nat.mod_add_div v (256 ^ n), Nat.mul_comm, toBytes_add_mul]

/-- The bytes of a number, two by two. -/
theorem toBytes_pairs (n v : Nat) : toBytes (2 * n) v =
    (List.range n).flatMap fun i => [UInt8.ofNat (v / 65536 ^ i), UInt8.ofNat (v / 65536 ^ i / 256)] := by
  induction n generalizing v with
  | zero => rfl
  | succ n ih =>
      have rest : v / 256 / 256 = v / 65536 := Nat.div_div_eq_div_mul v 256 256
      rw [Nat.mul_succ, toBytes, toBytes, rest, ih, List.range_succ_eq_map, List.flatMap_cons, List.flatMap_map]
      simp only [pow_zero, Nat.div_one, pow_succ', Nat.div_div_eq_div_mul, List.cons_append, List.nil_append]

end LittleEndian
