import Roman.TweetNacl.Packing
import Roman.TweetNacl.Sign
import Roman.Verifier.Honest

/-! # Points in tweetnacl.c

The points are four field elements in extended coordinates. `add` computes in the group
of the curve, `scalarmult` multiples of a point, and `pack` prints a point as the
verifier's `_encode_point` does.
-/

namespace Roman.TweetNacl

open CMem LittleEndian Limbs Loops Words Verifier

/-- The limbs of an array stand for what they add up to. -/
theorem represents_limbs {a : Gf} {most : Int} (size : a.size = 16)
    (bounds : ∀ j < 16, -most ≤ a[j]!.toInt ∧ a[j]!.toInt ≤ most) :
    Represents a most (value 65536 (fun j => a[j]!.toInt) 16 : Int) :=
  ⟨_, ⟨size, fun _ _ => (Int64.ofInt_toInt _).symm⟩, bounds, rfl⟩

/-- The limbs are reduced, and stand for this number. -/
theorem represents_constant {a : Gf} (v : Int) (size : a.size = 16)
    (bounds : ∀ j < 16, 0 ≤ a[j]!.toInt ∧ a[j]!.toInt ≤ 65535)
    (same : (value 65536 (fun j => a[j]!.toInt) 16 - v) % P = 0) : Represents a 65573 v := by
  rw [← (cast_eq_iff _ _).mpr same]
  refine (represents_limbs size fun j inside => ?_).mono (Int.le_refl _)
  have := bounds j inside
  omega

theorem gf0_represents : Represents gf0 65573 0 := by
  have := represents_constant (a := gf0) 0 rfl (by decide +kernel) (by decide +kernel)
  rwa [Int.cast_zero] at this

theorem gf1_represents : Represents gf1 65573 1 := by
  have := represents_constant (a := gf1) 1 rfl (by decide +kernel) (by decide +kernel)
  rwa [Int.cast_one] at this

theorem gfD2_represents : Represents gfD2 65573 (2 * D : Int) :=
  represents_constant (2 * D) rfl (by decide +kernel) (by decide +kernel)

theorem gfX_represents : Represents gfX 65573 (recoverX BY : Int) :=
  represents_constant (recoverX BY) rfl (by decide +kernel) (by decide +kernel)

theorem gfY_represents : Represents gfY 65573 (BY : Int) :=
  represents_constant BY rfl (by decide +kernel) (by decide +kernel)

/-- The four elements are coordinates of the point. A negated one may be twice as large as a product. -/
def Coordinates (p : Point) (g : Edwards.Point curve) : Prop :=
  ∃ e : Edwards.Extended (ZMod P), Represents p.1 131146 e.x ∧ Represents p.2.1 131146 e.y ∧
    Represents p.2.2.1 131146 e.z ∧ Represents p.2.2.2 131146 e.t ∧ e.Holds g

theorem edAdd_coordinates {p q : Point} {g k : Edwards.Point curve} (one : Coordinates p g) (two : Coordinates q k) :
    Coordinates (edAdd p q) (g + k) := by
  obtain ⟨p0, p1, p2, p3⟩ := p
  obtain ⟨q0, q1, q2, q3⟩ := q
  obtain ⟨e, x, y, z, t, holds⟩ := one
  obtain ⟨e', x', y', z', t', holds'⟩ := two
  dsimp only at x y z t x' y' z' t'
  have a := (y.sub x).mul (y'.sub x') (by norm_num)
  have b := (x.add y).mul (x'.add y') (by norm_num)
  have c := (t.mul t' (by norm_num)).mul gfD2_represents (by norm_num)
  have d := (z.mul z' (by norm_num)).add (z.mul z' (by norm_num))
  have first := (b.sub a).mul (d.sub c) (by norm_num)
  have second := (b.add a).mul (d.add c) (by norm_num)
  have third := (d.add c).mul (d.sub c) (by norm_num)
  have fourth := (b.sub a).mul (b.add a) (by norm_num)
  have sum := holds.add holds'
  simp only [Edwards.Extended.add, curve] at sum
  push_cast at first second third fourth
  have size : (65573 : Int) ≤ 131146 := by norm_num
  refine ⟨_, (first.congr ?_).mono size, (second.congr ?_).mono size, (third.congr ?_).mono size,
    (fourth.congr ?_).mono size, sum⟩ <;> ring

theorem neutral_coordinates : Coordinates (gf0, gf1, gf1, gf0) (0 : Edwards.Point curve) :=
  ⟨⟨0, 1, 1, 0⟩, gf0_represents.mono (by norm_num), gf1_represents.mono (by norm_num), gf1_represents.mono (by norm_num),
    gf0_represents.mono (by norm_num), Edwards.Extended.holds_zero⟩

theorem base_coordinates : Coordinates (gfX, gfY, gf1, gfM gfX gfY) base := by
  refine ⟨⟨(recoverX BY : Int), (BY : Int), 1, (recoverX BY : Int) * (BY : Int)⟩, gfX_represents.mono (by norm_num),
    gfY_represents.mono (by norm_num), gf1_represents.mono (by norm_num),
    (gfX_represents.mul gfY_represents (by norm_num)).mono (by norm_num), ?_⟩
  constructor <;> simp [base]

theorem Represents.size {a : Gf} {n : Int} {x : ZMod P} (represents : Represents a n x) : a.size = 16 := by
  obtain ⟨f, holds, -⟩ := represents
  exact holds.size

theorem cswap_zero (p q : Point) : cswap p q 0 = (p, q) := by
  unfold cswap
  simp only [sel25519_zero]

theorem cswap_one {p q : Point} {g k : Edwards.Point curve} (one : Coordinates p g) (two : Coordinates q k) :
    cswap p q 1 = (q, p) := by
  obtain ⟨p0, p1, p2, p3⟩ := p
  obtain ⟨q0, q1, q2, q3⟩ := q
  obtain ⟨e, x, y, z, t, -⟩ := one
  obtain ⟨e', x', y', z', t', -⟩ := two
  unfold cswap
  simp only [sel25519_one x.size x'.size, sel25519_one y.size y'.size, sel25519_one z.size z'.size,
    sel25519_one t.size t'.size]

/-- One turn of `scalarmult`, for the multiples `n` and `n + 1` of the point. -/
theorem ladder_turn {p q : Point} {g : Edwards.Point curve} {n : Nat} (one : Coordinates p (n • g))
    (two : Coordinates q ((n + 1) • g)) {b : Nat} (bit : b < 2) :
    let s := cswap p q (word b)
    let s := cswap (edAdd s.1 s.1) (edAdd s.2 s.1) (word b)
    Coordinates s.1 ((2 * n + b) • g) ∧ Coordinates s.2 ((2 * n + b + 1) • g) := by
  have sum : (n + 1) • g + n • g = (2 * n + 1) • g := by
    rw [← add_nsmul]
    congr 1
    omega
  have bits : b = 0 ∨ b = 1 := by omega
  rcases bits with rfl | rfl
  · have zero : word ((0 : Nat) : Int) = 0 := rfl
    have double : n • g + n • g = (2 * n) • g := by rw [two_mul, add_nsmul]
    simp only [zero, cswap_zero]
    exact ⟨double ▸ edAdd_coordinates one one, sum ▸ edAdd_coordinates two one⟩
  · have unit : word ((1 : Nat) : Int) = 1 := rfl
    have double : (n + 1) • g + (n + 1) • g = (2 * n + 1 + 1) • g := by
      rw [← add_nsmul]
      congr 1
      omega
    rw [add_comm] at sum
    have first := edAdd_coordinates one two
    have second := edAdd_coordinates two two
    simp only [unit, cswap_one one two, cswap_one second first]
    exact ⟨sum ▸ first, double ▸ second⟩

/-- The bits above bit `i` and that bit. -/
theorem shift_bit (n i : Nat) : n / 2 ^ i = 2 * (n / 2 ^ (i + 1)) + n / 2 ^ i % 2 := by
  rw [pow_succ, ← Nat.div_div_eq_div_mul]
  omega

theorem scalarmult_coordinates {q : Point} {g : Edwards.Point curve} (holds : Coordinates q g) (s : Bytes) :
    Coordinates (scalarmult q s) ((fromBytes s % 2 ^ 256) • g) := by
  have whole : fromBytes s % 2 ^ 256 = fromBytes s % 2 ^ 256 / 2 ^ (256 - 256) := by simp
  have start : fromBytes s % 2 ^ 256 / 2 ^ (256 - 0) = 0 := Nat.div_eq_of_lt (Nat.mod_lt _ (by positivity))
  rw [whole]
  unfold scalarmult
  simp only [Id.run_bind, Id.run_pure]
  refine (forIn_range (fun k (s' : Point × Point) =>
    Coordinates s'.1 ((fromBytes s % 2 ^ 256 / 2 ^ (256 - k)) • g) ∧
      Coordinates s'.2 ((fromBytes s % 2 ^ 256 / 2 ^ (256 - k) + 1) • g)) (Nat.zero_le 256) ?_ ?_).1
  · rw [start, zero_nsmul, zero_add, one_nsmul]
    exact ⟨neutral_coordinates, holds⟩
  · rintro k ⟨p, q⟩ _ inside ⟨one, two⟩
    have place : 256 - k = 255 - k + 1 := by omega
    have next : 256 - (k + 1) = 255 - k := by omega
    have bit := fromBytes_bit s (255 - k)
    have low : fromBytes s % 2 ^ 256 / 2 ^ (255 - k) % 2 = fromBytes s / 2 ^ (255 - k) % 2 := by
      have split : 2 ^ 256 = 2 ^ (255 - k) * (2 * 2 ^ k) := by
        rw [← pow_succ', ← pow_add]
        congr 1
        omega
      rw [split, Nat.mod_mul_right_div_self, Nat.mod_mul_right_mod]
    rw [place] at one two
    have turn := ladder_turn one two (Nat.mod_lt (fromBytes s % 2 ^ 256 / 2 ^ (255 - k)) (Nat.zero_lt_two))
    rw [← shift_bit] at turn
    refine .yield ?_
    rw [word_byte, bit, ← low, next]
    exact turn

/-- The multiple of the base point. -/
theorem scalarbase_coordinates (s : Bytes) : Coordinates (scalarbase s) ((fromBytes s % 2 ^ 256) • base) :=
  scalarmult_coordinates base_coordinates s

/-- The sign bit over the last byte. -/
theorem top_byte : ∀ t < 128, ∀ b < 2, UInt8.ofNat t ^^^ (UInt8.ofNat b <<< 7) = UInt8.ofNat (t + b * 128) := by
  decide +kernel

theorem par25519_eq {a : Gf} {n : Int} {x : ZMod P} (represents : Represents a n x) (small : n ≤ 2 ^ 60) :
    par25519 a = UInt8.ofNat (x.val % 2) := by
  unfold par25519
  rw [pack25519_eq represents small]
  apply UInt8.toNat.inj
  change (x.val % 256) &&& 1 = x.val % 2 % 256
  rw [Nat.and_one_is_mod]
  omega

theorem pack_eq {p : Point} {g : Edwards.Point curve} (holds : Coordinates p g) : pack p = encoding g.x g.y := by
  obtain ⟨p0, p1, p2, p3⟩ := p
  obtain ⟨e, x, y, z, -, point⟩ := holds
  have quotient : ∀ v : ZMod P, v * e.z * e.z⁻¹ = v := fun v => mul_inv_cancel_right₀ point.z v
  have tx := (x.mul z.inverse (by norm_num)).congr (by rw [point.x, quotient])
  have ty := (y.mul z.inverse (by norm_num)).congr (by rw [point.y, quotient])
  have small := g.y.val_lt.trans P_small
  have bit := Nat.mod_lt g.x.val (y := 2) Nat.zero_lt_two
  generalize parity : g.x.val % 2 = b at bit
  have top : g.y.val / 256 ^ 31 < 128 := by omega
  have above : (g.y.val + b * 128 * 256 ^ 31) / 256 ^ 31 = g.y.val / 256 ^ 31 + b * 128 :=
    Nat.add_mul_div_right _ _ (by norm_num)
  have place : 2 ^ 255 * b = b * 128 * 256 ^ 31 := by ring
  unfold pack encoding
  dsimp only
  rw [pack25519_eq ty (by norm_num), par25519_eq tx (by norm_num), parity, place, toBytes_succ 31,
    toBytes_succ 31, toBytes_add_mul, above, ← top_byte _ top _ bit]
  generalize front : toBytes 31 g.y.val = s
  have length : s.length = 31 := by rw [← front, toBytes_length]
  rw [List.set_append_right _ _ (by omega), List.getD_eq_getElem?_getD, List.getElem?_append_right (by omega), length]
  rfl

/-- The firmware prints the point that the verifier prints. -/
theorem pack_scalarbase (s : Bytes) : pack (scalarbase s) = encodePoint (mul B (fromBytes s % 2 ^ 256)) := by
  rw [pack_eq (scalarbase_coordinates s), encodePoint_holds (mul_holds base_holds _)]

end Roman.TweetNacl
