import Roman.Verifier.Decoding

/-! # The verifier computes in the group of the curve

`_add` is the addition of the group and `_mul` the multiple of a point, for all
points and scalars, and the base point has the order `L`.
-/

namespace Roman.Verifier

open CMem LittleEndian PrimeField

/-- The coordinates as numbers of the field. -/
def Point.toField (p : Point) : Edwards.Extended (ZMod P) := ⟨p.x, p.y, p.z, p.t⟩

theorem toField_add (p q : Point) : (add p q).toField = .add curve p.toField q.toField := by
  simp only [add, Point.toField, Edwards.Extended.add, curve]
  ext <;> dsimp only <;> push_cast [cast_mod] <;> ring

theorem add_holds {p q : Point} {g k : Edwards.Point curve} (one : p.toField.Holds g) (two : q.toField.Holds k) :
    (add p q).toField.Holds (g + k) := by
  rw [toField_add]
  exact one.add two

theorem mul_holds {p : Point} {g : Edwards.Point curve} (holds : p.toField.Holds g) (n : Nat) :
    (mul p n).toField.Holds (n • g) := by
  fun_induction mul p n with
  | case1 =>
      rw [zero_nsmul]
      simpa [Point.toField] using Edwards.Extended.holds_zero (C := curve)
  | case2 n nonzero half doubled odd ih =>
      have parts : n = n >>> 1 + n >>> 1 + 1 := by
        rw [Nat.and_one_is_mod] at odd
        rw [Nat.shiftRight_one]
        omega
      conv in n • g => rw [parts, add_nsmul, add_nsmul, one_nsmul]
      exact add_holds (add_holds ih ih) holds
  | case3 n nonzero half doubled even ih =>
      have parts : n = n >>> 1 + n >>> 1 := by
        rw [Nat.and_one_is_mod] at even
        rw [Nat.shiftRight_one]
        omega
      conv in n • g => rw [parts, add_nsmul]
      exact add_holds ih ih

theorem on_of_mod {x y : Int} (equation : (-x ^ 2 + y ^ 2 - (1 + D * x ^ 2 * y ^ 2)) % P = 0) : curve.On x y := by
  have equal := (cast_eq_iff _ _).mpr equation
  push_cast at equal
  exact equal

theorem affine_holds {x y : Int} {g : Edwards.Point curve} (first : (x : ZMod P) = g.x)
    (second : (y : ZMod P) = g.y) : (Point.mk x y 1 (x * y % P)).toField.Holds g := by
  constructor <;> simp [Point.toField, first, second]

/-- `_B` on the curve. -/
noncomputable def base : Edwards.Point curve := ⟨recoverX BY, BY, on_of_mod (by decide +kernel)⟩

theorem base_holds : B.toField.Holds base := affine_holds rfl rfl

/-- `_mul` along the bits of the scalar. -/
def mulBits (point : Point) : Nat → Nat → Point
  | 0, _ => ⟨0, 1, 1, 0⟩
  | bits + 1, scalar =>
      if scalar = 0 then ⟨0, 1, 1, 0⟩
      else
        let half := mulBits point bits (scalar >>> 1)
        let doubled := add half half
        if scalar &&& 1 = 1 then add doubled point else doubled

theorem mulBits_eq (point : Point) {bits n : Nat} (size : n < 2 ^ bits) : mulBits point bits n = mul point n := by
  induction bits generalizing n with
  | zero =>
      obtain rfl : n = 0 := by simpa using size
      rw [mulBits, mul, if_pos rfl]
  | succ bits ih =>
      have half : n >>> 1 < 2 ^ bits := by
        rw [pow_succ] at size
        rw [Nat.shiftRight_one]
        omega
      conv_rhs => rw [mul]
      rw [mulBits, ih half]

/-- The base point has the order L. -/
theorem L_nsmul_base : L • base = 0 := by
  have multiple := mul_holds base_holds L
  rw [← mulBits_eq B (by norm_num [L] : L < 2 ^ 253)] at multiple
  have neutral : ((mulBits B 253 L).x - 0) % P = 0 ∧ ((mulBits B 253 L).y - (mulBits B 253 L).z) % P = 0 := by
    decide +kernel
  rw [← cast_eq_iff, ← cast_eq_iff] at neutral
  obtain ⟨x, y⟩ := neutral
  ext
  · apply mul_right_cancel₀ multiple.z
    rw [← multiple.x, Edwards.Point.zero_x, zero_mul]
    exact x.trans Int.cast_zero
  · apply mul_right_cancel₀ multiple.z
    rw [← multiple.y, Edwards.Point.zero_y, one_mul]
    exact y

end Roman.Verifier
