import Mathlib.Algebra.Field.Basic
import Mathlib.Algebra.Group.Even
import Mathlib.Tactic.FieldSimp
import Mathlib.Tactic.LinearCombination
import Mathlib.Tactic.Ring

/-! # Twisted Edwards curves

The curve `-x² + y² = 1 + d x² y²` over a field in which `-1` is a square and `d` is
not. Its addition law has no exceptional points: no denominator vanishes, also when
a point is doubled or its opposite is added. The points form a commutative group,
and the law is one formula in extended coordinates.
-/

namespace Edwards

/-- The coefficients of a curve, with the facts that make its addition law complete. -/
structure Curve (F : Type*) [Field F] where
  d : F
  i : F
  sq_i : i ^ 2 = -1
  nonsquare : ¬ IsSquare d
  two_ne_zero : (2 : F) ≠ 0

variable {F : Type*} [Field F] {C : Curve F}

def Curve.On (C : Curve F) (x y : F) : Prop := -x ^ 2 + y ^ 2 = 1 + C.d * x ^ 2 * y ^ 2

theorem Curve.height_ne_zero (C : Curve F) (y : F) : C.d * y ^ 2 + 1 ≠ 0 := by
  intro zero
  have nonzero : y ≠ 0 := by
    rintro rfl
    simp at zero
  apply C.nonsquare
  use C.i / y
  rw [div_mul_div_comm, ← pow_two, ← pow_two, C.sq_i, eq_div_iff (pow_ne_zero 2 nonzero)]
  linear_combination zero

/-- The square of the first coordinate, from the second. -/
def Curve.xx (C : Curve F) (y : F) : F := (y ^ 2 - 1) / (C.d * y ^ 2 + 1)

theorem Curve.on_iff {x y : F} : C.On x y ↔ x ^ 2 = C.xx y := by
  rw [Curve.xx, eq_div_iff (C.height_ne_zero y), Curve.On]
  constructor <;> intro equation <;> linear_combination -equation

/-- What the addition law adds to and takes from 1 in its denominators. -/
def Curve.cross (C : Curve F) (x₁ y₁ x₂ y₂ : F) : F := C.d * x₁ * x₂ * y₁ * y₂

section Denominators

variable {x₁ y₁ x₂ y₂ : F}

/-- Were the product 1 or -1, the coefficient would be the square of a quotient. -/
theorem cross_square (one : C.On x₁ y₁) (two : C.On x₂ y₂) {s : F} (sign : s ^ 2 = 1)
    (unit : C.cross x₁ y₁ x₂ y₂ ^ 2 = 1) :
    (C.i * x₁ + s * C.cross x₁ y₁ x₂ y₂ * y₁) ^ 2 = C.d * (x₁ * y₁ * (C.i * x₂ + s * y₂)) ^ 2 := by
  have root := C.sq_i
  unfold Curve.On at one two
  unfold Curve.cross at unit ⊢
  linear_combination (x₁ ^ 2 - C.d * x₁ ^ 2 * y₁ ^ 2 * x₂ ^ 2) * root
    + (y₁ ^ 2 * (C.d * x₁ * x₂ * y₁ * y₂) ^ 2 - C.d * x₁ ^ 2 * y₁ ^ 2 * y₂ ^ 2) * sign + one
    - C.d * x₁ ^ 2 * y₁ ^ 2 * two + (y₁ ^ 2 - 1) * unit

theorem cross_sq_ne_one (one : C.On x₁ y₁) (two : C.On x₂ y₂) : C.cross x₁ y₁ x₂ y₂ ^ 2 ≠ 1 := by
  intro unit
  have nonzero : C.cross x₁ y₁ x₂ y₂ ≠ 0 := by
    intro zero
    simp [zero] at unit
  have parts : x₁ * y₁ ≠ 0 ∧ y₂ ≠ 0 := by
    constructor <;> intro zero <;> apply nonzero <;> unfold Curve.cross
    · linear_combination C.d * x₂ * y₂ * zero
    · linear_combination C.d * x₁ * x₂ * y₁ * zero
  have vanishes : ∀ {s : F}, s ^ 2 = 1 → C.i * x₂ + s * y₂ = 0 := by
    intro s sign
    by_contra other
    have denominator : x₁ * y₁ * (C.i * x₂ + s * y₂) ≠ 0 := mul_ne_zero parts.1 other
    apply C.nonsquare
    use (C.i * x₁ + s * C.cross x₁ y₁ x₂ y₂ * y₁) / (x₁ * y₁ * (C.i * x₂ + s * y₂))
    rw [← pow_two, div_pow, cross_square one two sign unit]
    exact (mul_div_cancel_right₀ _ (pow_ne_zero 2 denominator)).symm
  have plus : C.i * x₂ + 1 * y₂ = 0 := vanishes (one_pow 2)
  have minus : C.i * x₂ + -1 * y₂ = 0 := vanishes neg_one_sq
  have twice : 2 * y₂ = 0 := by linear_combination plus - minus
  exact (mul_ne_zero C.two_ne_zero parts.2) twice

theorem one_add_cross (one : C.On x₁ y₁) (two : C.On x₂ y₂) : 1 + C.cross x₁ y₁ x₂ y₂ ≠ 0 := by
  intro zero
  apply cross_sq_ne_one one two
  linear_combination (C.cross x₁ y₁ x₂ y₂ - 1) * zero

theorem one_sub_cross (one : C.On x₁ y₁) (two : C.On x₂ y₂) : 1 - C.cross x₁ y₁ x₂ y₂ ≠ 0 := by
  intro zero
  apply cross_sq_ne_one one two
  linear_combination -(C.cross x₁ y₁ x₂ y₂ + 1) * zero

end Denominators

/-- A point of the curve. -/
@[ext] structure Point (C : Curve F) where
  x : F
  y : F
  on : C.On x y

namespace Point

variable (p q r : Point C)

theorem differ : p.y ^ 2 - p.x ^ 2 = 1 + C.d * p.x ^ 2 * p.y ^ 2 := by
  have on := p.on
  unfold Curve.On at on
  linear_combination on

/-- `cross` of two points. -/
def cross : F := C.cross p.x p.y q.x q.y

theorem one_add_cross : 1 + p.cross q ≠ 0 := Edwards.one_add_cross p.on q.on

theorem one_sub_cross : 1 - p.cross q ≠ 0 := Edwards.one_sub_cross p.on q.on

def addX : F := p.x * q.y + q.x * p.y

def addY : F := p.y * q.y + p.x * q.x

/-- The sum is on the curve: with `1 + u` and `1 + v` for the two differences of
squares, the equation of the sum is an identity in `u` and `v`. -/
theorem add_on : C.On (p.addX q / (1 + p.cross q)) (p.addY q / (1 - p.cross q)) := by
  have plus := p.one_add_cross q
  have minus := p.one_sub_cross q
  have cleared : -(p.addX q * (1 - p.cross q)) ^ 2 + (p.addY q * (1 + p.cross q)) ^ 2 =
      ((1 + p.cross q) * (1 - p.cross q)) ^ 2 + C.d * p.addX q ^ 2 * p.addY q ^ 2 := by
    have split : -(p.addX q * (1 - p.cross q)) ^ 2 + (p.addY q * (1 + p.cross q)) ^ 2 -
        ((1 + p.cross q) * (1 - p.cross q)) ^ 2 - C.d * p.addX q ^ 2 * p.addY q ^ 2 =
        (p.y ^ 2 - p.x ^ 2) * (q.y ^ 2 - q.x ^ 2) * (1 + C.d * p.x ^ 2 * p.y ^ 2 * (C.d * q.x ^ 2 * q.y ^ 2)) -
          (1 - C.d * p.x ^ 2 * p.y ^ 2 * (C.d * q.x ^ 2 * q.y ^ 2)) ^ 2 -
          C.d * p.x ^ 2 * p.y ^ 2 * (q.y ^ 2 - q.x ^ 2) ^ 2 - C.d * q.x ^ 2 * q.y ^ 2 * (p.y ^ 2 - p.x ^ 2) ^ 2 := by
      simp only [addX, addY, cross, Curve.cross]
      ring
    rw [p.differ, q.differ] at split
    linear_combination split
  unfold Curve.On
  field_simp
  linear_combination cleared

instance : Add (Point C) := ⟨fun p q => ⟨p.addX q / (1 + p.cross q), p.addY q / (1 - p.cross q), p.add_on q⟩⟩

instance : Zero (Point C) := ⟨⟨0, 1, by simp [Curve.On]⟩⟩

instance : Neg (Point C) := ⟨fun p => ⟨-p.x, p.y, by simpa [Curve.On] using p.on⟩⟩

@[simp] theorem zero_x : (0 : Point C).x = 0 := rfl

@[simp] theorem zero_y : (0 : Point C).y = 1 := rfl

@[simp] theorem neg_x : (-p).x = -p.x := rfl

@[simp] theorem neg_y : (-p).y = p.y := rfl

theorem add_x : (p + q).x * (1 + p.cross q) = p.addX q := div_mul_cancel₀ _ (p.one_add_cross q)

theorem add_y : (p + q).y * (1 - p.cross q) = p.addY q := div_mul_cancel₀ _ (p.one_sub_cross q)

/-- The sum is known from its coordinates times the denominators. -/
theorem eq_add_of_mul {p q r : Point C} (x : r.x * (1 + p.cross q) = p.addX q)
    (y : r.y * (1 - p.cross q) = p.addY q) : r = p + q := by
  ext
  · exact mul_right_cancel₀ (p.one_add_cross q) (x.trans (p.add_x q).symm)
  · exact mul_right_cancel₀ (p.one_sub_cross q) (y.trans (p.add_y q).symm)

theorem add_comm : p + q = q + p := by
  apply eq_add_of_mul
  · have := p.add_x q
    simp only [addX, cross, Curve.cross] at this ⊢
    linear_combination this
  · have := p.add_y q
    simp only [addY, cross, Curve.cross] at this ⊢
    linear_combination this

theorem zero_add : 0 + p = p := by
  symm
  apply eq_add_of_mul <;> simp [addX, addY, cross, Curve.cross]

theorem neg_add_cancel : -p + p = 0 := by
  symm
  apply eq_add_of_mul
  · simp only [zero_x, addX, neg_x, neg_y]
    ring
  · simp only [zero_y, addY, cross, Curve.cross, neg_x, neg_y]
    linear_combination -p.differ

-- The two sums of three points, with the denominators cleared, differ by a combination of
-- the three equations. Every coefficient is a multiple of `d x y` of the point in the middle.

/-- The denominators of `p + q`, multiplied. -/
def scale : F := (1 + p.cross q) * (1 - p.cross q)

theorem scale_ne_zero : p.scale q ≠ 0 := mul_ne_zero (p.one_add_cross q) (p.one_sub_cross q)

theorem scale_cross : p.scale q * (p + q).cross r = C.d * p.addX q * p.addY q * r.x * r.y := by
  rw [← p.add_x q, ← p.add_y q]
  simp only [scale, cross, Curve.cross]
  ring

theorem scale_addX : p.scale q * (p + q).addX r =
    p.addX q * (1 - p.cross q) * r.y + r.x * (p.addY q * (1 + p.cross q)) := by
  rw [← p.add_x q, ← p.add_y q]
  simp only [scale, addX]
  ring

theorem scale_addY : p.scale q * (p + q).addY r =
    p.addY q * (1 + p.cross q) * r.y + p.addX q * (1 - p.cross q) * r.x := by
  rw [← p.add_x q, ← p.add_y q]
  simp only [scale, addY]
  ring

theorem cleared_x :
    (p.addX q * (1 - p.cross q) * r.y + r.x * (p.addY q * (1 + p.cross q))) *
        (r.scale q + C.d * r.addX q * r.addY q * p.x * p.y) =
      (r.addX q * (1 - r.cross q) * p.y + p.x * (r.addY q * (1 + r.cross q))) *
        (p.scale q + C.d * p.addX q * p.addY q * r.x * r.y) := by
  simp only [scale, addX, addY, cross, Curve.cross]
  linear_combination
    C.d * q.x * q.y * (C.d * q.x ^ 2 * q.y ^ 2 * r.x * r.y *
        (p.y * (q.x * r.y + q.y * r.x) - p.x * (q.x * r.x + q.y * r.y)) +
      r.x * r.y * (q.x ^ 3 * (p.y * r.y - p.x * r.x) + q.y ^ 3 * (p.x * r.y - p.y * r.x)) +
      q.x * q.y * (r.y * (r.y ^ 2 - 1) * (p.x * q.y + p.y * q.x) -
        r.x * (r.x ^ 2 + 1) * (p.x * q.x + p.y * q.y))) * p.differ +
    C.d * q.x * q.y * (r.x * r.y * (p.x * (p.x ^ 2 + 1) * (q.x * r.x + q.y * r.y) +
        p.y * (p.y ^ 2 - 1) * (q.x * r.y + q.y * r.x)) -
      p.x * p.y * (r.x * (r.x ^ 2 + 1) * (p.x * q.x + p.y * q.y) +
        r.y * (r.y ^ 2 - 1) * (p.x * q.y + p.y * q.x))) * q.differ +
    C.d * q.x * q.y * (q.x * q.y * (p.x * (p.x ^ 2 + 1) * (q.x * r.x + q.y * r.y) -
        p.y * (p.y ^ 2 - 1) * (q.x * r.y + q.y * r.x)) +
      p.x * p.y * (q.x ^ 3 * (p.x * r.x - p.y * r.y) + q.y ^ 3 * (p.x * r.y - p.y * r.x)) +
      C.d * p.x * p.y * q.x ^ 2 * q.y ^ 2 *
        (p.x * (q.x * r.x - q.y * r.y) + p.y * (q.y * r.x - q.x * r.y))) * r.differ

theorem cleared_y :
    (p.addY q * (1 + p.cross q) * r.y + p.addX q * (1 - p.cross q) * r.x) *
        (r.scale q - C.d * r.addX q * r.addY q * p.x * p.y) =
      (r.addY q * (1 + r.cross q) * p.y + r.addX q * (1 - r.cross q) * p.x) *
        (p.scale q - C.d * p.addX q * p.addY q * r.x * r.y) := by
  simp only [scale, addX, addY, cross, Curve.cross]
  linear_combination
    C.d * q.x * q.y * (C.d * q.x ^ 2 * q.y ^ 2 * r.x * r.y *
        (p.x * (q.x * r.y + q.y * r.x) - p.y * (q.x * r.x + q.y * r.y)) +
      r.x * r.y * (q.x ^ 3 * (p.x * r.y - p.y * r.x) + q.y ^ 3 * (p.y * r.y - p.x * r.x)) +
      q.x * q.y * (r.y * (r.y ^ 2 - 1) * (p.x * q.x + p.y * q.y) -
        r.x * (r.x ^ 2 + 1) * (p.x * q.y + p.y * q.x))) * p.differ +
    C.d * q.x * q.y * (p.x * p.y * (r.y * (r.y ^ 2 - 1) * (p.x * q.x + p.y * q.y) +
        r.x * (r.x ^ 2 + 1) * (p.x * q.y + p.y * q.x)) -
      r.x * r.y * (p.x * (p.x ^ 2 + 1) * (q.x * r.y + q.y * r.x) +
        p.y * (p.y ^ 2 - 1) * (q.x * r.x + q.y * r.y))) * q.differ +
    C.d * q.x * q.y * (q.x * q.y * (p.x * (p.x ^ 2 + 1) * (q.x * r.y + q.y * r.x) -
        p.y * (p.y ^ 2 - 1) * (q.x * r.x + q.y * r.y)) +
      p.x * p.y * (q.x ^ 3 * (p.x * r.y - p.y * r.x) + q.y ^ 3 * (p.x * r.x - p.y * r.y)) +
      C.d * p.x * p.y * q.x ^ 2 * q.y ^ 2 *
        (p.x * (q.x * r.y - q.y * r.x) + p.y * (q.y * r.y - q.x * r.x))) * r.differ

/-- `(p + q) + r` and `(r + q) + p` are one point. -/
theorem add_rotate : p + q + r = r + q + p := by
  apply eq_add_of_mul
  · apply mul_right_cancel₀ (mul_ne_zero (mul_ne_zero (p.scale_ne_zero q) (r.scale_ne_zero q))
      ((p + q).one_add_cross r))
    have sum := (p + q).add_x r
    have cleared := p.cleared_x q r
    rw [← scale_addX, ← scale_addX, ← scale_cross, ← scale_cross] at cleared
    linear_combination p.scale q * r.scale q * (1 + (r + q).cross p) * sum + cleared
  · apply mul_right_cancel₀ (mul_ne_zero (mul_ne_zero (p.scale_ne_zero q) (r.scale_ne_zero q))
      ((p + q).one_sub_cross r))
    have sum := (p + q).add_y r
    have cleared := p.cleared_y q r
    rw [← scale_addY, ← scale_addY, ← scale_cross, ← scale_cross] at cleared
    linear_combination p.scale q * r.scale q * (1 - (r + q).cross p) * sum + cleared

instance : AddCommGroup (Point C) where
  add_assoc p q r := by rw [add_rotate, add_comm, add_comm r q]
  zero_add := zero_add
  add_zero p := by rw [add_comm, zero_add]
  neg_add_cancel := neg_add_cancel
  add_comm := add_comm
  nsmul := nsmulRec
  zsmul := zsmulRec

end Point

/-- Four coordinates of a point `(x, y)`: `x z`, `y z`, `z` and `x y z`. -/
@[ext] structure Extended (F : Type*) where
  x : F
  y : F
  z : F
  t : F

namespace Extended

/-- The one formula for the sum, for the double and for the sum with the neutral point. -/
def add (C : Curve F) (e f : Extended F) : Extended F :=
  let a := (e.y - e.x) * (f.y - f.x)
  let b := (e.y + e.x) * (f.y + f.x)
  let c := 2 * e.t * f.t * C.d
  let d := 2 * e.z * f.z
  ⟨(b - a) * (d - c), (d + c) * (b + a), (d - c) * (d + c), (b - a) * (b + a)⟩

/-- These are coordinates of the point. -/
structure Holds (e : Extended F) (p : Point C) : Prop where
  z : e.z ≠ 0
  x : e.x = p.x * e.z
  y : e.y = p.y * e.z
  t : e.t = p.x * p.y * e.z

theorem Holds.unique {e : Extended F} {p q : Point C} (one : e.Holds p) (two : e.Holds q) : p = q := by
  ext
  · exact mul_right_cancel₀ one.z (one.x.symm.trans two.x)
  · exact mul_right_cancel₀ one.z (one.y.symm.trans two.y)

theorem holds_zero : (⟨0, 1, 1, 0⟩ : Extended F).Holds (0 : Point C) := by
  constructor <;> simp

theorem Holds.add {e f : Extended F} {p q : Point C} (one : e.Holds p) (two : f.Holds q) :
    (add C e f).Holds (p + q) := by
  have plus := p.one_add_cross q
  have minus := p.one_sub_cross q
  have double : 2 * (e.z * f.z) ≠ 0 := mul_ne_zero C.two_ne_zero (mul_ne_zero one.z two.z)
  have sum : Extended.add C e f =
      ⟨2 * (e.z * f.z) * p.addX q * (2 * (e.z * f.z) * (1 - p.cross q)),
        2 * (e.z * f.z) * (1 + p.cross q) * (2 * (e.z * f.z) * p.addY q),
        2 * (e.z * f.z) * (1 - p.cross q) * (2 * (e.z * f.z) * (1 + p.cross q)),
        2 * (e.z * f.z) * p.addX q * (2 * (e.z * f.z) * p.addY q)⟩ := by
    simp only [Extended.add, Point.addX, Point.addY, Point.cross, Curve.cross, one.x, one.y, one.t, two.x, two.y, two.t]
    ext <;> ring
  rw [sum]
  constructor
  · exact mul_ne_zero (mul_ne_zero double minus) (mul_ne_zero double plus)
  · simp only [← p.add_x q]
    ring
  · simp only [← p.add_y q]
    ring
  · simp only [← p.add_x q, ← p.add_y q]
    ring

end Extended

end Edwards
