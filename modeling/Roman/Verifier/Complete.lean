import Roman.Verifier.Group

/-! # The verifier's arithmetic has no exceptional cases

A quadruple is valid when it stands for a point of the curve. The one formula for the
sum gives a valid quadruple for all valid ones, also for a double, for opposites and
for the neutral point, and so do the multiples.
-/

namespace Roman.Verifier

noncomputable section

/-- `X / Z` -/
def affineX (p : Point) : ZMod P := (p.x : ZMod P) / p.z

/-- `Y / Z` -/
def affineY (p : Point) : ZMod P := (p.y : ZMod P) / p.z

end

/-- Extended coordinates of a point of the curve. -/
structure Valid (p : Point) : Prop where
  z : ¬ p.z ≡ 0 [ZMOD P]
  t : p.x * p.y ≡ p.z * p.t [ZMOD P]
  on : -affineX p ^ 2 + affineY p ^ 2 = 1 + D * affineX p ^ 2 * affineY p ^ 2

/-- The affine coordinates of `r` are the twisted Edwards sum of those of `p` and `q`. -/
structure IsSum (p q r : Point) : Prop where
  plus : 1 + D * affineX p * affineX q * affineY p * affineY q ≠ 0
  minus : 1 - D * affineX p * affineX q * affineY p * affineY q ≠ 0
  x : affineX r = (affineX p * affineY q + affineX q * affineY p) /
    (1 + D * affineX p * affineX q * affineY p * affineY q)
  y : affineY r = (affineY p * affineY q + affineX p * affineX q) /
    (1 - D * affineX p * affineX q * affineY p * affineY q)

theorem affine_of_holds {p : Point} {g : Edwards.Point curve} (holds : p.toField.Holds g) :
    affineX p = g.x ∧ affineY p = g.y :=
  ⟨(div_eq_iff holds.z).mpr holds.x, (div_eq_iff holds.z).mpr holds.y⟩

/-- The valid quadruples are the coordinates of the points. -/
theorem valid_iff (p : Point) : Valid p ↔ ∃ g : Edwards.Point curve, p.toField.Holds g := by
  constructor
  · intro valid
    have z : (p.z : ZMod P) ≠ 0 := by
      intro zero
      apply valid.z
      apply (ZMod.intCast_eq_intCast_iff _ _ P).mp
      rw [zero, Int.cast_zero]
    have t : (p.x : ZMod P) * p.y = p.z * p.t := by
      exact_mod_cast (ZMod.intCast_eq_intCast_iff _ _ P).mpr valid.t
    have x : (p.x : ZMod P) = affineX p * p.z := (div_mul_cancel₀ _ z).symm
    have y : (p.y : ZMod P) = affineY p * p.z := (div_mul_cancel₀ _ z).symm
    refine ⟨⟨affineX p, affineY p, valid.on⟩, z, x, y, ?_⟩
    apply mul_left_cancel₀ z
    change (p.z : ZMod P) * p.t = p.z * (affineX p * affineY p * p.z)
    rw [← t, x, y]
    ring
  · rintro ⟨g, holds⟩
    obtain ⟨x, y⟩ := affine_of_holds holds
    constructor
    · intro zero
      exact holds.z (((ZMod.intCast_eq_intCast_iff _ _ P).mpr zero).trans Int.cast_zero)
    · apply (ZMod.intCast_eq_intCast_iff _ _ P).mp
      have product : (p.x : ZMod P) * p.y = p.z * p.t := by
        change p.toField.x * p.toField.y = p.toField.z * p.toField.t
        rw [holds.x, holds.y, holds.t]
        ring
      exact_mod_cast product
    · rw [x, y]
      exact g.on

theorem isSum_of_holds {p q r : Point} {g k : Edwards.Point curve} (one : p.toField.Holds g)
    (two : q.toField.Holds k) (sum : r.toField.Holds (g + k)) : IsSum p q r := by
  obtain ⟨xp, yp⟩ := affine_of_holds one
  obtain ⟨xq, yq⟩ := affine_of_holds two
  obtain ⟨xr, yr⟩ := affine_of_holds sum
  constructor <;> rw [xp, yp, xq, yq]
  · exact g.one_add_cross k
  · exact g.one_sub_cross k
  · rw [xr]
    exact (eq_div_iff (g.one_add_cross k)).mpr (g.add_x k)
  · rw [yr]
    exact (eq_div_iff (g.one_sub_cross k)).mpr (g.add_y k)

/-- Sums of valid quadruples are valid and are the sums of the points; multiples are valid. -/
theorem arithmetic_complete {p q : Point} (one : Valid p) (two : Valid q) :
    Valid (add p q) ∧ IsSum p q (add p q) ∧ ∀ s : Nat, Valid (mul p s) := by
  obtain ⟨g, first⟩ := (valid_iff p).mp one
  obtain ⟨k, second⟩ := (valid_iff q).mp two
  have sum := add_holds first second
  exact ⟨(valid_iff _).mpr ⟨_, sum⟩, isSum_of_holds first second sum,
    fun s => (valid_iff _).mpr ⟨_, mul_holds first s⟩⟩

/-- The point on the other side of the second axis. -/
def opposite (p : Point) : Point := ⟨-p.x, p.y, p.z, -p.t⟩

theorem opposite_holds {p : Point} {g : Edwards.Point curve} (holds : p.toField.Holds g) :
    (opposite p).toField.Holds (-g) := by
  have x : (p.x : ZMod P) = g.x * p.z := holds.x
  have t : (p.t : ZMod P) = g.x * g.y * p.z := holds.t
  constructor
  · exact holds.z
  · simp [Point.toField, opposite, x]
  · exact holds.y
  · simp [Point.toField, opposite, t]

/-- The base point and its opposite, the pair that the law of another curve treats apart. -/
theorem arithmetic_complete_opposite :
    Valid (add B (opposite B)) ∧ IsSum B (opposite B) (add B (opposite B)) ∧ ∀ s : Nat, Valid (mul B s) :=
  arithmetic_complete ((valid_iff B).mpr ⟨base, base_holds⟩)
    ((valid_iff (opposite B)).mpr ⟨-base, opposite_holds base_holds⟩)

end Roman.Verifier
