import Roman.Verifier.Curve

/-! # What the verifier decodes

The script takes a root of every number and does not look whether it is one. A
string that encodes no point of the curve, or one in a second way, is decoded like
the others; which strings are decoded to a point and give it back is said by their
bits alone.
-/

namespace Roman.Verifier

open CMem LittleEndian PrimeField

/-- The candidate, or the candidate times the root of `-1`. -/
def rootOf (xx : Int) : Int :=
  let x := pow xx ((P + 3) / 8) P
  if (x * x - xx) % P ≠ 0 then x * SQRT_M1 % P else x

/-- The even one of `x` and `P - x`. -/
def evenOf (x : Int) : Int := if x % 2 ≠ 0 then P - x else x

theorem recoverX_eq (y : Int) : recoverX y = evenOf (rootOf ((y * y - 1) * pow (D * y * y + 1) (P - 2) P)) := rfl

theorem P_odd : (P : Int) % 2 = 1 := by norm_num [P]

theorem reduced_rootOf (xx : Int) : Reduced (rootOf xx) := by
  unfold rootOf
  dsimp only
  split
  · exact reduced_mod _
  · exact reduced_pow _ _

theorem rootOf_sq {xx : Int} (square : IsSquare (xx : ZMod P)) : (rootOf xx : ZMod P) ^ 2 = xx := by
  have candidate : (pow xx ((P + 3) / 8) P : ZMod P) = (xx : ZMod P) ^ ((P + 3) / 8) := cast_pow _ _
  have root := root_of_square (by norm_num [P]) square
  rw [← candidate] at root
  unfold rootOf
  dsimp only
  split
  · next other =>
      rcases root with same | minus
      · exfalso
        apply other
        rw [← cast_eq_iff, Int.cast_mul, ← pow_two]
        exact same
      · rw [cast_mod, Int.cast_mul, mul_pow, minus, sq_sqrt_m1]
        ring
  · next same =>
      rw [not_not, ← cast_eq_iff, Int.cast_mul, ← pow_two] at same
      exact same

theorem evenOf_spec {x : Int} (reduced : Reduced x) : Reduced (evenOf x) ∧ evenOf x % 2 = 0 := by
  have odd := P_odd
  unfold Reduced at *
  unfold evenOf
  split <;> omega

theorem evenOf_sq (x : Int) : (evenOf x : ZMod P) ^ 2 = (x : ZMod P) ^ 2 := by
  unfold evenOf
  split
  · rw [Int.cast_sub, cast_P, zero_sub, neg_sq]
  · rfl

theorem recoverX_spec (y : Int) : Reduced (recoverX y) ∧ recoverX y % 2 = 0 :=
  evenOf_spec (reduced_rootOf _)

theorem recoverX_sq {y : Int} (square : IsSquare (curve.xx y)) : (recoverX y : ZMod P) ^ 2 = curve.xx y := by
  have xx : (((y * y - 1) * pow (D * y * y + 1) (P - 2) P : Int) : ZMod P) = curve.xx y := by
    rw [Int.cast_mul, cast_pow, pow_sub_two P_large]
    push_cast
    rw [Edwards.Curve.xx, div_eq_mul_inv, pow_two, ← mul_assoc]
    rfl
  rw [recoverX_eq, evenOf_sq, rootOf_sq (xx ▸ square), xx]

/-- The low 255 bits of an encoding. -/
def height (enc : Bytes) : Nat := fromBytes enc &&& ((1 <<< 255) - 1)

/-- The bit above them. -/
def signBit (enc : Bytes) : Nat := (enc.getD 31 0 >>> 7).toNat

/-- The bytes of the point `(x, y)`. -/
def encoding (x y : ZMod P) : Bytes := toBytes 32 (y.val + 2 ^ 255 * (x.val % 2))

theorem encoding_length (x y : ZMod P) : (encoding x y).length = 32 := toBytes_length 32 _

theorem height_eq (enc : Bytes) : height enc = fromBytes enc % 2 ^ 255 := by
  rw [height, Nat.one_shiftLeft, Nat.and_two_pow_sub_one_eq_mod]

theorem signBit_eq {enc : Bytes} (length : enc.length = 32) : signBit enc = fromBytes enc / 2 ^ 255 := by
  have inside : 31 < enc.length := by omega
  have last : enc.drop 31 = [enc[31]] := by
    rw [List.drop_eq_getElem_cons inside, List.drop_eq_nil_of_le (by omega)]
  have top := fromBytes_drop enc 31
  rw [last, fromBytes_cons] at top
  have byte : enc[31].toNat = fromBytes enc / 256 ^ 31 := by simpa [fromBytes] using top
  have bit : (enc[31] >>> 7).toNat = enc[31].toNat / 128 := by
    rw [UInt8.toNat_shiftRight]
    exact Nat.shiftRight_eq_div_pow _ 7
  have place : 256 ^ 31 * 128 = 2 ^ 255 := by norm_num
  rw [signBit, List.getD_eq_getElem?_getD, List.getElem?_eq_getElem inside, Option.getD_some, bit, byte,
    Nat.div_div_eq_div_mul, place]

theorem fromBytes_split {enc : Bytes} (length : enc.length = 32) :
    fromBytes enc = height enc + 2 ^ 255 * signBit enc := by
  rw [height_eq, signBit_eq length, Nat.mod_add_div]

theorem signBit_le {enc : Bytes} (length : enc.length = 32) : signBit enc ≤ 1 := by
  have small := fromBytes_lt enc
  rw [fromBytes_split length, length] at small
  omega

theorem P_small : P < 2 ^ 255 := by norm_num [P]

theorem fromBytes_encoding (x y : ZMod P) : fromBytes (encoding x y) = y.val + 2 ^ 255 * (x.val % 2) := by
  have small := y.val_lt.trans P_small
  have bit := Nat.mod_lt x.val (y := 2) (by omega)
  rw [encoding, fromBytes_toBytes, Nat.mod_eq_of_lt]
  omega

theorem height_encoding (x y : ZMod P) : height (encoding x y) = y.val := by
  rw [height_eq, fromBytes_encoding, Nat.add_mul_mod_self_left, Nat.mod_eq_of_lt (y.val_lt.trans P_small)]

theorem signBit_encoding (x y : ZMod P) : signBit (encoding x y) = x.val % 2 := by
  rw [signBit_eq (encoding_length x y), fromBytes_encoding, Nat.add_mul_div_left _ _ (by omega),
    Nat.div_eq_of_lt (y.val_lt.trans P_small), Nat.zero_add]

theorem encoding_of_parts {enc : Bytes} (length : enc.length = 32) {x y : ZMod P} (high : height enc = y.val)
    (bit : signBit enc = x.val % 2) : encoding x y = enc := by
  rw [encoding, ← high, ← bit, ← fromBytes_split length, ← length, toBytes_fromBytes]

/-- What `_encode_point` prints, from the quotients of the coordinates. -/
theorem encodePoint_eq (p : Point) :
    encodePoint p = encoding ((p.x : ZMod P) * (p.z : ZMod P)⁻¹) ((p.y : ZMod P) * (p.z : ZMod P)⁻¹) := by
  have quotient : ∀ a : Int, (a * pow p.z (P - 2) P % P).toNat = ((a : ZMod P) * (p.z : ZMod P)⁻¹).val := by
    intro a
    rw [(reduced_mod _).toNat, cast_mod, Int.cast_mul, cast_pow, pow_sub_two P_large]
  have packed : ∀ {y : Nat}, y < 2 ^ 255 → ∀ x : Nat,
      (y &&& ((1 <<< 255) - 1)) ||| ((x &&& 1) <<< 255) = y + 2 ^ 255 * (x % 2) := by
    intro y small x
    rw [Nat.one_shiftLeft, Nat.and_two_pow_sub_one_eq_mod, Nat.mod_eq_of_lt small, Nat.and_one_is_mod,
      Nat.shiftLeft_eq, Nat.mul_comm, Nat.or_comm, ← Nat.two_pow_add_eq_or_of_lt small, Nat.add_comm]
  unfold encodePoint encoding
  dsimp only
  rw [quotient, quotient, packed ((ZMod.val_lt _).trans P_small)]

/-- The one of `x` and `P - x` whose parity is the bit. -/
def signed (bit : Nat) (x : Int) : Int := if x % 2 ≠ bit then P - x else x

theorem decodePoint_eq {enc : Bytes} (length : enc.length = 32) : decodePoint enc =
    .ok ⟨signed (signBit enc) (recoverX (height enc)), height enc, 1,
      signed (signBit enc) (recoverX (height enc)) * height enc % P⟩ := by
  rw [decodePoint, if_neg (by omega)]
  rfl

/-- The right one of two roots. -/
theorem signed_root {x : Int} (spec : Reduced x ∧ x % 2 = 0) {w : ZMod P} (square : (x : ZMod P) ^ 2 = w ^ 2) :
    signed (w.val % 2) x = w.val := by
  obtain ⟨reduced, even⟩ := spec
  have whole : x = ((x : ZMod P).val : Int) := by
    rw [← reduced.toNat, Int.toNat_of_nonneg reduced.1]
  have odd := P_odd
  unfold signed
  rcases sq_eq_sq_iff_eq_or_eq_neg.mp square with same | minus
  · rw [same] at whole
    rw [if_neg (by omega), whole]
  · rw [minus, ZMod.neg_val] at whole
    split at whole
    · next zero => rw [zero, ZMod.val_zero, if_neg (by omega), whole]
    · next nonzero =>
        have positive : w.val ≠ 0 := fun zero => nonzero ((ZMod.val_eq_zero w).mp zero)
        have small := w.val_lt
        split <;> omega

/-- The script decodes the encoding of a point to that point. -/
theorem decodePoint_encoding (g : Edwards.Point curve) :
    decodePoint (encoding g.x g.y) = .ok ⟨g.x.val, g.y.val, 1, g.x.val * g.y.val % P⟩ := by
  have y : ((g.y.val : Nat) : ZMod P) = g.y := ZMod.natCast_zmod_val g.y
  have xx : g.x ^ 2 = curve.xx g.y := Edwards.Curve.on_iff.mp g.on
  have root : (recoverX (g.y.val : Nat) : ZMod P) ^ 2 = g.x ^ 2 := by
    rw [recoverX_sq] <;> rw [Int.cast_natCast, y, ← xx]
    exact ⟨g.x, pow_two g.x⟩
  rw [decodePoint_eq (encoding_length _ _), height_encoding, signBit_encoding, signed_root (recoverX_spec _) root]

/-- The string raises, or is decoded to a point of the curve of which it is the encoding. -/
def DecodesPoint (enc : Bytes) : Prop :=
  ∀ p, decodePoint enc = .ok p →
    Reduced p.x ∧ Reduced p.y ∧ p.z = 1 ∧ -p.x ^ 2 + p.y ^ 2 ≡ 1 + D * p.x ^ 2 * p.y ^ 2 [ZMOD P] ∧
      p.t ≡ p.x * p.y [ZMOD P] ∧ encodePoint p = enc

/-- The low bits are a number below the modulus that some point of the curve has for its
second coordinate, and 0 for the first coordinate has the sign 0. -/
structure Canonical (enc : Bytes) : Prop where
  small : height enc < P
  square : IsSquare (((height enc : ZMod P) ^ 2 - 1) / ((D : ZMod P) * (height enc : ZMod P) ^ 2 + 1))
  sign : (height enc : ZMod P) ^ 2 = 1 → signBit enc = 0

/-- A canonical string is the encoding of a point. -/
theorem Canonical.point {enc : Bytes} (length : enc.length = 32) (canonical : Canonical enc) :
    ∃ g : Edwards.Point curve, encoding g.x g.y = enc := by
  obtain ⟨w, root⟩ := canonical.square
  rw [← pow_two] at root
  have high : height enc = (height enc : ZMod P).val := (ZMod.val_cast_of_lt canonical.small).symm
  have low := signBit_le length
  have on : ∀ x : ZMod P, x ^ 2 = w ^ 2 → curve.On x (height enc) := by
    intro x same
    exact Edwards.Curve.on_iff.mpr (same.trans root.symm)
  by_cases even : signBit enc = w.val % 2
  · exact ⟨⟨w, height enc, on w rfl⟩, encoding_of_parts length high even⟩
  · have nonzero : w ≠ 0 := by
      rintro rfl
      have one : (height enc : ZMod P) ^ 2 = 1 := by
        have top := (div_eq_zero_iff.mp (root.trans (zero_pow two_ne_zero))).resolve_right
          (curve.height_ne_zero (height enc))
        exact sub_eq_zero.mp top
      rw [canonical.sign one, ZMod.val_zero] at even
      exact even rfl
    have other : signBit enc = (-w).val % 2 := by
      have odd := P_odd
      have small := w.val_lt
      rw [ZMod.neg_val, if_neg nonzero]
      omega
    exact ⟨⟨-w, height enc, on (-w) (neg_sq w)⟩, encoding_of_parts length high other⟩

theorem Canonical.of_decodes {enc : Bytes} (length : enc.length = 32) (decodes : DecodesPoint enc) :
    Canonical enc := by
  obtain ⟨reducedX, reducedY, _, equation, _⟩ := decodes _ (decodePoint_eq length)
  have on : curve.On (signed (signBit enc) (recoverX (height enc)) : ZMod P) (height enc) := by
    have equal := (ZMod.intCast_eq_intCast_iff _ _ P).mpr equation
    push_cast at equal
    exact equal
  have square := Edwards.Curve.on_iff.mp on
  constructor
  · exact Int.ofNat_lt.mp reducedY.2
  · exact ⟨_, square.symm.trans (pow_two _)⟩
  · intro one
    have xx : curve.xx ((height enc : Int) : ZMod P) = 0 := by
      rw [Int.cast_natCast, Edwards.Curve.xx, one, sub_self, zero_div]
    have root := recoverX_sq (xx ▸ ⟨0, by simp⟩ : IsSquare (curve.xx ((height enc : Int) : ZMod P)))
    rw [xx] at root
    have zero : recoverX (height enc) = 0 := by
      rw [← Int.toNat_of_nonneg (recoverX_spec _).1.1, (recoverX_spec _).1.toNat, pow_eq_zero_iff two_ne_zero |>.mp root,
        ZMod.val_zero, Nat.cast_zero]
    change Reduced (signed (signBit enc) (recoverX (height enc))) at reducedX
    rw [zero, signed, Reduced] at reducedX
    have low := signBit_le length
    split at reducedX <;> omega

/-- Exactly the canonical strings are decoded to points; one of another length raises. -/
theorem decodesPoint_iff (enc : Bytes) : DecodesPoint enc ↔ (enc.length = 32 → Canonical enc) := by
  constructor
  · exact fun decodes length => .of_decodes length decodes
  · intro canonical p decoded
    have length : enc.length = 32 := by
      by_contra other
      rw [decodePoint, if_pos other] at decoded
      cases decoded
    obtain ⟨g, rfl⟩ := (canonical length).point length
    rw [decodePoint_encoding] at decoded
    cases decoded
    have reduced : ∀ x : ZMod P, Reduced x.val := fun x => ⟨Int.natCast_nonneg _, Int.ofNat_lt.mpr x.val_lt⟩
    refine ⟨reduced g.x, reduced g.y, rfl, ?_, Int.mod_modEq _ _, ?_⟩
    · apply (ZMod.intCast_eq_intCast_iff _ _ P).mp
      push_cast
      simpa [curve, Edwards.Curve.On] using g.on
    · rw [encodePoint_eq, cast_val, cast_val, Int.cast_one, inv_one, mul_one, mul_one]

/-- The number 2, which no point of the curve has for its second coordinate. -/
def offCurve : Bytes := 2 :: List.replicate 31 0

theorem decodesPoint_offCurve : ¬ DecodesPoint offCurve := by
  intro decodes
  have equation := (decodes _ (decodePoint_eq rfl)).2.2.2.1
  exact absurd equation (by decide +kernel)

end Roman.Verifier
