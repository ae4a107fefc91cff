import Mathlib.GroupTheory.OrderOfElement
import Roman.Verifier.Honest

/-! # What the verifier accepts

The verifier accepts what satisfies the equation of the scheme in the group, and for one
first half of a signature it accepts one second half at most: the base point has the
prime order `L` and a scalar from `L` on is refused.
-/

namespace Roman.Verifier

open CMem LittleEndian PrimeField

/-- Small prime factors of the numbers of the certificate. -/
def smallFactors : List Nat :=
  [2, 3, 5, 7, 11, 23, 41, 43, 73, 269, 307, 1361, 2851, 5879, 30703, 82163, 132667, 137849, 409477, 531581, 1224481]

/-- The order and, before it, the large prime factors of what is tested later. -/
def orderCertificate : List Lucas := [
  ⟨14741173, 2, [2, 2, 3, 3, 409477]⟩,
  ⟨58964693, 2, [2, 2, 14741173]⟩,
  ⟨3044861653679985063343, 5, [2, 3, 11, 30703, 82163, 132667, 137849]⟩,
  ⟨198211423230930754013084525763697, 5, [2, 2, 2, 2, 3, 23, 58964693, 3044861653679985063343]⟩,
  ⟨292386187, 2, [2, 3, 3, 3, 3, 307, 5879]⟩,
  ⟨213441916511, 13, [2, 5, 73, 292386187]⟩,
  ⟨1257559732178653, 2, [2, 2, 3, 7, 23, 531581, 1224481]⟩,
  ⟨4434155615661930479, 17, [2, 41, 43, 1257559732178653]⟩,
  ⟨172054593956031949258510691, 2, [2, 5, 1361, 2851, 4434155615661930479]⟩,
  ⟨19757330305831588566944191468367130476339, 2, [2, 269, 213441916511, 172054593956031949258510691]⟩,
  ⟨276602624281642239937218680557139826668747, 2, [2, 7, 19757330305831588566944191468367130476339]⟩,
  ⟨L, 2, [2, 2, 3, 11, 198211423230930754013084525763697, 276602624281642239937218680557139826668747]⟩]

theorem smallFactors_prime : ∀ q ∈ smallFactors, q.Prime := by
  have all : smallFactors.Forall Nat.Prime := by norm_num [smallFactors]
  exact List.forall_iff_forall_mem.mp all

theorem prime_L : Nat.Prime L := by
  have passed : tests smallFactors orderCertificate = true := by decide +kernel
  exact primes_of_tests smallFactors_prime passed (orderCertificate.getLast (List.cons_ne_nil _ _)) (List.getLast_mem _)

theorem base_ne_zero : base ≠ 0 := by
  intro zero
  have height : base.y = 1 := by rw [zero, Edwards.Point.zero_y]
  have whole : ((BY : Int) : ZMod P) = ((1 : Int) : ZMod P) := height.trans Int.cast_one.symm
  rw [cast_eq_iff] at whole
  revert whole
  decide +kernel

theorem addOrderOf_base : addOrderOf base = L := by
  rcases (Nat.dvd_prime prime_L).mp (addOrderOf_dvd_of_nsmul_eq_zero L_nsmul_base) with one | whole
  · exact absurd (AddMonoid.addOrderOf_eq_one_iff.mp one) base_ne_zero
  · exact whole

/-- Scalars below the order are told apart by their points. -/
theorem nsmul_base_inj {s s' : Nat} (small : s < L) (small' : s' < L) (same : s • base = s' • base) : s = s' := by
  have congruent := nsmul_eq_nsmul_iff_modEq.mp same
  rw [addOrderOf_base] at congruent
  exact Nat.ModEq.eq_of_lt_of_lt congruent small small'

/-- A point has one encoding. -/
theorem encoding_inj {g k : Edwards.Point curve} (same : encoding g.x g.y = encoding k.x k.y) : g = k := by
  have first := decodePoint_encoding g
  rw [same, decodePoint_encoding k] at first
  have equal := Except.ok.inj first
  have one := affine_holds (x := g.x.val) (y := g.y.val) (g := g) (cast_val g.x) (cast_val g.y)
  have two := affine_holds (x := k.x.val) (y := k.y.val) (g := k) (cast_val k.x) (cast_val k.y)
  rw [equal] at two
  exact one.unique two

theorem encodePoint_inj {p q : Point} {g k : Edwards.Point curve} (one : p.toField.Holds g) (two : q.toField.Holds k) :
    encodePoint p = encodePoint q ↔ g = k := by
  rw [encodePoint_holds one, encodePoint_holds two]
  constructor
  · exact encoding_inj
  · rintro rfl
    rfl

/-- The scalar of the hash. -/
def hashScalar (sha512 : Bytes → Bytes) (R pk m : Bytes) : Nat := fromBytes (sha512 (R ++ pk ++ m)) % L

section
variable (sha512 : Bytes → Bytes) (pk m : Bytes) {R S : Bytes} (first : R.length = 32) (second : S.length = 32)
include first second

/-- The verifier, with the two halves of the signature apart. -/
theorem ed25519Verify_halves : ed25519Verify sha512 pk m (R ++ S) =
    if fromBytes S ≥ L then .ok false
    else do
      let r ← decodePoint R
      let a ← decodePoint pk
      return encodePoint (mul B (fromBytes S)) == encodePoint (add r (mul a (hashScalar sha512 R pk m))) := by
  have length : (R ++ S).length = 64 := by rw [List.length_append, first, second]
  have front : (R ++ S).take 32 = R := List.take_left' first
  have back : (R ++ S).drop 32 = S := List.drop_left' first
  unfold ed25519Verify
  dsimp only
  rw [if_neg (by omega), front, back]
  rfl

/-- What an accepted signature satisfies, also if the halves are no points of the curve. -/
theorem accepted_parts (accepted : ed25519Verify sha512 pk m (R ++ S) = .ok true) :
    fromBytes S < L ∧ ∃ r a, decodePoint R = .ok r ∧ decodePoint pk = .ok a ∧
      encodePoint (mul B (fromBytes S)) = encodePoint (add r (mul a (hashScalar sha512 R pk m))) := by
  rw [ed25519Verify_halves sha512 pk m first second] at accepted
  split at accepted
  · cases accepted
  · next small =>
      refine ⟨by omega, ?_⟩
      cases decodedR : decodePoint R with
      | error message =>
          rw [decodedR] at accepted
          cases accepted
      | ok r =>
          cases decodedA : decodePoint pk with
          | error message =>
              rw [decodedR, decodedA] at accepted
              cases accepted
          | ok a =>
              rw [decodedR, decodedA] at accepted
              exact ⟨r, a, rfl, rfl, eq_of_beq (Except.ok.inj accepted)⟩

end

/-- For points of the curve the verifier tests the equation of the group. -/
theorem ed25519Verify_points (sha512 : Bytes → Bytes) (A R : Edwards.Point curve) (m : Bytes) {s : Nat} (small : s < L) :
    ed25519Verify sha512 (encoding A.x A.y) m (encoding R.x R.y ++ toBytes 32 s) = .ok true ↔
      s • base = R + hashScalar sha512 (encoding R.x R.y) (encoding A.x A.y) m • A := by
  have scalar : fromBytes (toBytes 32 s) = s := by
    rw [fromBytes_toBytes, Nat.mod_eq_of_lt (small.trans (by norm_num [L]))]
  have left := mul_holds base_holds s
  have right := add_holds (affine_holds (cast_val R.x) (cast_val R.y))
    (mul_holds (affine_holds (cast_val A.x) (cast_val A.y)) (hashScalar sha512 (encoding R.x R.y) (encoding A.x A.y) m))
  rw [ed25519Verify_halves sha512 _ m (encoding_length _ _) (toBytes_length 32 s), scalar, if_neg (by omega),
    decodePoint_encoding, decodePoint_encoding]
  change Except.ok (_ == _) = Except.ok true ↔ _
  rw [Except.ok.injEq, beq_iff_eq, encodePoint_inj left right]

theorem accepted_length {sha512 : Bytes → Bytes} {pk m sig : Bytes} (accepted : ed25519Verify sha512 pk m sig = .ok true) :
    sig.length = 64 := by
  by_contra other
  rw [ed25519Verify, if_pos other] at accepted
  cases accepted

/-- For one first half the verifier accepts one second half at most. -/
theorem accepted_unique {sha512 : Bytes → Bytes} {pk m sig sig' : Bytes}
    (accepted : ed25519Verify sha512 pk m sig = .ok true) (accepted' : ed25519Verify sha512 pk m sig' = .ok true)
    (same : sig.take 32 = sig'.take 32) : sig = sig' := by
  have size := accepted_length accepted
  have size' := accepted_length accepted'
  rw [← List.take_append_drop 32 sig] at accepted ⊢
  rw [← List.take_append_drop 32 sig', ← same] at accepted' ⊢
  obtain ⟨small, r, a, decodedR, decodedA, equation⟩ := accepted_parts sha512 pk m (by rw [List.length_take]; omega)
    (by rw [List.length_drop]; omega) accepted
  obtain ⟨small', r', a', decodedR', decodedA', equation'⟩ := accepted_parts sha512 pk m (by rw [List.length_take]; omega)
    (by rw [List.length_drop]; omega) accepted'
  obtain rfl := Except.ok.inj (decodedR.symm.trans decodedR')
  obtain rfl := Except.ok.inj (decodedA.symm.trans decodedA')
  have points := (encodePoint_inj (mul_holds base_holds _) (mul_holds base_holds _)).mp (equation.trans equation'.symm)
  have scalars := nsmul_base_inj small small' points
  have halves : sig.drop 32 = sig'.drop 32 := by
    rw [← toBytes_fromBytes (sig.drop 32), ← toBytes_fromBytes (sig'.drop 32), scalars, List.length_drop, List.length_drop,
      size, size']
  rw [halves]

/-- A signature cannot be changed into another one of the message by its scalar. -/
theorem ed25519Verify_not_malleable (sha512 : Bytes → Bytes) (pk m : Bytes) {sig sig' : Bytes}
    (accepted : ed25519Verify sha512 pk m sig = .ok true) (same : sig'.take 32 = sig.take 32) (other : sig' ≠ sig) :
    ed25519Verify sha512 pk m sig' ≠ .ok true :=
  fun accepted' => other (accepted_unique accepted' accepted same)

/-- The signature of the scalar 1 under a hash of no bytes; 2 is refused, and so is 1 with the order added. -/
theorem ed25519Verify_not_malleable_base :
    ed25519Verify (fun _ => []) (encoding base.x base.y) [] (encoding base.x base.y ++ toBytes 32 2) ≠ .ok true ∧
      ed25519Verify (fun _ => []) (encoding base.x base.y) [] (encoding base.x base.y ++ toBytes 32 (1 + L)) ≠ .ok true := by
  have accepted : ed25519Verify (fun _ => []) (encoding base.x base.y) [] (encoding base.x base.y ++ toBytes 32 1) =
      .ok true := by
    apply (ed25519Verify_points _ base base [] (by norm_num [L])).mpr
    have zero : hashScalar (fun _ => []) (encoding base.x base.y) (encoding base.x base.y) [] = 0 := by decide
    rw [zero, zero_nsmul, add_zero, one_nsmul]
  have front : ∀ s, (encoding base.x base.y ++ toBytes 32 s).take 32 = encoding base.x base.y :=
    fun s => List.take_left' (encoding_length _ _)
  constructor <;> refine ed25519Verify_not_malleable _ _ [] accepted (by rw [front, front]) ?_
  · rw [ne_eq, List.append_cancel_left_eq]
    decide +kernel
  · rw [ne_eq, List.append_cancel_left_eq]
    decide +kernel

end Roman.Verifier
