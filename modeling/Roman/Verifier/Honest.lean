import Roman.Verifier.Group

/-! # The verifier accepts honest signatures

A signature made with the secret scalar of the public key is accepted, whatever the
scalars, the message and the hash function are.
-/

namespace Roman.Verifier

open CMem LittleEndian

/-- `_encode_point` prints the point that the coordinates are of. -/
theorem encodePoint_holds {p : Point} {g : Edwards.Point curve} (holds : p.toField.Holds g) :
    encodePoint p = encoding g.x g.y := by
  have x : (p.x : ZMod P) * (p.z : ZMod P)⁻¹ = g.x := (eq_mul_inv_iff_mul_eq₀ holds.z).mpr holds.x.symm |>.symm
  have y : (p.y : ZMod P) * (p.z : ZMod P)⁻¹ = g.y := (eq_mul_inv_iff_mul_eq₀ holds.z).mpr holds.y.symm |>.symm
  rw [encodePoint_eq, x, y]

/-- Decoding what was printed gives coordinates of the same point. -/
theorem decodePoint_holds {p : Point} {g : Edwards.Point curve} (holds : p.toField.Holds g) :
    ∃ q, decodePoint (encodePoint p) = .ok q ∧ q.toField.Holds g := by
  exact ⟨_, (congrArg decodePoint (encodePoint_holds holds)).trans (decodePoint_encoding g),
    affine_holds (cast_val g.x) (cast_val g.y)⟩

theorem encodePoint_length (p : Point) : (encodePoint p).length = 32 := toBytes_length 32 _

theorem mod_nsmul_base (n : Nat) : (n % L) • base = n • base := by
  conv_rhs => rw [← Nat.mod_add_div n L, add_nsmul, mul_nsmul, L_nsmul_base, nsmul_zero, add_zero]

/-- The public key of the secret scalar `a`. -/
def publicKey (a : Nat) : Bytes := encodePoint (mul B a)

/-- What a signer with the secret scalar `a` and the nonce `r` sends. -/
def honestSignature (sha512 : Bytes → Bytes) (a r : Nat) (m : Bytes) : Bytes :=
  let R := encodePoint (mul B r)
  let h := fromBytes (sha512 (R ++ publicKey a ++ m)) % L
  R ++ toBytes 32 ((r + h * a) % L)

/-- The equation of the group that the verifier tests. -/
theorem honest_equation (a r h : Nat) : ((r + h * a) % L) • base = r • base + h • a • base := by
  rw [mod_nsmul_base, add_nsmul, Nat.mul_comm h a, mul_nsmul]

theorem ed25519Verify_honest (sha512 : Bytes → Bytes) (a r : Nat) (m : Bytes) :
    ed25519Verify sha512 (publicKey a) m (honestSignature sha512 a r m) = .ok true := by
  have first : (encodePoint (mul B r)).length = 32 := encodePoint_length _
  obtain ⟨R, decodedR, holdsR⟩ := decodePoint_holds (mul_holds base_holds r)
  obtain ⟨A, decodedA, holdsA⟩ := decodePoint_holds (mul_holds base_holds a)
  let h := fromBytes (sha512 (encodePoint (mul B r) ++ publicKey a ++ m)) % L
  have bound : (r + h * a) % L < L := Nat.mod_lt _ (by norm_num [L])
  have scalar : fromBytes (toBytes 32 ((r + h * a) % L)) = (r + h * a) % L := by
    rw [fromBytes_toBytes, Nat.mod_eq_of_lt (bound.trans (by norm_num [L]))]
  have left := encodePoint_holds (mul_holds base_holds ((r + h * a) % L))
  have right := encodePoint_holds (add_holds holdsR (mul_holds holdsA h))
  rw [honest_equation] at left
  have length : (honestSignature sha512 a r m).length = 64 := by
    rw [honestSignature, List.length_append, first, toBytes_length]
  have front : (honestSignature sha512 a r m).take 32 = encodePoint (mul B r) := List.take_left' first
  have back : (honestSignature sha512 a r m).drop 32 = toBytes 32 ((r + h * a) % L) := List.drop_left' first
  unfold ed25519Verify
  dsimp only
  rw [if_neg (by omega), front, back, scalar, if_neg (by omega)]
  change (do
    let r' ← decodePoint (encodePoint (mul B r))
    let a' ← decodePoint (encodePoint (mul B a))
    return encodePoint (mul B ((r + h * a) % L)) == encodePoint (add r' (mul a' h))) = Except.ok true
  rw [decodedR, decodedA]
  change Except.ok (encodePoint (mul B ((r + h * a) % L)) == encodePoint (add R (mul A h))) = Except.ok true
  rw [left, right, beq_self_eq_true]

end Roman.Verifier
