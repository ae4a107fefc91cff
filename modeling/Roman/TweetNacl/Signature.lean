import Roman.TweetNacl.Reduction
import Roman.Verifier.Equation

/-! # Signatures of crypto_sign

What `crypto_sign` computes with its limbs is the signature of the scheme, and the tool
accepts it exactly if the public half of the key belongs to the seed, but for messages
whose hash is a multiple of the order.
-/

namespace Roman.TweetNacl

open CMem LittleEndian Verifier

/-- The hash of the seed, with the bits of the scalar set. -/
def clampedHash (seed : Bytes) : Bytes :=
  let d := cryptoHash seed
  let d := d.set 0 (d.getD 0 0 &&& 248)
  d.set 31 ((d.getD 31 0 &&& 127) ||| 64)

/-- `crypto_sign_keypair`, from its 32 random bytes: the public and the secret key. -/
def cryptoSignKeypair (seed : Bytes) : Bytes × Bytes :=
  let d := clampedHash seed
  let pk := pack (scalarbase d)
  (pk, seed ++ pk)

/-- The secret scalar. -/
def secretScalar (seed : Bytes) : Nat := fromBytes (clampedHash seed) % 2 ^ 256

/-- The scalar of the first half of a signature. -/
def nonceScalar (seed m : Bytes) : Nat := fromBytes (cryptoHash ((clampedHash seed).drop 32 ++ m)) % L

theorem cryptoHash_length (m : Bytes) : (cryptoHash m).length = 64 := by
  unfold cryptoHash
  dsimp only
  rw [List.length_flatMap]
  rfl

theorem L_small : L < 2 ^ 256 := by norm_num [L]

theorem fromBytes_scalar (n : Nat) : fromBytes (toBytes 32 (n % L)) = n % L := by
  rw [fromBytes_toBytes, Nat.mod_eq_of_lt ((Nat.mod_lt _ (by norm_num [L])).trans (by norm_num [L]))]

theorem reduce_cryptoHash (m : Bytes) : reduce (cryptoHash m) = toBytes 32 (fromBytes (cryptoHash m) % L) :=
  reduce_eq (cryptoHash_length m)

theorem cryptoSignKeypair_eq (seed : Bytes) :
    cryptoSignKeypair seed = (publicKey (secretScalar seed), seed ++ publicKey (secretScalar seed)) := by
  unfold cryptoSignKeypair
  dsimp only
  rw [pack_scalarbase]
  rfl

/-- The two halves of a signature. -/
theorem signature_eq (m sk : Bytes) : signature m sk =
    publicKey (nonceScalar (sk.take 32) m) ++ toBytes 32 ((nonceScalar (sk.take 32) m +
      hashScalar cryptoHash (publicKey (nonceScalar (sk.take 32) m)) (sk.drop 32) m * secretScalar (sk.take 32)) % L) := by
  have small : ∀ n, n % L % 2 ^ 256 = n % L := fun n =>
    Nat.mod_eq_of_lt ((Nat.mod_lt _ (by norm_num [L])).trans L_small)
  have place : 256 ^ 32 = 2 ^ 256 := by norm_num
  have first : pack (scalarbase (reduce (cryptoHash ((clampedHash (sk.take 32)).drop 32 ++ m)))) =
      publicKey (nonceScalar (sk.take 32) m) := by
    rw [pack_scalarbase, reduce_cryptoHash, fromBytes_scalar, small]
    rfl
  rw [signature]
  change pack (scalarbase (reduce (cryptoHash ((clampedHash (sk.take 32)).drop 32 ++ m)))) ++
    modL (signScalar (reduce (cryptoHash ((clampedHash (sk.take 32)).drop 32 ++ m)))
      (reduce (cryptoHash (pack (scalarbase (reduce (cryptoHash ((clampedHash (sk.take 32)).drop 32 ++ m)))) ++
        sk.drop 32 ++ m))) (clampedHash (sk.take 32))) = _
  rw [first, modL_signScalar, reduce_cryptoHash, reduce_cryptoHash, fromBytes_scalar, fromBytes_scalar, place, small, small]
  rfl

/-- The public key is the encoding of a point. -/
theorem publicKey_eq (a : Nat) : publicKey a = encoding (a • base).x (a • base).y :=
  encodePoint_holds (mul_holds base_holds a)

/-- What `crypto_sign` computes with a key pair of `crypto_sign_keypair` is the signature of an honest signer that has
integers instead of limbs, with the scalars that are hashed from the seed. -/
theorem cryptoSign_honest (seed : Region 32) (m : Bytes) :
    (cryptoSignKeypair seed.bytes).1 = publicKey (secretScalar seed.bytes) ∧
      cryptoSign m (cryptoSignKeypair seed.bytes).2 =
        honestSignature cryptoHash (secretScalar seed.bytes) (nonceScalar seed.bytes m) m ++ m := by
  have front : (seed.bytes ++ publicKey (secretScalar seed.bytes)).take 32 = seed.bytes := List.take_left' seed.size
  have back : (seed.bytes ++ publicKey (secretScalar seed.bytes)).drop 32 = publicKey (secretScalar seed.bytes) :=
    List.drop_left' seed.size
  rw [cryptoSignKeypair_eq]
  refine ⟨rfl, ?_⟩
  rw [cryptoSign, signature_eq, front, back]
  rfl

end Roman.TweetNacl
