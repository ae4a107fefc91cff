import Roman.Lib.SealedBox
import Roman.TweetNacl.Onetimeauth
import Roman.TweetNacl.Stream

/-! # crypto_secretbox makes sealed boxes

The zero bytes before a message are where the key of the authenticator comes out, and
those before a box are nothing but room.
-/

namespace Roman.TweetNacl

open CMem Poly1305 Salsa20 SealedBox

variable (n : Region 24) (k : Region 32)

/-- The stream over 32 bytes of anything and a message. -/
theorem cryptoStreamXor_append {s : Bytes} (m : Bytes) (size : s.length = 32) :
    cryptoStreamXor (s ++ m) n.bytes k.bytes =
      (s.mapIdx fun i b => b ^^^ xsalsa20 k.bytes n.bytes i) ++ crypt n.bytes k.bytes m := by
  have later : ∀ i, i + 32 = 32 + i := fun i => Nat.add_comm i 32
  rw [cryptoStreamXor_eq, List.mapIdx_append, size, crypt]
  simp only [later]

theorem zeros_stream : (List.replicate 32 (0 : UInt8)).mapIdx (fun i b => b ^^^ xsalsa20 k.bytes n.bytes i) =
    oneTimeKey n.bytes k.bytes := by
  rw [← cryptoStreamXor_eq]
  exact cryptoStream_eq 32 n k

/-- The key of the authenticator, with its size. -/
def authKey : Region 32 := ⟨oneTimeKey n.bytes k.bytes, by rw [oneTimeKey, List.length_map, List.length_range]⟩

theorem cryptoOnetimeauth_key (c : Bytes) :
    cryptoOnetimeauth c (oneTimeKey n.bytes k.bytes) = poly1305 c (oneTimeKey n.bytes k.bytes) :=
  cryptoOnetimeauth_eq c (authKey n k)

/-- `crypto_secretbox` seals. -/
theorem cryptoSecretbox_sealed (m : Bytes) :
    cryptoSecretbox (List.replicate 32 0 ++ m) n.bytes k.bytes = some (List.replicate 16 0 ++ sealBox n.bytes k.bytes m) := by
  have size : (oneTimeKey n.bytes k.bytes).length = 32 := (authKey n k).size
  have long : ¬(List.replicate 32 (0 : UInt8) ++ m).length < 32 := by
    rw [List.length_append, List.length_replicate]
    omega
  rw [cryptoSecretbox, if_neg long, cryptoStreamXor_append n k m List.length_replicate, zeros_stream]
  dsimp only
  rw [List.take_left' size, List.drop_left' size, cryptoOnetimeauth_key, sealBox, List.append_assoc]

/-- `crypto_secretbox_open` opens what is sealed, and nothing else. -/
theorem cryptoSecretboxOpen_opened (box : Bytes) :
    cryptoSecretboxOpen (List.replicate 16 0 ++ box) n.bytes k.bytes =
      (openBox n.bytes k.bytes box).map (List.replicate 32 0 ++ ·) := by
  have whole : (List.replicate 16 (0 : UInt8) ++ box).length = 16 + box.length := by
    rw [List.length_append, List.length_replicate]
  have front : (List.replicate 16 (0 : UInt8) ++ box).drop 16 = box := List.drop_left' List.length_replicate
  have rest : (List.replicate 16 (0 : UInt8) ++ box).drop 32 = box.drop 16 := by
    rw [← List.drop_drop (i := 16), front]
  by_cases short : box.length < 16
  · have tag : box.take 16 ≠ poly1305 (box.drop 16) (oneTimeKey n.bytes k.bytes) := fun same => by
      have size := congrArg List.length same
      rw [poly1305_length, List.length_take] at size
      omega
    rw [cryptoSecretboxOpen, if_pos (by omega), openBox, if_neg tag]
    rfl
  · have size : (List.replicate 16 (0 : UInt8) ++ box.take 16).length = 32 := by
      rw [List.length_append, List.length_replicate, List.length_take]
      omega
    have parts : List.replicate 16 (0 : UInt8) ++ box = (List.replicate 16 (0 : UInt8) ++ box.take 16) ++ box.drop 16 := by
      rw [List.append_assoc, List.take_append_drop]
    have body : (cryptoStreamXor (List.replicate 16 (0 : UInt8) ++ box) n.bytes k.bytes).drop 32 =
        crypt n.bytes k.bytes (box.drop 16) := by
      rw [parts, cryptoStreamXor_append n k _ size]
      exact List.drop_left' (by rw [List.length_mapIdx, size])
    have verify : cryptoOnetimeauthVerify (box.take 16) (box.drop 16) (oneTimeKey n.bytes k.bytes) = 0 ↔
        box.take 16 = poly1305 (box.drop 16) (oneTimeKey n.bytes k.bytes) := by
      have length : (box.take 16).length = 16 := List.length_take_of_le (by omega)
      rw [← cryptoOnetimeauth_key]
      exact vn_eq_zero_iff (by rw [length, cryptoOnetimeauth_length])
    rw [cryptoSecretboxOpen, if_neg (by omega), body, front, rest, cryptoStream_eq 32 n k, openBox]
    change (if cryptoOnetimeauthVerify (box.take 16) (box.drop 16) (oneTimeKey n.bytes k.bytes) ≠ 0 then none else _) = _
    split
    · next wrong => rw [if_neg (mt verify.mpr wrong)]; rfl
    · next right => rw [if_pos (verify.mp (not_not.mp right))]; rfl

end Roman.TweetNacl
