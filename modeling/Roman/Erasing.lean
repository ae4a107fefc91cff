import Roman.Provisioning

/-! # Erasing

On a provisioned board `keystore_clear` is one erase behind a key check, and the
key that passes is the seed of the stored record or its whole secret key.
-/

namespace Roman

open CMem CStr NorFlash TweetNacl Base64

/-- The key decodes to the seed of the stored record or to the whole secret key. -/
def OpensErase (r : Record) (key : Bytes) : Prop :=
  b64Bytes 64 key = some (r.sk.bytes.take 32) ∨ b64Bytes 64 key = some r.sk.bytes

/-- What `keystore_clear` answers to a key that is not the stored one. -/
def wrongKey (key : Bytes) : KeystoreClearStatus :=
  match b64Bytes 64 key with
  | none => .errArg
  | some b => if b.length = 32 ∨ b.length = 64 then .errDenied else .errArg

/-- What `keystore_clear` leaves behind once the erase has been tried. -/
def Keystore.afterErase (k : Keystore) (ok : Bool) : KeystoreClearStatus × Keystore :=
  if ok then (.ok, keystoreInvalidate k) else (.errFlash, k)

theorem keystoreClear_unset {k : Keystore} (unset : storageWriten k.store.flash = false)
    (env : EraseOutcome) (key : Bytes) : keystoreClear k env key = .done (.empty, k) := by
  rw [keystoreClear, if_pos unset]

theorem keystoreClear_unreadable {k : Keystore} (coherent : Coherent k)
    (set : storageWriten k.store.flash = true) (none : storedRecord k.store.flash = none)
    (env : EraseOutcome) (key : Bytes) :
    keystoreClear k env key = .done (.errDenied, (keystoreLoad k).2) := by
  obtain ⟨loaded, -, -⟩ := keystoreLoad_spec coherent
  simp [keystoreClear, set, loaded, none]

/-- The comparison in `keystore_clear`, with the stored key in the cache. -/
private theorem keyCheck (given cached : Region 64) {b : Bytes} (size : b.length = 32 ∨ b.length = 64) :
    (cryptoVerify32 ((given.store 0 b).load 0 32) (cached.load 0 32) = 0 ∧
      ¬ (some b.length = some 64 ∧
        cryptoVerify32 ((given.store 0 b).load 32 32) (cached.load 32 32) ≠ 0)) ↔
      b = cached.bytes.take 32 ∨ b = cached.bytes := by
  have first : (given.store 0 b).load 0 32 = b.take 32 := by
    have seen := Region.load_store_within given 0 b 0 32 (by omega) (by omega)
    simpa using seen
  have half : cached.load 0 32 = cached.bytes.take 32 := rfl
  have whole : b.take 32 ++ b.drop 32 = b := List.take_append_drop 32 b
  have cachedSize := cached.size
  rw [cryptoVerify32_eq_zero_iff (by rw [first, half]; simp only [List.length_take]; omega), first,
    half]
  obtain short | full := size
  · have all : b.take 32 = b := List.take_of_length_le (by omega)
    have differ : b ≠ cached.bytes := fun eq => by rw [eq, cachedSize] at short; omega
    simp [short, all, differ]
  · have second : (given.store 0 b).load 32 32 = b.drop 32 := by
      have seen := Region.load_store_within given 0 b 32 32 (by omega) (by omega)
      rw [Nat.zero_add] at seen
      rw [seen]
      exact List.take_of_length_le (by simp [full])
    have tail : cached.load 32 32 = cached.bytes.drop 32 :=
      List.take_of_length_le (by simp [cachedSize])
    have differ : b ≠ cached.bytes.take 32 := fun eq => by
      have := congrArg List.length eq
      simp only [List.length_take] at this
      omega
    rw [second, tail, ne_eq, cryptoVerify32_eq_zero_iff (by simp [full, cachedSize])]
    simp only [full, differ, false_or, true_and, not_not]
    constructor
    · rintro ⟨front, back⟩
      rw [← whole, front, back, List.take_append_drop]
    · rintro rfl
      exact ⟨rfl, rfl⟩

/-- With a record in flash the key decides between an erase and a refusal. -/
theorem keystoreClear_eq {k : Keystore} (coherent : Coherent k)
    (set : storageWriten k.store.flash = true) {r : Record}
    (stored : storedRecord k.store.flash = some r) (key : Bytes) :
    ∃ k', Quiet k k' ∧
      (OpensErase r key → ∀ env, keystoreClear k env key =
        (storageErase k.store.flash env).map fun w =>
          Keystore.afterErase { k' with store := { k'.store with flash := w.2 } } w.1) ∧
      (¬ OpensErase r key → ∀ env, keystoreClear k env key = .done (wrongKey key, k')) := by
  obtain ⟨loaded, -, holds⟩ := keystoreLoad_spec coherent
  have quiet := keystoreLoad_quiet k
  have cachedSk := (holds r stored).sk
  have decode := recordB64Decode_eq key (keystoreLoad k).2.given
  let k' := { (keystoreLoad k).2 with given := (recordB64Decode key (keystoreLoad k).2.given 64).2 }
  have given : Quiet (keystoreLoad k).2 k' := .of_sameCache rfl rfl ⟨rfl, rfl, rfl, rfl⟩
  refine ⟨k', quiet.trans given, ?_⟩
  cases bytes : b64Bytes 64 key with
  | none =>
      simp only [bytes] at decode
      refine ⟨fun opens => by simp [OpensErase, bytes] at opens, fun _ env => ?_⟩
      simp [keystoreClear, wrongKey, bytes, set, loaded, stored, decode, k']
  | some b =>
      simp only [bytes] at decode
      obtain ⟨-, decode⟩ := decode
      have opensIff : OpensErase r key ↔ b = r.sk.bytes.take 32 ∨ b = r.sk.bytes := by
        simp only [OpensErase, bytes, Option.some.injEq]
      rw [opensIff]
      by_cases size : b.length = 32 ∨ b.length = 64
      · have known : ¬ (¬ b.length = 32 ∧ ¬ b.length = 64) := by omega
        have check := keyCheck (keystoreLoad k).2.given r.sk size
        simp only [Option.some.injEq, ne_eq] at check
        rw [← check]
        constructor
        · rintro ⟨first, second⟩ env
          simp only [keystoreClear, set, loaded, stored, decode, cachedSk, Option.isSome_some,
            Bool.true_eq_false, if_false, Option.some.injEq, ne_eq, if_neg known, first,
            not_true_eq_false, if_neg second, storageClear, quiet.flash, k']
          cases storageErase k.store.flash env with
          | cut f => rfl
          | done w =>
              obtain ⟨ok, f⟩ := w
              cases ok <;> rfl
        · intro refused env
          simp only [keystoreClear, wrongKey, bytes, if_pos size, set, loaded, stored, decode, cachedSk,
            Option.isSome_some, Bool.true_eq_false, if_false, Option.some.injEq, ne_eq, if_neg known, k']
          split
          · rfl
          · rename_i first
            rw [if_pos (by_contra fun second => refused ⟨not_not.mp first, second⟩)]
      · refine ⟨fun opened => ?_, fun _ env => ?_⟩
        · have full := r.sk.size
          obtain rfl | rfl := opened
          · exact absurd (.inl (by simp [full])) size
          · exact absurd (.inr full) size
        · simp only [keystoreClear, wrongKey, bytes, if_neg size]
          simp [set, loaded, stored, decode, k', not_or.mp size]

end Roman
