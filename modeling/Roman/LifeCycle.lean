import Roman.Board
import Roman.Verdict

/-! # Provision, clear, provision again

What the getters answer depends on the record in flash alone. So a clear that is
refused shows nowhere, and a clear that goes through leaves a board on which the
next provisioning starts from nothing.
-/

namespace Roman

open CMem CStr NorFlash TweetNacl Base64

/-- The getters of both keystores answer alike, whatever the caller's arrays hold. -/
structure SameAnswers (k k' : Keystore) : Prop where
  writen : keystoreWriten k' = keystoreWriten k
  state : (keystoreState k').1 = (keystoreState k).1
  publicKey : ∀ pk, (keystorePublicKey k' pk).1 = (keystorePublicKey k pk).1 ∧
    (keystorePublicKey k' pk).2.1 = (keystorePublicKey k pk).2.1
  signingKey : ∀ sk64, (keystoreSigningKey k' sk64).1 = (keystoreSigningKey k sk64).1 ∧
    (keystoreSigningKey k' sk64).2.1 = (keystoreSigningKey k sk64).2.1
  deviceId : ∀ {n : Nat} (out : Region n) (cap : Nat),
    (keystoreDeviceId k' out cap).1 = (keystoreDeviceId k out cap).1 ∧
      (keystoreDeviceId k' out cap).2.1 = (keystoreDeviceId k out cap).2.1

/-- No getter has anything to give, and the caller's arrays stay as they are. -/
structure Unprovisioned (k : Keystore) : Prop where
  writen : keystoreWriten k = false
  state : (keystoreState k).1 = .empty
  publicKey : ∀ pk, (keystorePublicKey k pk).1 = false ∧ (keystorePublicKey k pk).2.1 = pk
  signingKey : ∀ sk64, (keystoreSigningKey k sk64).1 = false ∧ (keystoreSigningKey k sk64).2.1 = sk64
  deviceId : ∀ {n : Nat} (out : Region n) (cap : Nat),
    (keystoreDeviceId k out cap).1 = false ∧ (keystoreDeviceId k out cap).2.1 = out

/-- The id into an array of any size: copied with its NUL if the caller has room. -/
theorem keystoreDeviceId_record {k : Keystore} (coherent : Coherent k) {r : Record}
    (stored : storedRecord k.store.flash = some r) {n : Nat} (out : Region n) (cap : Nat) :
    keystoreDeviceId k out cap =
      if cap < r.deviceId.length + 1 then (false, out, (keystoreLoad k).2)
      else (true, out.store 0 (r.deviceId ++ [0]), (keystoreLoad k).2) := by
  obtain ⟨loaded, -, holds⟩ := keystoreLoad_spec coherent
  have id := (holds r stored).id
  have small := r.deviceId_le
  have copied : (keystoreLoad k).2.cachedId.load 0 (r.deviceId.length + 1) = r.deviceId ++ [0] := by
    apply Region.load_cstr id
    simp only [RECORD_MAX_DEVICE_ID] at *
    omega
  unfold keystoreDeviceId
  simp only [loaded, stored, Option.isSome_some, Bool.true_eq_false, if_false, id, copied]

theorem keystoreDeviceId_unstored {k : Keystore} (coherent : Coherent k)
    (none : storedRecord k.store.flash = none) {n : Nat} (out : Region n) (cap : Nat) :
    keystoreDeviceId k out cap = (false, out, (keystoreLoad k).2) := by
  obtain ⟨loaded, -, -⟩ := keystoreLoad_spec coherent
  unfold keystoreDeviceId
  simp only [loaded, none, Option.isSome_none, if_true]

/-- Two coherent keystores on one flash answer alike. -/
theorem sameAnswers {k k' : Keystore} (coherent : Coherent k) (coherent' : Coherent k')
    (flash : k'.store.flash = k.store.flash) : SameAnswers k k' := by
  constructor
  · unfold keystoreWriten
    rw [flash]
  · rw [keystoreState_spec coherent, keystoreState_spec coherent', flash]
  · intro pk
    rw [keystorePublicKey_spec coherent, keystorePublicKey_spec coherent', flash]
    cases storedRecord k.store.flash <;> exact ⟨rfl, rfl⟩
  · intro sk64
    rw [keystoreSigningKey_spec coherent, keystoreSigningKey_spec coherent', flash]
    cases storedRecord k.store.flash <;> exact ⟨rfl, rfl⟩
  · intro n out cap
    cases stored : storedRecord k.store.flash with
    | none =>
        rw [keystoreDeviceId_unstored coherent stored,
          keystoreDeviceId_unstored coherent' (by rw [flash, stored])]
        exact ⟨rfl, rfl⟩
    | some r =>
        rw [keystoreDeviceId_record coherent stored,
          keystoreDeviceId_record coherent' (by rw [flash, stored])]
        split <;> exact ⟨rfl, rfl⟩

theorem unprovisioned_of_blank {k : Keystore} (coherent : Coherent k) (blank : Blank k.store.flash) :
    Unprovisioned k := by
  have unset := storageWriten_blank blank
  have none := storedRecord_blank blank
  constructor
  · exact unset
  · rw [keystoreState_spec coherent, unset]
    rfl
  · intro pk
    rw [keystorePublicKey_spec coherent, none]
    exact ⟨rfl, rfl⟩
  · intro sk64
    rw [keystoreSigningKey_spec coherent, none]
    exact ⟨rfl, rfl⟩
  · intro n out cap
    rw [keystoreDeviceId_unstored coherent none]
    exact ⟨rfl, rfl⟩

/-- The right keys are two strings: the seed in base64, and the whole secret key in base64. -/
theorem opensErase_iff {r : Record} {seed pk : Bytes} (sk : r.sk.bytes = seed ++ pk)
    (size : seed.length = 32) (key : Bytes) :
    OpensErase r key ↔ key = base64Encode seed ∨ key = base64Encode (seed ++ pk) := by
  have whole := r.sk.size
  rw [sk] at whole
  have front : (seed ++ pk).take 32 = seed := List.take_left' size
  have seedBytes : b64Bytes 64 key = some seed ↔ key = base64Encode seed := by
    rw [b64Bytes_eq_some_iff]
    exact ⟨fun ⟨_, _, text⟩ => text,
      fun text => ⟨List.length_pos_iff.mp (by omega), by omega, text⟩⟩
  have wholeBytes : b64Bytes 64 key = some (seed ++ pk) ↔ key = base64Encode (seed ++ pk) := by
    rw [b64Bytes_eq_some_iff]
    exact ⟨fun ⟨_, _, text⟩ => text,
      fun text => ⟨List.length_pos_iff.mp (by omega), by omega, text⟩⟩
  rw [OpensErase, sk, front, seedBytes, wholeBytes]

/-- The answer to a wrong key tells whether it is a key at all. -/
theorem wrongKey_cases (key : Bytes) :
    (wrongKey key = .errArg ∧ ¬ ∃ b, (b.length = 32 ∨ b.length = 64) ∧ key = base64Encode b) ∨
      (wrongKey key = .errDenied ∧ ∃ b, (b.length = 32 ∨ b.length = 64) ∧ key = base64Encode b) := by
  unfold wrongKey
  cases bytes : b64Bytes 64 key with
  | none =>
      refine .inl ⟨rfl, ?_⟩
      rintro ⟨b, size, rfl⟩
      rw [b64Bytes_of_pos (by omega) (by omega)] at bytes
      cases bytes
  | some b =>
      have text := (b64Bytes_eq_some_iff.mp bytes).2.2
      by_cases size : b.length = 32 ∨ b.length = 64
      · exact .inr ⟨if_pos size, b, size, text⟩
      · refine .inl ⟨if_neg size, ?_⟩
        rintro ⟨b', size', text'⟩
        rw [base64Encode_injective (text.symm.trans text')] at size
        exact size size'

/-- With the right key and working flash the board is as good as new. -/
structure Renewed (k : Keystore) : Prop where
  unprovisioned : Unprovisioned k
  again : ∀ env key, keystoreClear k env key = .done (.empty, k)
  next : ∀ pkB64 skB64 deviceId, FieldsFormed pkB64 skB64 deviceId → ¬ Mismatched pkB64 skB64 →
    ∃ k' r, keystoreProvision k ⟨.ok, .ok⟩ pkB64 skB64 deviceId = .done (.ok, k') ∧
      Names pkB64 skB64 deviceId r ∧ ReadsBack k' r

theorem renewed_of_blank {k : Keystore} (coherent : Coherent k) (blank : Blank k.store.flash) :
    Renewed k := by
  have unset := storageWriten_blank blank
  refine ⟨unprovisioned_of_blank coherent blank, fun env key => keystoreClear_unset unset env key, ?_⟩
  intro pkB64 skB64 deviceId form pair
  obtain ⟨r, names⟩ := form.names pair
  obtain ⟨k', accepted⟩ := keystoreProvision_accepts unset names
  exact ⟨k', r, accepted, names, readsBack_of_provision accepted names⟩

/-- `keystore_clear` on a board that holds the record. -/
theorem keystoreClear_decides {k : Keystore} (settled : Settled k)
    (set : storageWriten k.store.flash = true) {r : Record} (stored : storedRecord k.store.flash = some r)
    (key : Bytes) :
    (OpensErase r key → ∃ k', keystoreClear k .ok key = .done (.ok, k') ∧ Renewed k') ∧
      (¬ OpensErase r key → ∃ k', keystoreClear k .ok key = .done (wrongKey key, k') ∧
        k'.store.flash = k.store.flash ∧ SameAnswers k k') := by
  have coherent := settled set
  obtain ⟨k', quiet, opened, refused⟩ := keystoreClear_eq coherent set stored key
  constructor
  · intro opens
    refine ⟨_, opened opens .ok, renewed_of_blank ?_ (blank_erase _)⟩
    exact .of_invalid rfl
  · intro wrong
    exact ⟨k', refused wrong .ok, quiet.flash, sameAnswers coherent (quiet.coherent coherent) quiet.flash⟩

theorem wrongKey_ne_ok (key : Bytes) : wrongKey key ≠ .ok := by
  intro ok
  rcases wrongKey_cases key with ⟨status, -⟩ | ⟨status, -⟩ <;> rw [ok] at status <;> cases status

/-- What `keystore_clear` does with this key and working flash, on a board that
    holds the pair of the seed and the public key. -/
structure ClearsExactly (k : Keystore) (seed pk key : Bytes) : Prop where
  right : (∃ k', keystoreClear k .ok key = .done (.ok, k')) ↔
    key = base64Encode seed ∨ key = base64Encode (seed ++ pk)
  renews : ∀ k', keystoreClear k .ok key = .done (.ok, k') → Renewed k'
  wrong : key ≠ base64Encode seed → key ≠ base64Encode (seed ++ pk) →
    ∃ status k', keystoreClear k .ok key = .done (status, k') ∧
      (status = .errArg ∨ status = .errDenied) ∧
      (status = .errArg ↔ ¬ ∃ b, (b.length = 32 ∨ b.length = 64) ∧ key = base64Encode b) ∧
      k'.store.flash = k.store.flash ∧ SameAnswers k k'

theorem clearsExactly {k : Keystore} (settled : Settled k) (set : storageWriten k.store.flash = true)
    {r : Record} (stored : storedRecord k.store.flash = some r) {seed pk : Bytes}
    (sk : r.sk.bytes = seed ++ pk) (size : seed.length = 32) (key : Bytes) :
    ClearsExactly k seed pk key := by
  obtain ⟨opened, refused⟩ := keystoreClear_decides settled set stored key
  rw [opensErase_iff sk size] at opened refused
  have decided : ∀ k', keystoreClear k .ok key = .done (.ok, k') →
      key = base64Encode seed ∨ key = base64Encode (seed ++ pk) := by
    intro k' done
    by_contra other
    obtain ⟨k'', done', -⟩ := refused other
    rw [done, Outcome.done.injEq, Prod.mk.injEq] at done'
    exact wrongKey_ne_ok key done'.1.symm
  constructor
  · constructor
    · rintro ⟨k', done⟩
      exact decided k' done
    · intro right
      obtain ⟨k', done, -⟩ := opened right
      exact ⟨k', done⟩
  · intro k' done
    obtain ⟨k'', done', renewed⟩ := opened (decided k' done)
    rw [done] at done'
    cases done'
    exact renewed
  · intro notSeed notWhole
    obtain ⟨k', done, same, answers⟩ := refused (not_or.mpr ⟨notSeed, notWhole⟩)
    refine ⟨_, k', done, ?_, ?_, same, answers⟩
    · rcases wrongKey_cases key with ⟨status, -⟩ | ⟨status, -⟩
      · exact .inl status
      · exact .inr status
    · rcases wrongKey_cases key with ⟨status, form⟩ | ⟨status, form⟩
      · exact iff_of_true status form
      · exact iff_of_false (by rw [status]; nofun) (not_not.mpr form)

/-- From an accepted provisioning on, through every run of the board after which
    the record is still there: `keystore_clear` erases for the seed and for the
    whole secret key and for nothing else, and then the cycle starts over. -/
theorem keystoreClear_cycle {s : Http} {env : FlashEnv} {pkB64 skB64 deviceId : Bytes} {k : Keystore}
    (accepted : keystoreProvision s.keystore env pkB64 skB64 deviceId = .done (.ok, k)) :
    ∃ seed pk, seed.length = 32 ∧ pk.length = 32 ∧ pkB64 = base64Encode pk ∧
      (skB64 = base64Encode seed ∨ skB64 = base64Encode (seed ++ pk)) ∧
      ∀ events later, later = (boardRun { s with keystore := k } events).keystore →
        keystoreWriten later = true → storedRecord later.store.flash = storedRecord k.store.flash →
        ∀ key, ClearsExactly later seed pk key := by
  obtain ⟨r, names, -, -, flash, -, invalid⟩ := keystoreProvision_ok accepted
  have stored : storedRecord k.store.flash = some r := by
    rw [flash]
    apply storedRecord_committed
  obtain ⟨pkBytes, ⟨seed, size, sk, skBytes⟩, -⟩ := names
  refine ⟨seed, r.pk.bytes, size, r.pk.size, (b64Bytes_eq_some_iff.mp pkBytes).2.2, ?_, ?_⟩
  · rcases skBytes with bare | full
    · exact .inl (b64Bytes_eq_some_iff.mp bare).2.2
    · exact .inr (b64Bytes_eq_some_iff.mp full).2.2
  intro events later eq set still key
  have settled : Settled later := by
    rw [eq]
    apply Runs.run_invariant (fun s : Http => Settled s.keystore)
    · exact fun _ => .of_invalid invalid
    · exact fun s a _ settled => boardStep_settled settled a
  exact clearsExactly settled set (by rw [still, stored]) sk size key

/-- A blank board, provisioned with a bare seed and cleared with it. -/
theorem keystoreClear_cycle_blank :
    ∃ k, keystoreProvision blankKeystore ⟨.ok, .ok⟩ (base64Encode samplePk) (base64Encode sampleSeed)
        sampleId = .done (.ok, k) ∧
      ∃ k', keystoreClear k .ok (base64Encode sampleSeed) = .done (.ok, k') ∧ Renewed k' := by
  obtain ⟨k, accepted⟩ := keystoreProvision_accepts blankKeystore_unset sample_names
  obtain ⟨seed, pk, -, -, -, skText, cycle⟩ :=
    keystoreClear_cycle (s := .zeroed (fun _ => 0xFF) silent) accepted
  have set := (readsBack_of_provision accepted sample_names).writen
  have clears := cycle [] k rfl set rfl (base64Encode sampleSeed)
  obtain ⟨k', done⟩ := clears.right.mpr skText
  exact ⟨k, accepted, k', done, clears.renews k' done⟩

end Roman
