import Roman.Base64
import Roman.Cache
import Roman.Lib.Runs

/-! # Provisioning

What a request asks for depends on its three strings alone: `requestedRecord` is
the record it names or the reason it is refused. `keystore_provision` is then
one write of that record, and what it wrote is what every later reader gets.
-/

namespace Roman

open CMem CStr NorFlash TweetNacl Base64

/-- The bytes a string decodes to, if it is the canonical base64 of at most `cap` bytes. -/
def b64Bytes (cap : Nat) (s : Bytes) : Option Bytes :=
  (recordB64Decode s (Region.fill cap 0) cap).1.map fun n =>
    (recordB64Decode s (Region.fill cap 0) cap).2.load 0 n

theorem b64Bytes_encode {cap : Nat} {b : Bytes} (nonempty : b ≠ []) (fits : b.length ≤ cap) :
    b64Bytes cap (base64Encode b) = some b := by
  rw [b64Bytes, recordB64Decode_encode nonempty fits (Nat.le_refl cap), Option.map_some,
    Region.load_store _ 0 b (by omega)]

/-- The decoder gives the same bytes into any array. -/
theorem recordB64Decode_eq {cap : Nat} (s : Bytes) (out : Region cap) :
    match b64Bytes cap s with
    | none => (recordB64Decode s out cap).1 = none
    | some b => b.length ≤ cap ∧ recordB64Decode s out cap = (some b.length, out.store 0 b) := by
  cases accepted : (recordB64Decode s out cap).1 with
  | some m =>
      obtain ⟨b, nonempty, rfl, rfl, bound, -⟩ := recordB64Decode_sound (Nat.le_refl cap) accepted
      rw [b64Bytes_encode nonempty bound]
      exact ⟨bound, recordB64Decode_encode nonempty bound (Nat.le_refl cap)⟩
  | none =>
      have refused : (recordB64Decode s (Region.fill cap 0) cap).1 = none := by
        cases other : (recordB64Decode s (Region.fill cap 0) cap).1 with
        | none => rfl
        | some m =>
            obtain ⟨b, nonempty, rfl, rfl, bound, -⟩ := recordB64Decode_sound (Nat.le_refl cap) other
            rw [recordB64Decode_encode nonempty bound (Nat.le_refl cap)] at accepted
            cases accepted
      rw [b64Bytes, refused]
      rfl

/-- The record a provisioning request names, or the status it is refused with. -/
def requestedRecord (pkB64 skB64 deviceId : Bytes) : Except KeystoreStatus Record :=
  if valid : recordDeviceIdValid deviceId = true then
    match b64Bytes 32 pkB64, b64Bytes 64 skB64 with
    | some pk, some sk =>
        if pkSize : pk.length = 32 then
          if seed : sk.length = 32 then
            .ok ⟨⟨pk, pkSize⟩, ⟨sk ++ pk, by rw [List.length_append, seed, pkSize]⟩, deviceId, valid⟩
          else if full : sk.length = 64 then
            if sk.drop 32 = pk then .ok ⟨⟨pk, pkSize⟩, ⟨sk, full⟩, deviceId, valid⟩
            else .error .errMismatch
          else .error .errArg
        else .error .errArg
    | _, _ => .error .errArg
  else .error .errArg

/-- What `keystore_provision` leaves behind once the write is through. -/
def Keystore.afterWrite (k : Keystore) (ok : Bool) : KeystoreStatus × Keystore :=
  if ok then (.ok, keystoreInvalidate k) else (.errFlash, k)

@[simp] theorem Keystore.afterWrite_true (k : Keystore) :
    k.afterWrite true = (.ok, keystoreInvalidate k) := rfl

@[simp] theorem Keystore.afterWrite_false (k : Keystore) :
    k.afterWrite false = (.errFlash, k) := rfl

theorem keystoreProvision_writen {k : Keystore} (writen : storageWriten k.store.flash = true)
    (env : FlashEnv) (pkB64 skB64 deviceId : Bytes) :
    keystoreProvision k env pkB64 skB64 deviceId = .done (.errAlready, k) := by
  rw [keystoreProvision, if_pos writen]

/-- The end of `keystore_provision`, with the keys in place. -/
def writeRecord (k : Keystore) (env : FlashEnv) (deviceId : Bytes) :
    Outcome (KeystoreStatus × Keystore) :=
  let (len, payload) := recordEncode k.payload RECORD_MAX k.pk k.sk deviceId
  let k := { k with payload }
  if len = 0 then .done (.errArg, k)
  else
    match storageWrite k.store env (k.payload.load 0 len) with
    | .cut flash => .cut flash
    | .done (ok, store) => .done (Keystore.afterWrite { k with store } ok)

theorem writeRecord_eq (k : Keystore) (env : FlashEnv) (r : Record) (pk : k.pk = r.pk)
    (sk : k.sk = r.sk) :
    ∃ payload boxWrite, writeRecord k env r.deviceId =
      (eraseThenProgram k.store.flash env
          (stagedImage r.payload (drawn k.store.rng)).bytes).map fun w =>
        Keystore.afterWrite { k with
          store := { k.store with
            flash := w.2
            rng := afterDraw k.store.rng
            storageBuf := stagedImage r.payload (drawn k.store.rng)
            boxWrite }
          payload } w.1 := by
  have encode := recordEncode_record r k.payload r.payload_le (Nat.le_refl _)
  have loaded : (k.payload.store 0 r.payload).load 0 r.payload.length = r.payload :=
    Region.load_store _ 0 _ (by have := r.payload_le; omega)
  obtain ⟨boxWrite, write⟩ := storageWrite_eq k.store env r.payload_pos r.payload_small
  refine ⟨k.payload.store 0 r.payload, boxWrite, ?_⟩
  simp only [writeRecord, pk, sk, encode, if_neg (Nat.ne_of_gt r.payload_pos), loaded, write]
  cases eraseThenProgram _ _ _ with
  | cut f => rfl
  | done w => rfl

/-- Once both keys are decoded only the pair check stands before the write. -/
theorem keystoreProvision_decoded {k : Keystore} (unset : storageWriten k.store.flash = false)
    (env : FlashEnv) {pkB64 skB64 deviceId : Bytes} (valid : recordDeviceIdValid deviceId = true)
    {pk : Region 32} (pkDecode : recordB64Decode pkB64 k.pk 32 = (some 32, pk))
    {sk : Region 64} {len : Nat} (skDecode : recordB64Decode skB64 k.sk 64 = (some len, sk))
    (form : len = 32 ∨ len = 64) :
    keystoreProvision k env pkB64 skB64 deviceId =
      let sk := if len = 32 then sk.store 32 pk.bytes else sk
      if cryptoVerify32 (sk.load 32 32) pk.bytes ≠ 0 then .done (.errMismatch, { k with pk, sk })
      else writeRecord { k with pk, sk } env deviceId := by
  have known : ¬ (¬ len = 32 ∧ ¬ len = 64) := by omega
  simp only [keystoreProvision, unset, valid, pkDecode, skDecode, Bool.false_eq_true,
    Bool.true_eq_false, if_false, Option.some.injEq, ne_eq, not_true_eq_false]
  rw [if_neg known]
  generalize (if len = 32 then sk.store 32 pk.bytes else sk) = sk'
  by_cases check : cryptoVerify32 (sk'.load 32 32) pk.bytes = 0
  · simp only [check, not_true_eq_false, if_false, writeRecord]
    generalize recordEncode k.payload RECORD_MAX pk sk' deviceId = encoded
    by_cases empty : encoded.1 = 0
    · rw [if_pos empty, if_pos empty]
    · rw [if_neg empty, if_neg empty]
      cases storageWrite _ _ _ with
      | cut f => rfl
      | done w =>
          obtain ⟨ok, store⟩ := w
          cases ok <;> rfl
  · rw [if_pos check, if_pos check]

/-- Of an unprovisioned board: a refusal that touches only the scratch arrays, or
    the write of the record asked for. -/
theorem keystoreProvision_eq {k : Keystore} (unset : storageWriten k.store.flash = false)
    (env : FlashEnv) (pkB64 skB64 deviceId : Bytes) :
    match requestedRecord pkB64 skB64 deviceId with
    | .error status => ∃ pk sk, keystoreProvision k env pkB64 skB64 deviceId =
        .done (status, { k with pk, sk })
    | .ok r => r.deviceId = deviceId ∧ keystoreProvision k env pkB64 skB64 deviceId =
        writeRecord { k with pk := r.pk, sk := r.sk } env r.deviceId := by
  have pkDecode := recordB64Decode_eq pkB64 k.pk
  have skDecode := recordB64Decode_eq skB64 k.sk
  let pkOut := (recordB64Decode pkB64 k.pk 32).2
  let skOut := (recordB64Decode skB64 k.sk 64).2
  cases valid : recordDeviceIdValid deviceId with
  | false =>
      simp only [requestedRecord, valid, Bool.false_eq_true, dif_neg, not_false_eq_true]
      exact ⟨k.pk, k.sk, by simp [keystoreProvision, unset, valid]⟩
  | true =>
      cases pkBytes : b64Bytes 32 pkB64 with
      | none =>
          simp only [pkBytes] at pkDecode
          simp only [requestedRecord, valid, pkBytes, dif_pos]
          exact ⟨pkOut, k.sk, by simp [keystoreProvision, unset, valid, pkDecode, pkOut]⟩
      | some pk =>
          simp only [pkBytes] at pkDecode
          obtain ⟨-, pkDecode⟩ := pkDecode
          by_cases pkSize : pk.length = 32
          · have pkStored : k.pk.store 0 pk = ⟨pk, pkSize⟩ := Region.ext (Region.store_whole _ _ pkSize)
            rw [pkSize, pkStored] at pkDecode
            cases skBytes : b64Bytes 64 skB64 with
            | none =>
                simp only [skBytes] at skDecode
                simp only [requestedRecord, valid, pkBytes, skBytes, dif_pos]
                exact ⟨⟨pk, pkSize⟩, skOut, by
                  simp [keystoreProvision, unset, valid, pkDecode, skDecode, skOut]⟩
            | some sk =>
                simp only [skBytes] at skDecode
                obtain ⟨skLe, skDecode⟩ := skDecode
                have pairCheck : ∀ x : Bytes, x.length = 32 → (cryptoVerify32 x pk = 0 ↔ x = pk) :=
                  fun x size => cryptoVerify32_eq_zero_iff (by rw [size, pkSize])
                by_cases seed : sk.length = 32
                · -- a bare seed becomes seed || pk, so the pair check holds
                  have size : (sk ++ pk).length = 64 := by rw [List.length_append, seed, pkSize]
                  have joined : (k.sk.store 0 sk).store 32 pk = ⟨sk ++ pk, size⟩ := by
                    have two := Region.store_store k.sk 0 sk pk (by omega)
                    rw [Nat.zero_add, seed] at two
                    rw [two]
                    exact Region.ext (Region.store_whole _ _ size)
                  have half : Region.load (n := 64) ⟨sk ++ pk, size⟩ 32 32 = pk := by
                    rw [Region.load, List.drop_left' seed]
                    exact List.take_of_length_le (by omega)
                  rw [keystoreProvision_decoded unset env valid pkDecode skDecode (.inl seed)]
                  simp only [requestedRecord, valid, pkBytes, skBytes, pkSize, seed, dif_pos, if_true,
                    joined, half, (pairCheck pk pkSize).mpr rfl, ne_eq, not_true_eq_false, if_false,
                    and_self]
                · by_cases full : sk.length = 64
                  · have stored : k.sk.store 0 sk = ⟨sk, full⟩ := Region.ext (Region.store_whole _ _ full)
                    have half : Region.load (n := 64) ⟨sk, full⟩ 32 32 = sk.drop 32 :=
                      List.take_of_length_le (by simp [full])
                    have check := pairCheck (sk.drop 32) (by simp [full])
                    rw [keystoreProvision_decoded unset env valid pkDecode skDecode (.inr full)]
                    have request : requestedRecord pkB64 skB64 deviceId =
                        if sk.drop 32 = pk then .ok ⟨⟨pk, pkSize⟩, ⟨sk, full⟩, deviceId, valid⟩
                        else .error .errMismatch := by
                      simp [requestedRecord, valid, pkBytes, skBytes, pkSize, full]
                    by_cases pair : sk.drop 32 = pk
                    · rw [request, if_pos pair]
                      simp only [full, stored, half, check.mpr pair, ne_eq, not_true_eq_false, if_false,
                        show ¬ (64 : Nat) = 32 by decide, and_self]
                    · rw [request, if_neg pair]
                      refine ⟨⟨pk, pkSize⟩, ⟨sk, full⟩, ?_⟩
                      simp only [full, stored, half, show ¬ (64 : Nat) = 32 by decide, if_false]
                      rw [if_pos (fun zero => pair (check.mp zero))]
                  · simp only [requestedRecord, valid, pkBytes, skBytes, pkSize, seed, full, dif_pos,
                      dif_neg, not_false_eq_true]
                    exact ⟨⟨pk, pkSize⟩, skOut, by
                      simp [keystoreProvision, unset, valid, pkDecode, skDecode, skOut, seed, full]⟩
          · have refused : requestedRecord pkB64 skB64 deviceId = .error .errArg := by
              cases skBytes : b64Bytes 64 skB64 <;> simp [requestedRecord, valid, pkBytes, skBytes, pkSize]
            rw [refused]
            exact ⟨pkOut, k.sk, by simp [keystoreProvision, unset, valid, pkDecode, pkSize, pkOut]⟩

/-- The three strings decode to this record; the secret key may come as the seed alone. -/
structure Names (pkB64 skB64 deviceId : Bytes) (r : Record) : Prop where
  pk : b64Bytes 32 pkB64 = some r.pk.bytes
  sk : ∃ seed, seed.length = 32 ∧ r.sk.bytes = seed ++ r.pk.bytes ∧
    (b64Bytes 64 skB64 = some seed ∨ b64Bytes 64 skB64 = some (seed ++ r.pk.bytes))
  deviceId : deviceId = r.deviceId

theorem requestedRecord_ok_iff {pkB64 skB64 deviceId : Bytes} {r : Record} :
    requestedRecord pkB64 skB64 deviceId = .ok r ↔ Names pkB64 skB64 deviceId r := by
  constructor
  · intro request
    simp only [requestedRecord] at request
    split at request
    · rename_i valid
      split at request
      · rename_i pk sk pkBytes skBytes
        split at request
        · rename_i pkSize
          split at request
          · rename_i seed
            cases request
            exact ⟨pkBytes, ⟨sk, seed, rfl, .inl skBytes⟩, rfl⟩
          · split at request
            · rename_i full
              split at request
              · rename_i pair
                cases request
                have parts : sk = sk.take 32 ++ pk := by rw [← pair, List.take_append_drop]
                exact ⟨pkBytes, ⟨sk.take 32, by simp [full], parts, .inr (by rw [skBytes, ← parts])⟩, rfl⟩
              · cases request
            · cases request
        · cases request
      · cases request
    · cases request
  · rintro ⟨pkBytes, ⟨seed, seedSize, sk, skBytes⟩, rfl⟩
    obtain ⟨⟨pk, pkSize⟩, ⟨sk', skSize⟩, deviceId, valid⟩ := r
    dsimp only at *
    subst sk
    cases skBytes with
    | inl bare => simp [requestedRecord, valid, pkBytes, bare, pkSize, seedSize]
    | inr full =>
        simp [requestedRecord, valid, pkBytes, full, pkSize, seedSize, List.drop_left' seedSize]

/-- A refusal is one of two. -/
theorem requestedRecord_error {pkB64 skB64 deviceId : Bytes} {status : KeystoreStatus}
    (refused : requestedRecord pkB64 skB64 deviceId = .error status) :
    status = .errArg ∨ status = .errMismatch := by
  simp only [requestedRecord] at refused
  split at refused
  · split at refused
    · split at refused
      · split at refused
        · cases refused
        · split at refused
          · split at refused
            · cases refused
            · exact .inr (Except.error.inj refused).symm
          · exact .inl (Except.error.inj refused).symm
      · exact .inl (Except.error.inj refused).symm
    · exact .inl (Except.error.inj refused).symm
  · exact .inl (Except.error.inj refused).symm

/-- Flash after the whole write of a record. -/
def committed (f : Flash) (r : Record) (d : Draw) : Flash :=
  program (stagedImage r.payload d).bytes (erase FLASH_SECTOR_SIZE f)

section
variable (f : Flash) (r : Record) (d : Draw)

private theorem image_length : (stagedImage r.payload d).bytes.length = STORAGE_TOTAL_BYTES :=
  (stagedImage r.payload d).size

private theorem section_landed :
    STORAGE_SECTION_OFF + STORAGE_BOX_OVERHEAD + r.payload.length ≤
      (stagedImage r.payload d).bytes.length := by
  have small := r.payload_small
  rw [image_length]
  simp only [STORAGE_SECTION_OFF, STORAGE_BOX_OVERHEAD, STORAGE_TOTAL_BYTES]
  omega

theorem storageWriten_committed : storageWriten (committed f r d) = true :=
  (storageWriten_image (blank_erase f) r.payload_small).mpr (by rw [image_length]; decide)

theorem storedRecord_committed : storedRecord (committed f r d) = some r :=
  storedRecord_image (blank_erase f) r (section_landed r d)

theorem sectionPayload_committed : sectionPayload (committed f r d) = some r.payload :=
  sectionPayload_image (blank_erase f) r.payload_pos r.payload_small (section_landed r d)

theorem x25519_committed : NorFlash.read (committed f r d) 0x24 STORAGE_KEY_LEN = d.pk :=
  (image_header (blank_erase f) r.payload_pos r.payload_small (section_landed r d)).2.2

theorem storageX25519Pk_committed {n : Nat} (out : Region n) :
    storageX25519Pk (committed f r d) out = (true, out.store 0 d.pk) :=
  storageX25519Pk_image (blank_erase f) r.payload_pos r.payload_small (section_landed r d) out

end

/-- The five ways a write can end. -/
inductive Written (f : Flash) (image : Bytes) : FlashEnv → Outcome (Bool × Flash) → Prop where
  | eraseCut {program} (reached : Nat → Bool) :
      Written f image ⟨.cut reached, program⟩ (.cut (erasePart FLASH_SECTOR_SIZE reached f))
  | eraseFailed {program} : Written f image ⟨.fail, program⟩ (.done (false, f))
  | programCut (k : Nat) :
      Written f image ⟨.ok, .cut k⟩ (.cut (programPart image k (erase FLASH_SECTOR_SIZE f)))
  | programFailed : Written f image ⟨.ok, .fail⟩ (.done (false, erase FLASH_SECTOR_SIZE f))
  | ok : Written f image ⟨.ok, .ok⟩ (.done (true, program image (erase FLASH_SECTOR_SIZE f)))

theorem written (f : Flash) (env : FlashEnv) (image : Bytes) :
    Written f image env (eraseThenProgram f env image) := by
  obtain ⟨erase, program⟩ := env
  cases erase with
  | cut reached => exact .eraseCut reached
  | fail => exact .eraseFailed
  | ok =>
      cases program with
      | cut k => exact .programCut k
      | fail => exact .programFailed
      | ok => exact .ok

/-- A request for a record on an unprovisioned board is one write of that record. -/
theorem keystoreProvision_names {k : Keystore} {pkB64 skB64 deviceId : Bytes} {r : Record}
    (unset : storageWriten k.store.flash = false) (names : Names pkB64 skB64 deviceId r)
    (env : FlashEnv) :
    ∃ payload boxWrite, keystoreProvision k env pkB64 skB64 deviceId =
      (eraseThenProgram k.store.flash env
          (stagedImage r.payload (drawn k.store.rng)).bytes).map fun w =>
        Keystore.afterWrite { k with
          store := { k.store with
            flash := w.2
            rng := afterDraw k.store.rng
            storageBuf := stagedImage r.payload (drawn k.store.rng)
            boxWrite }
          pk := r.pk
          sk := r.sk
          payload } w.1 := by
  have provision := keystoreProvision_eq unset env pkB64 skB64 deviceId
  simp only [requestedRecord_ok_iff.mpr names] at provision
  obtain ⟨payload, boxWrite, write⟩ :=
    writeRecord_eq { k with pk := r.pk, sk := r.sk } env r rfl rfl
  exact ⟨payload, boxWrite, provision.2.trans write⟩

/-- Any other request is refused before flash is touched. -/
theorem keystoreProvision_refused {k : Keystore} {pkB64 skB64 deviceId : Bytes}
    (nothing : storageWriten k.store.flash = true ∨ ∀ r, ¬ Names pkB64 skB64 deviceId r)
    (env : FlashEnv) :
    ∃ status pk sk, keystoreProvision k env pkB64 skB64 deviceId = .done (status, { k with pk, sk }) ∧
      status ≠ .ok ∧ status ≠ .errFlash := by
  cases writen : storageWriten k.store.flash with
  | true =>
      exact ⟨.errAlready, k.pk, k.sk, keystoreProvision_writen writen env _ _ _, by decide, by decide⟩
  | false =>
      have provision := keystoreProvision_eq writen env pkB64 skB64 deviceId
      cases request : requestedRecord pkB64 skB64 deviceId with
      | error status =>
          simp only [request] at provision
          obtain ⟨pk, sk, eq⟩ := provision
          obtain rfl | rfl := requestedRecord_error request
          · exact ⟨_, pk, sk, eq, by decide, by decide⟩
          · exact ⟨_, pk, sk, eq, by decide, by decide⟩
      | ok r =>
          obtain set | unnamed := nothing
          · rw [writen] at set
            cases set
          · exact absurd (requestedRecord_ok_iff.mp request) (unnamed r)

/-- Provisioning succeeds only on an unprovisioned board, for strings that name a
    record, with flash that works. -/
theorem keystoreProvision_ok {k k' : Keystore} {env : FlashEnv} {pkB64 skB64 deviceId : Bytes}
    (accepted : keystoreProvision k env pkB64 skB64 deviceId = .done (.ok, k')) :
    ∃ r, Names pkB64 skB64 deviceId r ∧ storageWriten k.store.flash = false ∧ env = ⟨.ok, .ok⟩ ∧
      k'.store.flash = committed k.store.flash r (drawn k.store.rng) ∧
      k'.store.rng = afterDraw k.store.rng ∧ k'.cacheValid = false := by
  by_cases named : storageWriten k.store.flash = false ∧ ∃ r, Names pkB64 skB64 deviceId r
  · obtain ⟨unset, r, names⟩ := named
    obtain ⟨payload, boxWrite, eq⟩ := keystoreProvision_names unset names env
    rw [eq] at accepted
    refine ⟨r, names, unset, ?_⟩
    have ends := written k.store.flash env (stagedImage r.payload (drawn k.store.rng)).bytes
    revert ends accepted
    generalize eraseThenProgram _ _ _ = w
    intro accepted ends
    cases ends with
    | eraseCut reached => simp [Outcome.map] at accepted
    | eraseFailed => simp [Outcome.map] at accepted
    | programCut n => simp [Outcome.map] at accepted
    | programFailed => simp [Outcome.map] at accepted
    | ok =>
        simp only [Outcome.map, Keystore.afterWrite_true, Outcome.done.injEq, Prod.mk.injEq,
          true_and] at accepted
        rw [← accepted]
        exact ⟨rfl, rfl, rfl, rfl⟩
  · rw [not_and_or, Bool.not_eq_false, not_exists] at named
    obtain ⟨status, pk, sk, eq, refused, -⟩ := keystoreProvision_refused named env
    rw [eq] at accepted
    simp only [Outcome.done.injEq, Prod.mk.injEq] at accepted
    exact absurd accepted.1 refused

theorem keystoreProvision_accepts {k : Keystore} {pkB64 skB64 deviceId : Bytes} {r : Record}
    (unset : storageWriten k.store.flash = false) (names : Names pkB64 skB64 deviceId r) :
    ∃ k', keystoreProvision k ⟨.ok, .ok⟩ pkB64 skB64 deviceId = .done (.ok, k') := by
  obtain ⟨payload, boxWrite, eq⟩ := keystoreProvision_names unset names ⟨.ok, .ok⟩
  exact ⟨_, eq⟩

/-- Strings name at most one record. -/
theorem Names.unique {pkB64 skB64 deviceId : Bytes} {r r' : Record}
    (names : Names pkB64 skB64 deviceId r) (names' : Names pkB64 skB64 deviceId r') : r = r' := by
  have first := requestedRecord_ok_iff.mpr names
  rw [requestedRecord_ok_iff.mpr names', Except.ok.injEq] at first
  exact first.symm

theorem readsBack_of_provision {k k' : Keystore} {env : FlashEnv} {pkB64 skB64 deviceId : Bytes}
    {r : Record} (accepted : keystoreProvision k env pkB64 skB64 deviceId = .done (.ok, k'))
    (names : Names pkB64 skB64 deviceId r) : ReadsBack k' r := by
  obtain ⟨r', names', -, -, flash, -, invalid⟩ := keystoreProvision_ok accepted
  obtain rfl := names.unique names'
  rw [readsBack_iff (.of_invalid invalid), flash]
  exact ⟨storageWriten_committed _ _ _, storedRecord_committed _ _ _⟩

def samplePk : Bytes := (List.range 32).map fun i => UInt8.ofNat (i + 100)

def sampleSeed : Bytes := (List.range 32).map fun i => UInt8.ofNat (i + 1)

def sampleId : Bytes := ascii "unit-1"

def sampleRecord : Record where
  pk := ⟨samplePk, rfl⟩
  sk := ⟨sampleSeed ++ samplePk, rfl⟩
  deviceId := sampleId
  valid := by decide

/-- The seed alone is a valid secret key field. -/
theorem sample_names :
    Names (base64Encode samplePk) (base64Encode sampleSeed) sampleId sampleRecord where
  pk := b64Bytes_encode (by decide) (by decide)
  sk := ⟨sampleSeed, rfl, rfl, .inl (b64Bytes_encode (by decide) (by decide))⟩
  deviceId := rfl

/-- The entropy of a board on which nothing answers. -/
def silent : Entropy := ⟨none, List.replicate 8 0, 0, fun _ => none⟩

/-- A board as it leaves the factory. -/
def blankKeystore : Keystore := .boot (fun _ => 0xFF) silent

theorem blankKeystore_unset : storageWriten blankKeystore.store.flash = false := by decide

/-- What may happen to a keystore that is only read. -/
inductive KeystoreCall where
  | reboot (entropy : Entropy)
  | state
  | signingKey (sk64 : Region 64)
  | deviceId {n : Nat} (out : Region n) (cap : Nat)
  | publicKey (pk : Region 32)

def KeystoreCall.step (k : Keystore) : KeystoreCall → Keystore
  | .reboot entropy => .boot k.store.flash entropy
  | .state => (keystoreState k).2
  | .signingKey sk64 => (keystoreSigningKey k sk64).2.2
  | .deviceId out cap => (keystoreDeviceId k out cap).2.2
  | .publicKey pk => (keystorePublicKey k pk).2.2

/-- A call leaves flash as it is and the cache coherent. -/
theorem KeystoreCall.step_spec {k : Keystore} (coherent : Coherent k) (call : KeystoreCall) :
    (call.step k).store.flash = k.store.flash ∧ Coherent (call.step k) := by
  have load := keystoreLoad_quiet k
  cases call with
  | reboot entropy => exact ⟨rfl, coherent_boot _ _⟩
  | state => exact ⟨(keystoreState_quiet k).flash, (keystoreState_quiet k).coherent coherent⟩
  | signingKey sk64 =>
      rw [step, keystoreSigningKey_after]
      exact ⟨load.flash, load.coherent coherent⟩
  | deviceId out cap =>
      rw [step, keystoreDeviceId_after]
      exact ⟨load.flash, load.coherent coherent⟩
  | publicKey pk =>
      rw [step, keystorePublicKey_after]
      exact ⟨load.flash, load.coherent coherent⟩

/-- After an accepted provisioning, whatever is read and however often the board
    is rebooted, the record of the request is what is read back. -/
theorem keystoreProvision_readback {k k' : Keystore} {env : FlashEnv}
    {pkB64 skB64 deviceId : Bytes}
    (accepted : keystoreProvision k env pkB64 skB64 deviceId = .done (.ok, k'))
    (calls : List KeystoreCall) :
    ∃ r, Names pkB64 skB64 deviceId r ∧ ReadsBack (Runs.run KeystoreCall.step k' calls) r ∧
      ∀ pk : Region STORAGE_KEY_LEN,
        (storageX25519Pk (Runs.run KeystoreCall.step k' calls).store.flash pk).1 = true ∧
        (storageX25519Pk (Runs.run KeystoreCall.step k' calls).store.flash pk).2.bytes =
          (cryptoBoxKeypair k.store.rng).1 := by
  obtain ⟨r, names, -, -, flash, -, invalid⟩ := keystoreProvision_ok accepted
  let Kept (s : Keystore) : Prop := s.store.flash = k'.store.flash ∧ Coherent s
  have step : ∀ (s : Keystore) (call : KeystoreCall), Kept s → Kept (call.step s) :=
    fun s call kept => ⟨(call.step_spec kept.2).1.trans kept.1, (call.step_spec kept.2).2⟩
  have kept : Kept (Runs.run KeystoreCall.step k' calls) :=
    Runs.run_invariant Kept ⟨rfl, .of_invalid invalid⟩ calls fun s call _ => step s call
  refine ⟨r, names, ?_, fun pk => ?_⟩
  · rw [readsBack_iff kept.2, kept.1, flash]
    exact ⟨storageWriten_committed _ _ _, storedRecord_committed _ _ _⟩
  · rw [kept.1, flash, storageX25519Pk_committed]
    exact ⟨rfl, (Region.store_whole _ _ (drawn k.store.rng).pk_size).trans (drawn_pk _)⟩

/-- On a blank board, read after a reboot. -/
theorem keystoreProvision_readback_blank :
    ∃ k', keystoreProvision blankKeystore ⟨.ok, .ok⟩ (base64Encode samplePk)
        (base64Encode sampleSeed) sampleId = .done (.ok, k') ∧
      ∃ r, Names (base64Encode samplePk) (base64Encode sampleSeed) sampleId r ∧
        ReadsBack (Runs.run KeystoreCall.step k' [.reboot silent, .state]) r ∧
        ∀ pk : Region STORAGE_KEY_LEN,
          (storageX25519Pk (Runs.run KeystoreCall.step k' [.reboot silent, .state]).store.flash pk).1 =
            true ∧
          (storageX25519Pk
              (Runs.run KeystoreCall.step k' [.reboot silent, .state]).store.flash pk).2.bytes =
            (cryptoBoxKeypair blankKeystore.store.rng).1 := by
  obtain ⟨k', accepted⟩ := keystoreProvision_accepts blankKeystore_unset sample_names
  exact ⟨k', accepted, keystoreProvision_readback accepted [.reboot silent, .state]⟩

end Roman
