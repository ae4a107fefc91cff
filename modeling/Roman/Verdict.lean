import Roman.Provisioning

/-! # The verdicts of keystore_provision

Six results partition all requests. Which one is returned depends on the marker,
on the form of the three strings, on the pair and on the two flash operations, in
that order; only the last two steps touch flash, the cache or the generator.
-/

namespace Roman

open CMem CStr NorFlash TweetNacl Base64

theorem b64Bytes_eq_some_iff {cap : Nat} {s b : Bytes} :
    b64Bytes cap s = some b ↔ b ≠ [] ∧ b.length ≤ cap ∧ s = base64Encode b := by
  constructor
  · intro bytes
    obtain ⟨m, accepted, rfl⟩ := Option.map_eq_some_iff.mp bytes
    obtain ⟨b, nonempty, rfl, rfl, bound, stored⟩ := recordB64Decode_sound (Nat.le_refl cap) accepted
    have loaded : (recordB64Decode (base64Encode b) (Region.fill cap 0) cap).2.load 0 b.length = b := by
      rw [stored]
      apply Region.load_store
      omega
    rw [loaded]
    exact ⟨nonempty, bound, rfl⟩
  · rintro ⟨nonempty, fits, rfl⟩
    exact b64Bytes_encode nonempty fits

theorem b64Bytes_of_pos {cap : Nat} {b : Bytes} (pos : 0 < b.length) (fits : b.length ≤ cap) :
    b64Bytes cap (base64Encode b) = some b :=
  b64Bytes_encode (List.length_pos_iff.mp pos) fits

/-- What the device id must look like. -/
def IdRule (deviceId : Bytes) : Prop :=
  1 ≤ deviceId.length ∧ deviceId.length ≤ RECORD_MAX_DEVICE_ID ∧ ∀ c ∈ deviceId, deviceIdChar c = true

theorem idRule_iff {deviceId : Bytes} : recordDeviceIdValid deviceId = true ↔ IdRule deviceId := by
  rw [recordDeviceIdValid_iff, IdRule, List.all_eq_true]

/-- Each string has the form its field needs. -/
structure FieldsFormed (pkB64 skB64 deviceId : Bytes) : Prop where
  deviceId : IdRule deviceId
  pk : ∃ pk, pk.length = 32 ∧ pkB64 = base64Encode pk
  sk : ∃ sk, (sk.length = 32 ∨ sk.length = 64) ∧ skB64 = base64Encode sk

/-- A secret key with its own public half, and that is not the public key sent. -/
def Mismatched (pkB64 skB64 : Bytes) : Prop :=
  ∃ pk sk, pkB64 = base64Encode pk ∧ skB64 = base64Encode sk ∧ sk.length = 64 ∧ sk.drop 32 ≠ pk

theorem Names.formed {pkB64 skB64 deviceId : Bytes} {r : Record}
    (names : Names pkB64 skB64 deviceId r) : FieldsFormed pkB64 skB64 deviceId := by
  obtain ⟨pk, ⟨seed, size, -, sk⟩, rfl⟩ := names
  refine ⟨idRule_iff.mp r.valid, ⟨_, r.pk.size, (b64Bytes_eq_some_iff.mp pk).2.2⟩, ?_⟩
  rcases sk with bare | full
  · exact ⟨seed, .inl size, (b64Bytes_eq_some_iff.mp bare).2.2⟩
  · refine ⟨_, .inr ?_, (b64Bytes_eq_some_iff.mp full).2.2⟩
    rw [List.length_append, size, r.pk.size]

theorem Names.not_mismatched {pkB64 skB64 deviceId : Bytes} {r : Record}
    (names : Names pkB64 skB64 deviceId r) : ¬ Mismatched pkB64 skB64 := by
  rintro ⟨pk, sk, pkText, skText, size, differ⟩
  obtain ⟨pkBytes, ⟨seed, seedSize, -, skBytes⟩, -⟩ := names
  have samePk : pk = r.pk.bytes :=
    base64Encode_injective (pkText.symm.trans (b64Bytes_eq_some_iff.mp pkBytes).2.2)
  rcases skBytes with bare | full
  · have same : sk = seed := base64Encode_injective (skText.symm.trans (b64Bytes_eq_some_iff.mp bare).2.2)
    rw [same, seedSize] at size
    cases size
  · have same : sk = seed ++ r.pk.bytes :=
      base64Encode_injective (skText.symm.trans (b64Bytes_eq_some_iff.mp full).2.2)
    apply differ
    rw [same, samePk, List.drop_left' seedSize]

/-- A request of the right form names a record, unless the pair does not match. -/
theorem FieldsFormed.names {pkB64 skB64 deviceId : Bytes} (form : FieldsFormed pkB64 skB64 deviceId)
    (pair : ¬ Mismatched pkB64 skB64) : ∃ r, Names pkB64 skB64 deviceId r := by
  obtain ⟨id, ⟨pk, pkSize, rfl⟩, sk, skSize, rfl⟩ := form
  have pkBytes : b64Bytes 32 (base64Encode pk) = some pk := b64Bytes_of_pos (by omega) (by omega)
  have skBytes : b64Bytes 64 (base64Encode sk) = some sk := b64Bytes_of_pos (by omega) (by omega)
  have valid := idRule_iff.mpr id
  rcases skSize with seed | full
  · have size : (sk ++ pk).length = 64 := by rw [List.length_append, seed, pkSize]
    exact ⟨⟨⟨pk, pkSize⟩, ⟨sk ++ pk, size⟩, deviceId, valid⟩, pkBytes, ⟨sk, seed, rfl, .inl skBytes⟩, rfl⟩
  · have half : sk.drop 32 = pk := by
      by_contra differ
      exact pair ⟨pk, sk, rfl, rfl, full, differ⟩
    have parts : sk = sk.take 32 ++ pk := by rw [← half, List.take_append_drop]
    refine ⟨⟨⟨pk, pkSize⟩, ⟨sk, full⟩, deviceId, valid⟩, pkBytes, ⟨sk.take 32, ?_, parts, .inr ?_⟩, rfl⟩
    · rw [List.length_take, full]
      rfl
    · rw [skBytes, ← parts]

/-- Of the two refusals ARG is about the form and MISMATCH about the pair. -/
theorem requestedRecord_refused {pkB64 skB64 deviceId : Bytes} {status : KeystoreStatus}
    (refused : requestedRecord pkB64 skB64 deviceId = .error status) :
    (status = .errArg ∧ ¬ FieldsFormed pkB64 skB64 deviceId) ∨
      (status = .errMismatch ∧ FieldsFormed pkB64 skB64 deviceId ∧ Mismatched pkB64 skB64) := by
  have formed : ∀ {pk sk : Bytes}, b64Bytes 32 pkB64 = some pk → b64Bytes 64 skB64 = some sk →
      FieldsFormed pkB64 skB64 deviceId → pk.length = 32 ∧ (sk.length = 32 ∨ sk.length = 64) := by
    rintro pk sk pkBytes skBytes ⟨-, ⟨pk', pkSize, pkText⟩, sk', skSize, skText⟩
    have samePk := base64Encode_injective (pkText.symm.trans (b64Bytes_eq_some_iff.mp pkBytes).2.2)
    have sameSk := base64Encode_injective (skText.symm.trans (b64Bytes_eq_some_iff.mp skBytes).2.2)
    subst samePk sameSk
    exact ⟨pkSize, skSize⟩
  simp only [requestedRecord] at refused
  split at refused
  · rename_i valid
    split at refused
    · rename_i pk sk pkBytes skBytes
      split at refused
      · rename_i pkSize
        split at refused
        · cases refused
        · rename_i notSeed
          split at refused
          · rename_i full
            split at refused
            · cases refused
            · rename_i differ
              have pkText := (b64Bytes_eq_some_iff.mp pkBytes).2.2
              have skText := (b64Bytes_eq_some_iff.mp skBytes).2.2
              have form : FieldsFormed pkB64 skB64 deviceId :=
                ⟨idRule_iff.mp valid, ⟨pk, pkSize, pkText⟩, sk, .inr full, skText⟩
              exact .inr ⟨(Except.error.inj refused).symm, form, pk, sk, pkText, skText, full, differ⟩
          · rename_i notFull
            refine .inl ⟨(Except.error.inj refused).symm, fun form => ?_⟩
            rcases (formed pkBytes skBytes form).2 with size | size
            · exact notSeed size
            · exact notFull size
      · rename_i other
        exact .inl ⟨(Except.error.inj refused).symm, fun form => other (formed pkBytes skBytes form).1⟩
    · rename_i missing
      refine .inl ⟨(Except.error.inj refused).symm, ?_⟩
      rintro ⟨-, ⟨pk, pkSize, rfl⟩, sk, skSize, rfl⟩
      exact missing pk sk (b64Bytes_of_pos (by omega) (by omega)) (b64Bytes_of_pos (by omega) (by omega))
  · rename_i invalid
    exact .inl ⟨(Except.error.inj refused).symm, fun form => invalid (idRule_iff.mpr form.deviceId)⟩

/-- What `flash_safe_execute` reports for the erase and for the program. -/
def flashReports (erased programmed : Bool) : FlashEnv :=
  ⟨if erased then .ok else .fail, if programmed then .ok else .fail⟩

/-- The result a request deserves, read off the marker, the request and the flash operations. -/
inductive Verdict (marked : Bool) (pkB64 skB64 deviceId : Bytes) (erased programmed : Bool) :
    KeystoreStatus → Prop where
  | already (set : marked = true) : Verdict marked pkB64 skB64 deviceId erased programmed .errAlready
  | arg (unset : marked = false) (form : ¬ FieldsFormed pkB64 skB64 deviceId) :
      Verdict marked pkB64 skB64 deviceId erased programmed .errArg
  | mismatch (unset : marked = false) (form : FieldsFormed pkB64 skB64 deviceId)
      (pair : Mismatched pkB64 skB64) :
      Verdict marked pkB64 skB64 deviceId erased programmed .errMismatch
  | flash (unset : marked = false) (form : FieldsFormed pkB64 skB64 deviceId)
      (pair : ¬ Mismatched pkB64 skB64) (failed : ¬ (erased = true ∧ programmed = true)) :
      Verdict marked pkB64 skB64 deviceId erased programmed .errFlash
  | ok (unset : marked = false) (form : FieldsFormed pkB64 skB64 deviceId)
      (pair : ¬ Mismatched pkB64 skB64) (through : erased = true ∧ programmed = true) :
      Verdict marked pkB64 skB64 deviceId erased programmed .ok

/-- What a call leaves: the store as it was with the cache, an unmarked flash, or the record. -/
inductive Leaves (k k' : Keystore) : KeystoreStatus → Prop where
  | refused {status : KeystoreStatus} (answer : status ≠ .ok ∧ status ≠ .errFlash)
      (store : k'.store = k.store) (cache : SameCache k k') : Leaves k k' status
  | failed (unset : storageWriten k'.store.flash = false) : Leaves k k' .errFlash
  | installed {r : Record} (stored : ReadsBack k' r) (pair : r.sk.bytes.drop 32 = r.pk.bytes) :
      Leaves k k' .ok

theorem Names.pair {pkB64 skB64 deviceId : Bytes} {r : Record}
    (names : Names pkB64 skB64 deviceId r) : r.sk.bytes.drop 32 = r.pk.bytes := by
  obtain ⟨-, ⟨seed, size, sk, -⟩, -⟩ := names
  rw [sk, List.drop_left' size]

theorem keystoreProvision_verdict (k : Keystore) (erased programmed : Bool)
    (pkB64 skB64 deviceId : Bytes) :
    ∃ status k', keystoreProvision k (flashReports erased programmed) pkB64 skB64 deviceId =
        .done (status, k') ∧
      Verdict (keystoreWriten k) pkB64 skB64 deviceId erased programmed status ∧ Leaves k k' status := by
  let env := flashReports erased programmed
  cases marked : keystoreWriten k with
  | true =>
      refine ⟨.errAlready, k, keystoreProvision_writen marked env _ _ _, .already rfl, ?_⟩
      exact .refused ⟨nofun, nofun⟩ rfl ⟨rfl, rfl, rfl, rfl⟩
  | false =>
      cases request : requestedRecord pkB64 skB64 deviceId with
      | error status =>
          have provision := keystoreProvision_eq marked env pkB64 skB64 deviceId
          simp only [request] at provision
          obtain ⟨pk, sk, done⟩ := provision
          refine ⟨status, _, done, ?_⟩
          rcases requestedRecord_refused request with ⟨rfl, form⟩ | ⟨rfl, form, pair⟩
          · exact ⟨.arg rfl form, .refused ⟨nofun, nofun⟩ rfl ⟨rfl, rfl, rfl, rfl⟩⟩
          · exact ⟨.mismatch rfl form pair, .refused ⟨nofun, nofun⟩ rfl ⟨rfl, rfl, rfl, rfl⟩⟩
      | ok r =>
          have names := requestedRecord_ok_iff.mp request
          have form := names.formed
          have pair := names.not_mismatched
          obtain ⟨payload, boxWrite, done⟩ := keystoreProvision_names marked names env
          cases erased with
          | false =>
              refine ⟨.errFlash, _, done, .flash rfl form pair (by simp), .failed ?_⟩
              exact marked
          | true =>
              cases programmed with
              | false =>
                  refine ⟨.errFlash, _, done, .flash rfl form pair (by simp), .failed ?_⟩
                  exact storageWriten_blank (blank_erase _)
              | true =>
                  refine ⟨.ok, _, done, .ok rfl form pair ⟨rfl, rfl⟩, ?_⟩
                  exact .installed (readsBack_of_provision done names) names.pair

/-- `keystore_provision` decides exactly, over every keystore and every three
    strings, and fails cleanly. -/
theorem keystoreProvision_decides (k : Keystore) (erased programmed : Bool)
    (pkB64 skB64 deviceId : Bytes) :
    ∃ status k', keystoreProvision k (flashReports erased programmed) pkB64 skB64 deviceId =
        .done (status, k') ∧
      (status = .errAlready ↔ keystoreWriten k = true) ∧
      (keystoreWriten k = false →
        (status = .errArg ↔ ¬ IdRule deviceId ∨ (¬ ∃ pk, pk.length = 32 ∧ pkB64 = base64Encode pk) ∨
          ¬ ∃ sk, (sk.length = 32 ∨ sk.length = 64) ∧ skB64 = base64Encode sk) ∧
        (status ≠ .errArg → (status = .errMismatch ↔ ∃ pk sk, pkB64 = base64Encode pk ∧
          skB64 = base64Encode sk ∧ sk.length = 64 ∧ sk.drop 32 ≠ pk)) ∧
        (status ≠ .errArg → status ≠ .errMismatch →
          (status = .ok ↔ erased = true ∧ programmed = true) ∧
          (status = .errFlash ↔ erased = false ∨ programmed = false))) ∧
      (status ≠ .ok → status ≠ .errFlash → k'.store.flash = k.store.flash ∧
        k'.store.rng = k.store.rng ∧ SameCache k k') ∧
      (status = .errFlash → keystoreWriten k' = false) ∧
      (status = .ok → ∃ r, ReadsBack k' r ∧ r.sk.bytes.drop 32 = r.pk.bytes) := by
  obtain ⟨status, k', done, verdict, leaves⟩ :=
    keystoreProvision_verdict k erased programmed pkB64 skB64 deviceId
  have shape : (¬ IdRule deviceId ∨ (¬ ∃ pk, pk.length = 32 ∧ pkB64 = base64Encode pk) ∨
      ¬ ∃ sk, (sk.length = 32 ∨ sk.length = 64) ∧ skB64 = base64Encode sk) ↔
      ¬ FieldsFormed pkB64 skB64 deviceId := by
    rw [← not_and_or, ← not_and_or, not_iff_not]
    exact ⟨fun ⟨id, pk, sk⟩ => ⟨id, pk, sk⟩, fun ⟨id, pk, sk⟩ => ⟨id, pk, sk⟩⟩
  refine ⟨status, k', done, ?_, ?_, ?_⟩
  · cases verdict with
    | already set => exact iff_of_true rfl set
    | arg unset | mismatch unset | flash unset | ok unset =>
        exact iff_of_false nofun (by rw [unset]; nofun)
  · intro unset
    rw [shape, ← Mismatched]
    cases verdict with
    | already set => exact absurd set (by rw [unset]; nofun)
    | arg _ form => exact ⟨iff_of_true rfl form, fun other => absurd rfl other, fun other => absurd rfl other⟩
    | mismatch _ form pair =>
        exact ⟨iff_of_false nofun (not_not.mpr form), fun _ => iff_of_true rfl pair,
          fun _ other => absurd rfl other⟩
    | flash _ form pair failed =>
        refine ⟨iff_of_false nofun (not_not.mpr form), fun _ => iff_of_false nofun pair, fun _ _ => ?_⟩
        refine ⟨iff_of_false nofun failed, iff_of_true rfl ?_⟩
        rwa [not_and_or, Bool.not_eq_true, Bool.not_eq_true] at failed
    | ok _ form pair through =>
        refine ⟨iff_of_false nofun (not_not.mpr form), fun _ => iff_of_false nofun pair, fun _ _ => ?_⟩
        refine ⟨iff_of_true rfl through, iff_of_false nofun ?_⟩
        rw [through.1, through.2]
        nofun
  · cases leaves with
    | refused answer store cache =>
        exact ⟨fun _ _ => ⟨by rw [store], by rw [store], cache⟩, fun eq => absurd eq answer.2,
          fun eq => absurd eq answer.1⟩
    | failed unset => exact ⟨fun _ other => absurd rfl other, fun _ => unset, nofun⟩
    | installed stored pair => exact ⟨fun other => absurd rfl other, nofun, fun _ => ⟨_, stored, pair⟩⟩

end Roman
