import Roman.Erasing

/-! # Power cuts

A cut in `storage_write` cannot set the marker before everything in front of it
has landed, so what it leaves is an unprovisioned board or the whole record. A
cut in an erase has no such order: it may clear the record and leave the marker.
-/

namespace Roman

open CMem CStr NorFlash TweetNacl Base64

/-- An interrupted erase keeps the marker exactly if it reached none of its four bytes. -/
theorem storageWriten_erasePart (f : Flash) (reached : Nat → Bool) :
    storageWriten (erasePart FLASH_SECTOR_SIZE reached f) = true ↔
      storageWriten f = true ∧ ∀ i < 4, reached (STORAGE_MARKER_OFF + i) = false := by
  simp only [storageWriten, decide_eq_true_eq]
  exact marker_erasePart STORAGE_MARKER (by decide) storageMarker_solid

/-- Any keystore with this flash can be provisioned, and reads back what it was given. -/
def Provisionable (f : Flash) : Prop :=
  ∀ k : Keystore, k.store.flash = f → ∀ pkB64 skB64 deviceId r, Names pkB64 skB64 deviceId r →
    ∃ k', keystoreProvision k ⟨.ok, .ok⟩ pkB64 skB64 deviceId = .done (.ok, k') ∧ ReadsBack k' r

theorem provisionable_of_unset {f : Flash} (unset : storageWriten f = false) : Provisionable f := by
  rintro k rfl pkB64 skB64 deviceId r names
  obtain ⟨k', accepted⟩ := keystoreProvision_accepts unset names
  exact ⟨k', accepted, readsBack_of_provision accepted names⟩

/-- A request that is cut names a record, and flash is where its write was cut. -/
theorem keystoreProvision_cut {k : Keystore} {env : FlashEnv} {pkB64 skB64 deviceId : Bytes}
    {f : Flash} (cut : keystoreProvision k env pkB64 skB64 deviceId = .cut f) :
    ∃ r, Names pkB64 skB64 deviceId r ∧ storageWriten k.store.flash = false ∧
      eraseThenProgram k.store.flash env (stagedImage r.payload (drawn k.store.rng)).bytes =
        .cut f := by
  by_cases named : storageWriten k.store.flash = false ∧ ∃ r, Names pkB64 skB64 deviceId r
  · obtain ⟨unset, r, names⟩ := named
    obtain ⟨payload, boxWrite, eq⟩ := keystoreProvision_names unset names env
    rw [eq] at cut
    refine ⟨r, names, unset, ?_⟩
    cases ends : eraseThenProgram _ _ _ with
    | done w => simp [ends, Outcome.map] at cut
    | cut g => simpa [ends, Outcome.map] using cut
  · rw [not_and_or, Bool.not_eq_false, not_exists] at named
    obtain ⟨status, pk, sk, eq, -⟩ := keystoreProvision_refused named env
    rw [eq] at cut
    cases cut

/-- Where a write is cut, in the erase, between the two operations or in the
    program: the board is unprovisioned and can be provisioned again, or the
    record of the request is complete. -/
theorem keystoreProvision_atomic {k : Keystore} {env : FlashEnv} {pkB64 skB64 deviceId : Bytes}
    {f : Flash} (cut : keystoreProvision k env pkB64 skB64 deviceId = .cut f) :
    ∃ r, Names pkB64 skB64 deviceId r ∧
      ((storageWriten f = false ∧ Provisionable f) ∨
        (storageWriten f = true ∧ ∀ (entropy : Entropy) (dst : Region STORAGE_MAX_PAYLOAD),
          (storageRead (.boot f entropy) dst STORAGE_MAX_PAYLOAD).1 = r.payload.length ∧
          (storageRead (.boot f entropy) dst STORAGE_MAX_PAYLOAD).2.1.load 0 r.payload.length =
            r.payload)) := by
  obtain ⟨r, names, unset, ends⟩ := keystoreProvision_cut cut
  refine ⟨r, names, ?_⟩
  have cases := written k.store.flash env (stagedImage r.payload (drawn k.store.rng)).bytes
  rw [ends] at cases
  cases cases with
  | eraseCut reached =>
      have still : storageWriten (erasePart FLASH_SECTOR_SIZE reached k.store.flash) = false := by
        rw [← Bool.not_eq_true, storageWriten_erasePart, unset]
        simp
      exact .inl ⟨still, provisionable_of_unset still⟩
  | programCut n =>
      have blank := blank_erase k.store.flash
      have marker := storageWriten_image (d := drawn k.store.rng) (k := n) blank r.payload_small
      by_cases landed : 508 ≤ n
      · have payload := sectionPayload_image (d := drawn k.store.rng) (k := n) blank r.payload_pos
          r.payload_small (by
            have := r.payload_small
            simp only [STORAGE_SECTION_OFF, STORAGE_BOX_OVERHEAD]
            omega)
        refine .inr ⟨marker.mpr landed, fun entropy dst => ?_⟩
        generalize programPart _ n _ = torn at payload ⊢
        obtain ⟨size, region⟩ := storageRead_some (s := .boot torn entropy) dst
          (Nat.le_refl _) payload
        rw [size, region]
        exact ⟨rfl, Region.load_store _ 0 _ (by rw [Nat.zero_add]; exact r.payload_small)⟩
      · have still := (Bool.not_eq_true _).mp (fun set => landed (marker.mp set))
        exact .inl ⟨still, provisionable_of_unset still⟩

/-- Cut in the middle of the program on a blank board. -/
theorem keystoreProvision_atomic_blank :
    ∃ f, keystoreProvision blankKeystore ⟨.ok, .cut 300⟩ (base64Encode samplePk)
        (base64Encode sampleSeed) sampleId = .cut f ∧
      ∃ r, Names (base64Encode samplePk) (base64Encode sampleSeed) sampleId r ∧
        ((storageWriten f = false ∧ Provisionable f) ∨
          (storageWriten f = true ∧ ∀ (entropy : Entropy) (dst : Region STORAGE_MAX_PAYLOAD),
            (storageRead (.boot f entropy) dst STORAGE_MAX_PAYLOAD).1 = r.payload.length ∧
            (storageRead (.boot f entropy) dst STORAGE_MAX_PAYLOAD).2.1.load 0 r.payload.length =
              r.payload)) := by
  obtain ⟨payload, boxWrite, eq⟩ :=
    keystoreProvision_names blankKeystore_unset sample_names ⟨.ok, .cut 300⟩
  exact ⟨_, eq, keystoreProvision_atomic eq⟩

/-- The board can go on through `/write` or `/clear`: it is unprovisioned and
    takes a record, or the old record is there and its key erases it. It is not
    in the state in which both are refused. -/
structure Recoverable (k : Keystore) (r : Record) : Prop where
  notCorrupt : (keystoreState k).1 ≠ .corrupt
  usable : (keystoreWriten k = false ∧ Provisionable k.store.flash) ∨
    (ReadsBack k r ∧ ∀ key, OpensErase r key → ∃ k', keystoreClear k .ok key = .done (.ok, k'))

/-- The partly erased section still opens to this record, under what is left of
    the nonce and the keys, and magic and length are whole. -/
def StillOpens (f : Flash) (reached : Nat → Bool) (r : Record) : Prop :=
  (∀ a < 8, reached a = false) ∧
    (openSection (erasePart FLASH_SECTOR_SIZE reached f) (storedLen f)).bind decoded = some r

/-- A length field with an erased byte is out of range. -/
theorem storedLen_erasePart {f : Flash} {reached : Nat → Bool}
    (available : storageAvailable (erasePart FLASH_SECTOR_SIZE reached f) = true) :
    ∀ i < 4, reached (STORAGE_MAGIC_LEN + i) = false := by
  obtain ⟨-, small⟩ := storageAvailable_len available
  intro i inside
  by_contra hit
  have ones : erasePart FLASH_SECTOR_SIZE reached f (STORAGE_MAGIC_LEN + i) = 0xFF :=
    erasePart_of_done (by simp only [STORAGE_MAGIC_LEN, FLASH_SECTOR_SIZE]; omega)
      ((Bool.not_eq_false _).mp hit)
  let g := erasePart FLASH_SECTOR_SIZE reached f
  have bytes : read g STORAGE_MAGIC_LEN 4 = [g 4, g 5, g 6, g 7] := rfl
  simp only [storedLen, STORAGE_MAX_PAYLOAD] at small
  rw [bytes, ld32_toNat] at small
  obtain rfl | rfl | rfl | rfl : i = 0 ∨ i = 1 ∨ i = 2 ∨ i = 3 := by omega
  all_goals
    simp only [STORAGE_MAGIC_LEN, Nat.reduceAdd] at ones
    have value : (0xFF : UInt8).toNat = 255 := rfl
    simp only [g, ones, value] at small
    omega

theorem stillOpens_iff {f : Flash} {r : Record} (stored : storedRecord f = some r)
    (reached : Nat → Bool) :
    storedRecord (erasePart FLASH_SECTOR_SIZE reached f) = some r ↔ StillOpens f reached r := by
  have header : ∀ off len : Nat, (∀ i < len, reached (off + i) = false) →
      read (erasePart FLASH_SECTOR_SIZE reached f) off len = read f off len := fun _ _ kept =>
    read_eq_iff.mpr fun i small => erasePart_of_not_done (kept i small)
  have availableOld : storageAvailable f = true := by
    by_contra unavailable
    simp only [storedRecord, sectionPayload, unavailable, if_false, Option.bind_none] at stored
    cases stored
  constructor
  · intro still
    have available : storageAvailable (erasePart FLASH_SECTOR_SIZE reached f) = true := by
      by_contra unavailable
      simp only [storedRecord, sectionPayload, unavailable, if_false, Option.bind_none] at still
      cases still
    have lenKept := storedLen_erasePart available
    have magicKept : ∀ i < 4, reached (0 + i) = false := by
      have magic : read (erasePart FLASH_SECTOR_SIZE reached f) 0 STORAGE_MAGIC_LEN =
          STORAGE_MAGIC := by
        by_contra other
        rw [storageAvailable, if_pos other] at available
        cases available
      exact ((marker_erasePart STORAGE_MAGIC (by decide) storageMagic_solid).mp magic).2
    refine ⟨fun a small => ?_, ?_⟩
    · by_cases first : a < 4
      · simpa using magicKept a first
      · have kept := lenKept (a - 4) (by omega)
        rwa [STORAGE_MAGIC_LEN, show 4 + (a - 4) = a by omega] at kept
    · have len : storedLen (erasePart FLASH_SECTOR_SIZE reached f) = storedLen f := by
        rw [storedLen, storedLen, header _ _ lenKept]
      rw [storedRecord, sectionPayload, available, if_pos rfl, len] at still
      exact still
  · rintro ⟨kept, opens⟩
    have magic := header 0 STORAGE_MAGIC_LEN
      (fun i small => by simpa using kept i (by simp only [STORAGE_MAGIC_LEN] at small; omega))
    have len : storedLen (erasePart FLASH_SECTOR_SIZE reached f) = storedLen f := by
      rw [storedLen, storedLen, header _ _ fun i small =>
        kept _ (by simp only [STORAGE_MAGIC_LEN]; omega)]
    have available : storageAvailable (erasePart FLASH_SECTOR_SIZE reached f) = true := by
      rw [storageAvailable, magic, len]
      exact availableOld
    rw [storedRecord, sectionPayload, available, if_pos rfl, len]
    exact opens

/-- After an erase that was cut, the board can go on exactly if the erase had
    reached the marker or the record still opens. -/
theorem recoverable_boot_iff {f : Flash} {r : Record} (set : storageWriten f = true)
    (reached : Nat → Bool) (entropy : Entropy) :
    Recoverable (.boot (erasePart FLASH_SECTOR_SIZE reached f) entropy) r ↔
      (∃ i < 4, reached (STORAGE_MARKER_OFF + i) = true) ∨
        storedRecord (erasePart FLASH_SECTOR_SIZE reached f) = some r := by
  let f' := erasePart FLASH_SECTOR_SIZE reached f
  let k : Keystore := .boot f' entropy
  have coherent : Coherent k := coherent_boot f' entropy
  have marker := storageWriten_erasePart f reached
  have state := keystoreState_spec coherent
  constructor
  · rintro ⟨-, ⟨unset, -⟩ | ⟨reads, -⟩⟩
    · left
      by_contra none
      have kept : ∀ i < 4, reached (STORAGE_MARKER_OFF + i) = false := fun i small =>
        (Bool.not_eq_true _).mp fun hit => none ⟨i, small, hit⟩
      have still : keystoreWriten k = true := marker.mpr ⟨set, kept⟩
      rw [unset] at still
      cases still
    · exact .inr ((readsBack_iff coherent r).mp reads).2
  · intro condition
    cases writen : storageWriten f' with
    | false =>
        refine ⟨?_, .inl ⟨writen, provisionable_of_unset writen⟩⟩
        rw [state, show storageWriten k.store.flash = false from writen]
        simp
    | true =>
        have stored : storedRecord f' = some r := by
          obtain ⟨i, small, hit⟩ | stored := condition
          · have kept := (marker.mp writen).2 i small
            rw [hit] at kept
            cases kept
          · exact stored
        have reads : ReadsBack k r := (readsBack_iff coherent r).mpr ⟨writen, stored⟩
        refine ⟨by rw [reads.state]; decide, .inr ⟨reads, fun key opens => ?_⟩⟩
        obtain ⟨k', -, erases, -⟩ := keystoreClear_eq coherent writen stored key
        rw [erases opens .ok]
        exact ⟨_, rfl⟩

/-- The erase of `keystore_clear`, or of `storage_clear` called by the debug route, was cut. -/
def EraseCut (k : Keystore) (reached : Nat → Bool) (f : Flash) : Prop :=
  (∃ key, keystoreClear k (.cut reached) key = .cut f) ∨
    storageClear k.store (.cut reached) = .cut f

theorem eraseCut_flash {k : Keystore} {reached : Nat → Bool} {f : Flash}
    (cut : EraseCut k reached f) : f = erasePart FLASH_SECTOR_SIZE reached k.store.flash := by
  obtain ⟨key, cut⟩ | cut := cut
  · simp only [keystoreClear, storageClear, (keystoreLoad_quiet k).flash, storageErase] at cut
    split at cut
    · cases cut
    · split at cut
      · cases cut
      · split at cut
        · cases cut
        · split at cut
          · cases cut
          · split at cut
            · cases cut
            · exact (Outcome.cut.inj cut).symm
  · exact (Outcome.cut.inj cut).symm

/-- A blank board with the sample record on it, freshly booted. -/
def sampleKeystore : Keystore :=
  .boot (committed (fun _ => 0xFF) sampleRecord (drawn (.boot silent))) silent

theorem sample_readsBack : ReadsBack sampleKeystore sampleRecord :=
  (readsBack_iff (coherent_boot _ _) sampleRecord).mpr
    ⟨storageWriten_committed _ _ _, storedRecord_committed _ _ _⟩

theorem sample_opensErase : OpensErase sampleRecord (base64Encode sampleSeed) :=
  .inl (b64Bytes_encode (by decide) (by decide))

theorem sample_eraseCut (reached : Nat → Bool) :
    EraseCut sampleKeystore reached (erasePart FLASH_SECTOR_SIZE reached sampleKeystore.store.flash) := by
  obtain ⟨set, stored⟩ := (readsBack_iff (coherent_boot _ _) _).mp sample_readsBack
  obtain ⟨k', -, erases, -⟩ := keystoreClear_eq (coherent_boot _ _) set stored (base64Encode sampleSeed)
  exact .inl ⟨_, erases sample_opensErase (.cut reached)⟩

/-- A power cut inside the erase of a provisioned board leaves it usable exactly
    if one of the four marker bytes was erased or the record still opens. -/
theorem eraseCut_recoverable_iff {k : Keystore} {r : Record}
    (set : storageWriten k.store.flash = true) (stored : storedRecord k.store.flash = some r)
    {reached : Nat → Bool} {f : Flash} (cut : EraseCut k reached f) (entropy : Entropy) :
    Recoverable (.boot f entropy) r ↔
      (∃ i < 4, reached (STORAGE_MARKER_OFF + i) = true) ∨ StillOpens k.store.flash reached r := by
  rw [eraseCut_flash cut, recoverable_boot_iff set, stillOpens_iff stored]

/-- An erase that had reached everything in front of the marker. -/
def markerLeft (a : Nat) : Bool := a < 504

theorem eraseCut_recoverable_iff_sample :
    Recoverable (.boot (erasePart FLASH_SECTOR_SIZE markerLeft sampleKeystore.store.flash) silent)
        sampleRecord ↔
      (∃ i < 4, markerLeft (STORAGE_MARKER_OFF + i) = true) ∨
        StillOpens sampleKeystore.store.flash markerLeft sampleRecord :=
  eraseCut_recoverable_iff (storageWriten_committed _ _ _) (storedRecord_committed _ _ _)
    (sample_eraseCut markerLeft) silent

/-- The marker survives a record that is gone: the board boots as corrupt. -/
theorem eraseCut_corrupt :
    ReadsBack sampleKeystore sampleRecord ∧
      ∃ f, EraseCut sampleKeystore markerLeft f ∧ (keystoreState (.boot f silent)).1 = .corrupt ∧
        ¬ Recoverable (.boot f silent) sampleRecord := by
  obtain ⟨set, stored⟩ := (readsBack_iff (coherent_boot _ _) _).mp sample_readsBack
  let f := erasePart FLASH_SECTOR_SIZE markerLeft sampleKeystore.store.flash
  have kept : ∀ i < 4, markerLeft (STORAGE_MARKER_OFF + i) = false := by decide
  have gone : storageAvailable f = false := by
    by_contra available
    have none := storedLen_erasePart ((Bool.not_eq_false _).mp available) 0 (by decide)
    exact absurd none (by decide)
  have unreadable : storedRecord f = none := by
    rw [storedRecord, sectionPayload, gone]
    rfl
  have writen : storageWriten f = true := (storageWriten_erasePart _ _).mpr ⟨set, kept⟩
  have corrupt : (keystoreState (.boot f silent)).1 = .corrupt := by
    rw [keystoreState_spec (coherent_boot f silent), show storageWriten (Keystore.boot f silent).store.flash = true from writen,
      show storedRecord (Keystore.boot f silent).store.flash = none from unreadable]
    rfl
  exact ⟨sample_readsBack, f, sample_eraseCut markerLeft, corrupt,
    fun recoverable => recoverable.notCorrupt corrupt⟩

end Roman
