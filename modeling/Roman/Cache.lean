import Roman.Keystore
import Roman.FlashRecord

/-! # The cache and what the getters return

A keystore is coherent if a valid cache holds the record in flash. Loading keeps
that, changes neither flash nor the generator, and from then on a coherent
keystore answers every getter from flash, as if there were no cache.
-/

namespace Roman

open CMem CStr NorFlash TweetNacl

/-- The cache holds this record. The id array is compared as a C string. -/
structure Holds (k : Keystore) (r : Record) : Prop where
  pk : k.cachedPk = r.pk
  sk : k.cachedSk = r.sk
  id : k.cachedId.cstr = r.deviceId

def Coherent (k : Keystore) : Prop :=
  k.cacheValid = true → ∃ r, storedRecord k.store.flash = some r ∧ Holds k r

theorem Coherent.of_invalid {k : Keystore} (invalid : k.cacheValid = false) : Coherent k := by
  intro valid
  rw [invalid] at valid
  cases valid

theorem Coherent.holds {k : Keystore} (coherent : Coherent k) (valid : k.cacheValid = true)
    {r : Record} (stored : storedRecord k.store.flash = some r) : Holds k r := by
  obtain ⟨r', stored', holds⟩ := coherent valid
  rw [stored, Option.some.injEq] at stored'
  exact stored' ▸ holds

/-- The four variables of the cache. -/
structure SameCache (k k' : Keystore) : Prop where
  valid : k'.cacheValid = k.cacheValid
  pk : k'.cachedPk = k.cachedPk
  sk : k'.cachedSk = k.cachedSk
  id : k'.cachedId = k.cachedId

theorem SameCache.symm {k k' : Keystore} (same : SameCache k k') : SameCache k' k :=
  ⟨same.valid.symm, same.pk.symm, same.sk.symm, same.id.symm⟩

/-- Coherence looks at flash and at the cache. -/
theorem Coherent.transport {k k' : Keystore} (coherent : Coherent k)
    (flash : k'.store.flash = k.store.flash) (cache : SameCache k k') : Coherent k' := by
  intro set
  obtain ⟨r, stored, holds⟩ := coherent (cache.valid ▸ set)
  exact ⟨r, flash ▸ stored, cache.pk ▸ holds.pk, cache.sk ▸ holds.sk, cache.id ▸ holds.id⟩

/-- The step from `k` to `k'` leaves flash and the generator alone, and makes the
    cache neither coherent nor incoherent. -/
structure Quiet (k k' : Keystore) : Prop where
  flash : k'.store.flash = k.store.flash
  rng : k'.store.rng = k.store.rng
  coherent_iff : Coherent k' ↔ Coherent k

theorem Quiet.coherent {k k' : Keystore} (quiet : Quiet k k') (coherent : Coherent k) : Coherent k' :=
  quiet.coherent_iff.mpr coherent

theorem Quiet.refl (k : Keystore) : Quiet k k := ⟨rfl, rfl, Iff.rfl⟩

theorem Quiet.trans {k k' k'' : Keystore} (first : Quiet k k') (second : Quiet k' k'') :
    Quiet k k'' :=
  ⟨second.flash.trans first.flash, second.rng.trans first.rng,
    second.coherent_iff.trans first.coherent_iff⟩

theorem Quiet.of_sameCache {k k' : Keystore} (flash : k'.store.flash = k.store.flash)
    (rng : k'.store.rng = k.store.rng) (cache : SameCache k k') : Quiet k k' :=
  ⟨flash, rng, fun after => after.transport flash.symm cache.symm,
    fun before => before.transport flash cache⟩

theorem Quiet.storedRecord {k k' : Keystore} (quiet : Quiet k k') :
    storedRecord k'.store.flash = storedRecord k.store.flash := by
  rw [quiet.flash]

/-- With the marker set the cache is coherent. Unlike coherence itself this holds
    in every state a board can reach. -/
def Settled (k : Keystore) : Prop := storageWriten k.store.flash = true → Coherent k

theorem Settled.of_unset {k : Keystore} (unset : storageWriten k.store.flash = false) : Settled k := by
  intro set
  rw [unset] at set
  cases set

theorem Quiet.settled {k k' : Keystore} (quiet : Quiet k k') (settled : Settled k) : Settled k' :=
  fun set => quiet.coherent (settled (quiet.flash ▸ set))

theorem coherent_boot (f : Flash) (e : Entropy) : Coherent (.boot f e) := .of_invalid rfl

theorem keystoreLoad_valid {k : Keystore} (valid : k.cacheValid = true) :
    keystoreLoad k = (true, k) := by
  rw [keystoreLoad, if_pos valid]

/-- With an invalid cache the record comes from flash, whatever the arrays held. -/
theorem keystoreLoad_invalid {k : Keystore} (invalid : k.cacheValid = false) :
    match storedRecord k.store.flash with
    | none => ∃ boxRead, keystoreLoad k = (false, { k with store := { k.store with boxRead } })
    | some r => ∃ boxRead cachedId, cachedId.cstr = r.deviceId ∧ keystoreLoad k =
        (true, { k with
          store := { k.store with boxRead }
          cachedPk := r.pk
          cachedSk := r.sk
          cachedId
          cacheValid := true }) := by
  obtain ⟨boxRead, readEq⟩ := storageRead_eq k.store (Region.fill STORAGE_MAX_PAYLOAD 0)
    (Nat.le_refl STORAGE_MAX_PAYLOAD)
  cases payload : sectionPayload k.store.flash with
  | none =>
      simp only [payload] at readEq
      simp only [storedRecord, payload, Option.bind_none]
      refine ⟨boxRead, ?_⟩
      simp only [keystoreLoad, invalid, Bool.false_eq_true, if_false, readEq, if_true]
  | some p =>
      obtain ⟨pos, small⟩ := sectionPayload_length payload
      simp only [payload] at readEq
      have loaded : ((Region.fill STORAGE_MAX_PAYLOAD 0).store 0 p).load 0 p.length = p :=
        Region.load_store _ 0 p (by omega)
      have decodeEq := recordDecode_eq p k.cachedPk k.cachedSk k.cachedId
      simp only [storedRecord, payload, Option.bind_some]
      cases record : decoded p with
      | none =>
          simp only [record] at decodeEq
          refine ⟨boxRead, ?_⟩
          simp only [keystoreLoad, invalid, Bool.false_eq_true, if_false, readEq,
            if_neg (by omega : ¬ p.length = 0), loaded, decodeEq, Option.getD_some, if_true]
      | some r =>
          simp only [record] at decodeEq
          refine ⟨boxRead, _, cstr_store_idField record k.cachedId, ?_⟩
          simp only [keystoreLoad, invalid, Bool.false_eq_true, if_false, readEq,
            if_neg (by omega : ¬ p.length = 0), loaded, decodeEq, Option.getD_some,
            Bool.true_eq_false]

/-- Loading reads flash and leaves it as it is, whatever the cache holds. -/
theorem keystoreLoad_quiet (k : Keystore) : Quiet k (keystoreLoad k).2 := by
  cases valid : k.cacheValid with
  | true =>
      rw [keystoreLoad_valid valid]
      exact Quiet.refl k
  | false =>
      have load := keystoreLoad_invalid valid
      cases stored : storedRecord k.store.flash with
      | none =>
          simp only [stored] at load
          obtain ⟨boxRead, eq⟩ := load
          rw [eq]
          exact ⟨rfl, rfl, iff_of_true (.of_invalid valid) (.of_invalid valid)⟩
      | some r =>
          simp only [stored] at load
          obtain ⟨boxRead, cachedId, id, eq⟩ := load
          rw [eq]
          exact ⟨rfl, rfl, iff_of_true (fun _ => ⟨r, stored, ⟨rfl, rfl, id⟩⟩) (.of_invalid valid)⟩

/-- What the getters answer from: a valid cache, or else flash. -/
inductive Serves (k : Keystore) : Option Record → Prop where
  | cached {r : Record} (valid : k.cacheValid = true) (holds : Holds k r) : Serves k (some r)
  | stored (invalid : k.cacheValid = false) : Serves k (storedRecord k.store.flash)

theorem Holds.unique {k : Keystore} {r r' : Record} (holds : Holds k r) (holds' : Holds k r') : r = r' := by
  have pk := holds.pk.symm.trans holds'.pk
  have sk := holds.sk.symm.trans holds'.sk
  have id := holds.id.symm.trans holds'.id
  cases r
  cases r'
  simp_all

theorem Serves.unique {k : Keystore} {o o' : Option Record} (serves : Serves k o) (serves' : Serves k o') :
    o = o' := by
  cases serves with
  | cached valid holds =>
      cases serves' with
      | cached valid' holds' => rw [holds.unique holds']
      | stored invalid =>
          rw [valid] at invalid
          cases invalid
  | stored invalid =>
      cases serves' with
      | cached valid holds =>
          rw [valid] at invalid
          cases invalid
      | stored invalid' => rfl

theorem Coherent.serves {k : Keystore} (coherent : Coherent k) : Serves k (storedRecord k.store.flash) := by
  cases valid : k.cacheValid with
  | true =>
      obtain ⟨r, stored, holds⟩ := coherent valid
      rw [stored]
      exact .cached valid holds
  | false => exact .stored valid

/-- Loading succeeds if there is a record to serve, and then the cache holds it. -/
theorem keystoreLoad_serves {k : Keystore} {o : Option Record} (serves : Serves k o) :
    (keystoreLoad k).1 = o.isSome ∧ (keystoreLoad k).2.cacheValid = o.isSome ∧
      Serves (keystoreLoad k).2 o ∧ ∀ r, o = some r → Holds (keystoreLoad k).2 r := by
  cases serves with
  | @cached r valid holds =>
      rw [keystoreLoad_valid valid]
      exact ⟨rfl, valid, .cached valid holds, fun r' eq => Option.some.inj eq ▸ holds⟩
  | stored invalid =>
      have load := keystoreLoad_invalid invalid
      cases stored : storedRecord k.store.flash with
      | none =>
          simp only [stored] at load
          obtain ⟨boxRead, eq⟩ := load
          rw [eq]
          refine ⟨rfl, invalid, ?_, nofun⟩
          rw [← stored]
          exact Serves.stored (k := { k with store := { k.store with boxRead } }) invalid
      | some r =>
          simp only [stored] at load
          obtain ⟨boxRead, cachedId, id, eq⟩ := load
          rw [eq]
          exact ⟨rfl, rfl, .cached rfl ⟨rfl, rfl, id⟩, fun r' eq => Option.some.inj eq ▸ ⟨rfl, rfl, id⟩⟩

/-- Loading a coherent keystore succeeds if flash holds a record, and then the cache holds it. -/
theorem keystoreLoad_spec {k : Keystore} (coherent : Coherent k) :
    (keystoreLoad k).1 = (storedRecord k.store.flash).isSome ∧
      (keystoreLoad k).2.cacheValid = (storedRecord k.store.flash).isSome ∧
      ∀ r, storedRecord k.store.flash = some r → Holds (keystoreLoad k).2 r := by
  obtain ⟨loaded, valid, -, holds⟩ := keystoreLoad_serves coherent.serves
  exact ⟨loaded, valid, holds⟩

/-- A valid cache holds a record, be it the one in flash or not. -/
def Cached (k : Keystore) : Prop := k.cacheValid = true → ∃ r, Holds k r

theorem Cached.of_invalid {k : Keystore} (invalid : k.cacheValid = false) : Cached k := by
  intro valid
  rw [invalid] at valid
  cases valid

theorem Cached.transport {k k' : Keystore} (cached : Cached k) (same : SameCache k k') : Cached k' := by
  intro valid
  obtain ⟨r, holds⟩ := cached (same.valid ▸ valid)
  exact ⟨r, same.pk ▸ holds.pk, same.sk ▸ holds.sk, same.id ▸ holds.id⟩

theorem Cached.serves {k : Keystore} (cached : Cached k) : ∃ o, Serves k o := by
  cases valid : k.cacheValid with
  | true =>
      obtain ⟨r, holds⟩ := cached valid
      exact ⟨_, .cached valid holds⟩
  | false => exact ⟨_, .stored valid⟩

theorem keystoreLoad_cached {k : Keystore} (cached : Cached k) : Cached (keystoreLoad k).2 := by
  obtain ⟨o, serves⟩ := cached.serves
  obtain ⟨-, served, -, holds⟩ := keystoreLoad_serves serves
  intro valid
  rw [served] at valid
  obtain ⟨r, eq⟩ := Option.isSome_iff_exists.mp valid
  exact ⟨r, holds r eq⟩

/-- What readers do to a keystore: they load the record, and fill arrays that are
    neither flash nor the generator nor the cache. -/
inductive Loads (k : Keystore) : Keystore → Prop where
  | refl : Loads k k
  | load {k' : Keystore} (before : Loads k k') : Loads k (keystoreLoad k').2
  | beside {k' k'' : Keystore} (before : Loads k k') (flash : k''.store.flash = k'.store.flash)
      (rng : k''.store.rng = k'.store.rng) (cache : SameCache k' k'') : Loads k k''

theorem Loads.quiet {k k' : Keystore} (loads : Loads k k') : Quiet k k' := by
  induction loads with
  | refl => exact Quiet.refl k
  | load before ih => exact ih.trans (keystoreLoad_quiet _)
  | beside before flash rng cache ih => exact ih.trans (.of_sameCache flash rng cache)

theorem Loads.cached {k k' : Keystore} (loads : Loads k k') (cached : Cached k) : Cached k' := by
  induction loads with
  | refl => exact cached
  | load before ih => exact keystoreLoad_cached ih
  | beside before flash rng cache ih => exact ih.transport cache

/-- The cache is what `record_decode` yields on the payload `storage_read` returns. -/
def CacheFresh (k : Keystore) : Prop :=
  k.cacheValid = true → ∃ len payload store, ∃ out : DecodeOut (RECORD_MAX_DEVICE_ID + 1),
    storageRead k.store (Region.fill STORAGE_MAX_PAYLOAD 0) STORAGE_MAX_PAYLOAD =
      (len, payload, store) ∧ len ≠ 0 ∧
    recordDecode (payload.load 0 len) ⟨some (.fill _ 0), some (.fill _ 0), some (.fill _ 0)⟩
      (RECORD_MAX_DEVICE_ID + 1) = (true, out) ∧
    out.pk = some k.cachedPk ∧ out.sk = some k.cachedSk ∧
    out.deviceId.map Region.cstr = some k.cachedId.cstr

theorem cacheFresh_iff (k : Keystore) : CacheFresh k ↔ Coherent k := by
  refine imp_congr_right fun _ => ?_
  obtain ⟨boxRead, readEq⟩ := storageRead_eq k.store (Region.fill STORAGE_MAX_PAYLOAD 0)
    (Nat.le_refl STORAGE_MAX_PAYLOAD)
  rw [readEq, storedRecord]
  cases payload : sectionPayload k.store.flash with
  | none =>
      constructor
      · rintro ⟨len, _, _, _, read, nonzero, -⟩
        cases read
        exact absurd rfl nonzero
      · rintro ⟨r, stored, -⟩
        cases stored
  | some p =>
      obtain ⟨pos, small⟩ := sectionPayload_length payload
      have loaded : ((Region.fill STORAGE_MAX_PAYLOAD 0).store 0 p).load 0 p.length = p :=
        Region.load_store _ 0 p (by omega)
      have decodeEq := recordDecode_eq p (.fill _ 0) (.fill _ 0) (.fill _ 0)
      rw [Option.bind_some]
      cases record : decoded p with
      | none =>
          rw [record] at decodeEq
          constructor
          · rintro ⟨_, _, _, _, read, -, decode, -⟩
            cases read
            rw [loaded, decodeEq] at decode
            cases decode
          · rintro ⟨r, stored, -⟩
            cases stored
      | some r =>
          rw [record] at decodeEq
          have id := cstr_store_idField record (.fill _ 0)
          constructor
          · rintro ⟨_, _, _, _, read, -, decode, pk, sk, name⟩
            cases read
            rw [loaded, decodeEq] at decode
            cases decode
            simp only [Option.map_some, Option.some.injEq, id] at pk sk name
            exact ⟨r, rfl, ⟨pk.symm, sk.symm, name.symm⟩⟩
          · rintro ⟨_, stored, holds⟩
            cases stored
            refine ⟨_, _, _, _, rfl, by omega, by rw [loaded, decodeEq], ?_⟩
            exact ⟨by rw [holds.pk], by rw [holds.sk], by rw [Option.map_some, id, holds.id]⟩

section
variable {k : Keystore}

@[simp] theorem keystoreSigningKey_after (k : Keystore) (sk64 : Region 64) :
    (keystoreSigningKey k sk64).2.2 = (keystoreLoad k).2 := by
  simp only [keystoreSigningKey]
  split <;> rfl

@[simp] theorem keystorePublicKey_after (k : Keystore) (pk : Region 32) :
    (keystorePublicKey k pk).2.2 = (keystoreLoad k).2 := by
  simp only [keystorePublicKey]
  split <;> rfl

@[simp] theorem keystoreDeviceId_after {n : Nat} (k : Keystore) (out : Region n) (cap : Nat) :
    (keystoreDeviceId k out cap).2.2 = (keystoreLoad k).2 := by
  simp only [keystoreDeviceId]
  split
  · rfl
  · split <;> rfl

theorem Loads.state {k k' : Keystore} (loads : Loads k k') : Loads k (keystoreState k').2 := by
  simp only [keystoreState]
  split
  · exact loads
  · exact loads.load

theorem keystoreState_quiet (k : Keystore) : Quiet k (keystoreState k).2 :=
  (Loads.state .refl).quiet

theorem keystoreSigningKey_serves (sk64 : Region 64) {o : Option Record} : Serves k o →
    keystoreSigningKey k sk64 =
      match o with
      | none => (false, sk64, (keystoreLoad k).2)
      | some r => (true, r.sk, (keystoreLoad k).2) := by
  intro serves
  obtain ⟨loaded, -, -, holds⟩ := keystoreLoad_serves serves
  cases served : o with
  | none => simp [keystoreSigningKey, loaded, served]
  | some r =>
      have whole : sk64.store 0 r.sk.bytes = r.sk := Region.ext (Region.store_whole _ _ r.sk.size)
      simp [keystoreSigningKey, loaded, served, (holds r served).sk, whole]

theorem keystorePublicKey_serves (pk : Region 32) {o : Option Record} : Serves k o →
    keystorePublicKey k pk =
      match o with
      | none => (false, pk, (keystoreLoad k).2)
      | some r => (true, r.pk, (keystoreLoad k).2) := by
  intro serves
  obtain ⟨loaded, -, -, holds⟩ := keystoreLoad_serves serves
  cases served : o with
  | none => simp [keystorePublicKey, loaded, served]
  | some r =>
      have whole : pk.store 0 r.pk.bytes = r.pk := Region.ext (Region.store_whole _ _ r.pk.size)
      simp [keystorePublicKey, loaded, served, (holds r served).pk, whole]

/-- The id fits in the arrays of the callers, so the only failure is a missing record. -/
theorem keystoreDeviceId_serves {o : Option Record} (serves : Serves k o)
    (out : Region (RECORD_MAX_DEVICE_ID + 1)) :
    ∃ out', keystoreDeviceId k out (RECORD_MAX_DEVICE_ID + 1) = (o.isSome, out', (keystoreLoad k).2) ∧
      ∀ r, o = some r → out'.cstr = r.deviceId := by
  obtain ⟨loaded, -, -, holds⟩ := keystoreLoad_serves serves
  cases served : o with
  | none => exact ⟨out, by simp [keystoreDeviceId, loaded, served], by simp⟩
  | some r =>
      have id := (holds r served).id
      have small := r.deviceId_le
      have copied : (keystoreLoad k).2.cachedId.load 0 (r.deviceId.length + 1) = r.deviceId ++ [0] :=
        Region.load_cstr id (by simp only [RECORD_MAX_DEVICE_ID] at *; omega)
      refine ⟨out.store 0 (r.deviceId ++ [0]), ?_, ?_⟩
      · simp only [keystoreDeviceId, loaded, served, Option.isSome_some, Bool.true_eq_false, if_false,
          id, copied]
        rw [if_neg (by simp only [RECORD_MAX_DEVICE_ID] at *; omega)]
      · intro r' eq
        cases eq
        exact Region.cstr_store out r.deviceId_nulFree (by
          simp only [RECORD_MAX_DEVICE_ID] at *; omega)

/-- The state of a keystore, by the marker and by what it serves. -/
theorem keystoreState_serves {o : Option Record} (serves : Serves k o) :
    (keystoreState k).1 =
      if storageWriten k.store.flash = false then .empty
      else if o.isSome then .provisioned else .corrupt := by
  obtain ⟨loaded, -, -, -⟩ := keystoreLoad_serves serves
  cases writen : storageWriten k.store.flash with
  | false => simp [keystoreState, writen]
  | true => simp [keystoreState, writen, loaded]

theorem keystoreSigningKey_spec (coherent : Coherent k) (sk64 : Region 64) :
    keystoreSigningKey k sk64 =
      match storedRecord k.store.flash with
      | none => (false, sk64, (keystoreLoad k).2)
      | some r => (true, r.sk, (keystoreLoad k).2) := by
  exact keystoreSigningKey_serves sk64 coherent.serves

theorem keystorePublicKey_spec (coherent : Coherent k) (pk : Region 32) :
    keystorePublicKey k pk =
      match storedRecord k.store.flash with
      | none => (false, pk, (keystoreLoad k).2)
      | some r => (true, r.pk, (keystoreLoad k).2) := by
  exact keystorePublicKey_serves pk coherent.serves

theorem keystoreDeviceId_spec (coherent : Coherent k) (out : Region (RECORD_MAX_DEVICE_ID + 1)) :
    ∃ out', keystoreDeviceId k out (RECORD_MAX_DEVICE_ID + 1) =
        ((storedRecord k.store.flash).isSome, out', (keystoreLoad k).2) ∧
      ∀ r, storedRecord k.store.flash = some r → out'.cstr = r.deviceId := by
  exact keystoreDeviceId_serves coherent.serves out

/-- The state of a coherent keystore, by marker and record. -/
theorem keystoreState_spec (coherent : Coherent k) :
    (keystoreState k).1 =
      if storageWriten k.store.flash = false then .empty
      else if (storedRecord k.store.flash).isSome then .provisioned else .corrupt := by
  exact keystoreState_serves coherent.serves

/-- Every reader of the keystore agrees that this record is installed. -/
structure ReadsBack (k : Keystore) (r : Record) : Prop where
  writen : keystoreWriten k = true
  state : (keystoreState k).1 = .provisioned
  publicKey : ∀ pk, (keystorePublicKey k pk).1 = true ∧ (keystorePublicKey k pk).2.1 = r.pk
  signingKey : ∀ sk64, (keystoreSigningKey k sk64).1 = true ∧ (keystoreSigningKey k sk64).2.1 = r.sk
  deviceId : ∀ out : Region (RECORD_MAX_DEVICE_ID + 1),
    (keystoreDeviceId k out (RECORD_MAX_DEVICE_ID + 1)).1 = true ∧
      (keystoreDeviceId k out (RECORD_MAX_DEVICE_ID + 1)).2.1.cstr = r.deviceId

/-- A coherent keystore reads back the record in flash, and only that one. -/
theorem readsBack_iff (coherent : Coherent k) (r : Record) :
    ReadsBack k r ↔ storageWriten k.store.flash = true ∧ storedRecord k.store.flash = some r := by
  constructor
  · rintro ⟨writen, -, publicKey, signingKey, deviceId⟩
    refine ⟨writen, ?_⟩
    have pkEq := keystorePublicKey_spec coherent (.fill _ 0)
    have skEq := keystoreSigningKey_spec coherent (.fill _ 0)
    obtain ⟨_, idEq, id⟩ := keystoreDeviceId_spec coherent (.fill _ 0)
    have pk := publicKey (.fill _ 0)
    have sk := signingKey (.fill _ 0)
    have name := (deviceId (.fill _ 0)).2
    rw [pkEq] at pk
    rw [skEq] at sk
    rw [idEq] at name
    cases stored : storedRecord k.store.flash with
    | none =>
        simp only [stored] at pk
        exact absurd pk.1 (by decide)
    | some r' =>
        simp only [stored] at pk sk
        have same := (id r' stored).symm.trans name
        cases r
        cases r'
        simp_all
  · rintro ⟨writen, stored⟩
    constructor
    · exact writen
    · rw [keystoreState_spec coherent, writen, stored]
      rfl
    · intro pk
      rw [keystorePublicKey_spec coherent pk, stored]
      exact ⟨rfl, rfl⟩
    · intro sk64
      rw [keystoreSigningKey_spec coherent sk64, stored]
      exact ⟨rfl, rfl⟩
    · intro out
      obtain ⟨_, eq, id⟩ := keystoreDeviceId_spec coherent out
      rw [eq, stored]
      exact ⟨rfl, id r stored⟩

end

end Roman
