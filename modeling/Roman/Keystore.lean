import Roman.Record
import Roman.Storage

/-! # keystore.c: the provisioning policy and the RAM cache

The state is the store and the static variables of keystore.c, those inside
`keystore_provision` and `keystore_clear` included. The getters take the
caller's array and give back what is in it afterwards.
-/

namespace Roman

open CMem CStr NorFlash TweetNacl

inductive KeystoreStatus where
  | ok
  | errArg
  | errMismatch
  | errAlready
  | errFlash
  deriving DecidableEq

inductive KeystoreState where
  | empty
  | provisioned
  | corrupt
  deriving DecidableEq

inductive KeystoreClearStatus where
  | ok
  | empty
  | errArg
  | errDenied
  | errFlash
  deriving DecidableEq

structure Keystore where
  store : Storage
  cachedPk : Region 32
  cachedSk : Region 64
  cachedId : Region (RECORD_MAX_DEVICE_ID + 1)
  cacheValid : Bool
  /-- The arrays of `keystore_provision`. -/
  pk : Region 32
  sk : Region 64
  payload : Region RECORD_MAX
  /-- The array of `keystore_clear`. -/
  given : Region 64

/-- RAM after a reset. -/
def Keystore.boot (flash : Flash) (entropy : Entropy) : Keystore where
  store := .boot flash entropy
  cachedPk := .fill _ 0
  cachedSk := .fill _ 0
  cachedId := .fill _ 0
  cacheValid := false
  pk := .fill _ 0
  sk := .fill _ 0
  payload := .fill _ 0
  given := .fill _ 0

def keystoreLoad (k : Keystore) : Bool × Keystore :=
  if k.cacheValid then (true, k)
  else
    -- a stack array: only the bytes storage_read has written are looked at
    let payload := Region.fill STORAGE_MAX_PAYLOAD 0
    let (len, payload, store) := storageRead k.store payload STORAGE_MAX_PAYLOAD
    let k := { k with store }
    if len = 0 then (false, k)
    else
      let (decoded, out) := recordDecode (payload.load 0 len)
        ⟨some k.cachedPk, some k.cachedSk, some k.cachedId⟩ (RECORD_MAX_DEVICE_ID + 1)
      let k := { k with
        cachedPk := out.pk.getD k.cachedPk
        cachedSk := out.sk.getD k.cachedSk
        cachedId := out.deviceId.getD k.cachedId }
      if decoded = false then (false, k)
      else (true, { k with cacheValid := true })

def keystoreInvalidate (k : Keystore) : Keystore :=
  { k with cacheValid := false, cachedSk := Region.fill 64 0 }

def keystoreWriten (k : Keystore) : Bool := storageWriten k.store.flash

def keystoreState (k : Keystore) : KeystoreState × Keystore :=
  if storageWriten k.store.flash = false then (.empty, k)
  else
    let (loaded, k) := keystoreLoad k
    (if loaded then .provisioned else .corrupt, k)

def keystoreProvision (k : Keystore) (env : FlashEnv) (pkB64 skB64 deviceId : Bytes) :
    Outcome (KeystoreStatus × Keystore) :=
  if storageWriten k.store.flash then .done (.errAlready, k)
  else if recordDeviceIdValid deviceId = false then .done (.errArg, k)
  else
    let (pkLen, pk) := recordB64Decode pkB64 k.pk 32
    let k := { k with pk }
    if pkLen ≠ some 32 then .done (.errArg, k)
    else
      let (skLen, sk) := recordB64Decode skB64 k.sk 64
      let k := { k with sk }
      if skLen ≠ some 32 ∧ skLen ≠ some 64 then .done (.errArg, k)
      else
        -- a bare seed: the public half is appended
        let k := { k with sk := if skLen = some 32 then k.sk.store 32 k.pk.bytes else k.sk }
        if cryptoVerify32 (k.sk.load 32 32) k.pk.bytes ≠ 0 then .done (.errMismatch, k)
        else
          let (len, payload) := recordEncode k.payload RECORD_MAX k.pk k.sk deviceId
          let k := { k with payload }
          if len = 0 then .done (.errArg, k)
          else
            match storageWrite k.store env (k.payload.load 0 len) with
            | .cut flash => .cut flash
            | .done (false, store) => .done (.errFlash, { k with store })
            | .done (true, store) => .done (.ok, keystoreInvalidate { k with store })

def keystoreClear (k : Keystore) (env : EraseOutcome) (ed25519SkB64 : Bytes) :
    Outcome (KeystoreClearStatus × Keystore) :=
  if storageWriten k.store.flash = false then .done (.empty, k)
  else
    let (loaded, k) := keystoreLoad k
    if loaded = false then .done (.errDenied, k)
    else
      let (len, given) := recordB64Decode ed25519SkB64 k.given 64
      let k := { k with given }
      if len ≠ some 32 ∧ len ≠ some 64 then .done (.errArg, k)
      else if cryptoVerify32 (k.given.load 0 32) (k.cachedSk.load 0 32) ≠ 0 then
        .done (.errDenied, k)
      else if len = some 64 ∧ cryptoVerify32 (k.given.load 32 32) (k.cachedSk.load 32 32) ≠ 0 then
        .done (.errDenied, k)
      else
        match storageClear k.store env with
        | .cut flash => .cut flash
        | .done (false, store) => .done (.errFlash, { k with store })
        | .done (true, store) => .done (.ok, keystoreInvalidate { k with store })

def keystoreSigningKey (k : Keystore) (sk64 : Region 64) : Bool × Region 64 × Keystore :=
  let (loaded, k) := keystoreLoad k
  if loaded = false then (false, sk64, k)
  else (true, sk64.store 0 k.cachedSk.bytes, k)

def keystoreDeviceId {n : Nat} (k : Keystore) (out : Region n) (cap : Nat) :
    Bool × Region n × Keystore :=
  let (loaded, k) := keystoreLoad k
  if loaded = false then (false, out, k)
  else
    let len := k.cachedId.cstr.length
    if cap < len + 1 then (false, out, k)
    else (true, out.store 0 (k.cachedId.load 0 (len + 1)), k)

def keystorePublicKey (k : Keystore) (pk : Region 32) : Bool × Region 32 × Keystore :=
  let (loaded, k) := keystoreLoad k
  if loaded = false then (false, pk, k)
  else (true, pk.store 0 k.cachedPk.bytes, k)

end Roman
