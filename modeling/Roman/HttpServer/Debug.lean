import Roman.HttpServer.Handlers

/-! # http_server.c: POST /debug

Only compiled in with DEBUG_AVAILABLE. What the snapshot reports about the rest
of the board is in `Platform`.
-/

namespace Roman

open CMem CStr NorFlash

/-- diag.h -/
inductive DiagStage where
  | idle
  | received
  | fieldsOk
  | pairCheck
  | pairOk
  | entropy
  | boxing
  | erase
  | program
  | done
  | clear
  | signEnter
  | signKey
  | signParse
  | signCrypto
  | signReply
  | signDone

/-- `diag_stage_name` -/
def diagStageName : DiagStage → Bytes
  | .received => ascii "write-received"
  | .fieldsOk => ascii "fields-ok"
  | .pairCheck => ascii "pair-check"
  | .pairOk => ascii "pair-ok"
  | .entropy => ascii "entropy"
  | .boxing => ascii "boxing"
  | .erase => ascii "erase"
  | .program => ascii "program"
  | .done => ascii "done"
  | .clear => ascii "clear"
  | .signEnter => ascii "sign-enter"
  | .signKey => ascii "sign-key"
  | .signParse => ascii "sign-parse"
  | .signCrypto => ascii "sign-crypto"
  | .signReply => ascii "sign-reply"
  | .signDone => ascii "sign-done"
  | .idle => ascii "none"

structure Netif where
  hwaddr : Bytes
  /-- `ip4addr_ntoa` of the address. -/
  ip : Bytes
  linkUp : Bool

/-- What the SDK and the other modules answer while one request is handled. -/
structure Platform where
  uptimeMs : UInt32
  sdkVersion : Bytes
  cpuMhz : UInt32
  uniqueId : Bytes
  watchdogCausedReboot : Bool
  stackUsedNow : UInt32
  stackTotal : UInt32
  stackUsedMax : UInt32
  stackFreeMin : UInt32
  /-- `netif_default`. -/
  netif : Option Netif
  /-- The occupied slots of `http_states`. -/
  conns : Nat
  /-- `diag_stage_name(diag_boot_stage())`. -/
  bootStage : Bytes

def DEBUG_STORAGE_FLASH_OFFSET : Nat := 1048576

def hexDigit (i : Nat) : UInt8 := (ascii "0123456789ABCDEF").getD i 0

/-- The six bytes of the address in hex, separated by colons. -/
def macText : Bytes → Bytes
  | [] => []
  | [b] => [hexDigit (b.toNat / 16), hexDigit (b.toNat % 16)]
  | b :: rest => [hexDigit (b.toNat / 16), hexDigit (b.toNat % 16), 0x3A] ++ macText rest

def boolText (b : Bool) : Bytes := if b then ascii "true" else ascii "false"

def uintText (n : UInt32) : Bytes := decimal n.toNat

/-- Plaintext length, availability and the name of the result. -/
def debugSelftest (s : Http) : Nat × Bool × Bytes × Http :=
  if storageAvailable s.flash = false then (0, false, ascii "empty", s)
  else
    let (n, debugReadBuf, store) := storageRead s.keystore.store s.debugReadBuf STORAGE_MAX_PAYLOAD
    let s := { s with debugReadBuf, keystore.store := store }
    if n = 0 then (0, true, ascii "corrupt", s)
    else (n, true, ascii "ok", s)

/-- The counters as the snapshot prints them. -/
def statsText (w : HttpStats) : Bytes :=
  ascii "\"requests\":" ++ uintText w.requests ++ ascii ",\"sign_ok\":" ++ uintText w.signOk ++
  ascii ",\"sign_bad\":" ++ uintText w.signBad ++ ascii ",\"write_ok\":" ++ uintText w.writeOk ++
  ascii ",\"write_bad\":" ++ uintText w.writeBad ++ ascii ",\"clear_ok\":" ++ uintText w.clearOk ++
  ascii ",\"clear_bad\":" ++ uintText w.clearBad ++ ascii ",\"not_found\":" ++ uintText w.notFound ++
  ascii ",\"too_large\":" ++ uintText w.tooLarge ++ ascii ",\"errors\":" ++ uintText w.errors

def snapshotText (p : Platform) (s : Http) (available : Bool) (selftest : Bytes)
    (plaintextLen : Nat) : Bytes :=
  let mac := match p.netif with
    | some netif => macText netif.hwaddr
    | none => ascii "00:00:00:00:00:00"
  let ip := match p.netif with
    | some netif => netif.ip
    | none => ascii "0.0.0.0"
  let linkUp := match p.netif with
    | some netif => netif.linkUp
    | none => false
  ascii "\x7b\"status\":\"ok\",\"debug\":\x7b" ++
  ascii "\"uptime_ms\":" ++ uintText p.uptimeMs ++ ascii ",\"firmware\":\"" ++ ROMAN_VERSION ++
  ascii "\",\"sdk\":\"" ++ p.sdkVersion ++ ascii "\"," ++
  ascii "\"cpu_mhz\":" ++ uintText p.cpuMhz ++ ascii ",\"unique_id\":\"" ++ p.uniqueId ++ ascii "\"," ++
  ascii "\"reset_by_watchdog\":" ++ boolText p.watchdogCausedReboot ++ ascii "," ++
  ascii "\"stack\":\x7b\"used_now\":" ++ uintText p.stackUsedNow ++ ascii ",\"total\":" ++
  uintText p.stackTotal ++ ascii ",\"used_max\":" ++ uintText p.stackUsedMax ++
  ascii ",\"free_min\":" ++ uintText p.stackFreeMin ++ ascii "\x7d," ++
  ascii "\"net\":\x7b\"ip\":\"" ++ ip ++ ascii "\",\"mac\":\"" ++ mac ++ ascii "\",\"link_up\":" ++
  boolText linkUp ++ ascii "\x7d," ++
  ascii "\"web\":\x7b\"conns\":" ++ decimal p.conns ++ ascii ",\"conns_max\":" ++
  decimal HTTP_MAX_CONN ++ ascii "," ++ statsText s.httpStats ++ ascii "\x7d," ++
  ascii "\"storage\":\x7b\"writen\":" ++ boolText (storageWriten s.flash) ++ ascii ",\"available\":" ++
  boolText available ++ ascii ",\"selftest\":\"" ++ selftest ++ ascii "\"," ++
  ascii "\"plaintext_len\":" ++ decimal plaintextLen ++ ascii ",\"max_payload\":" ++
  decimal STORAGE_MAX_PAYLOAD ++ ascii ",\"flash_offset\":" ++ decimal DEBUG_STORAGE_FLASH_OFFSET ++
  ascii "\x7d," ++
  ascii "\"roman\":\x7b\"device_id\":" ++ s.debugIdJson.cstr ++ ascii ",\"ed25519_pk\":\"" ++
  s.edB64.cstr ++ ascii "\",\"x25519_pk\":\"" ++ s.xB64.cstr ++ ascii "\"," ++
  ascii "\"last_stage\":\"" ++ p.bootStage ++ ascii "\",\"reset_by_watchdog\":" ++
  boolText p.watchdogCausedReboot ++ ascii "\x7d" ++
  ascii "\x7d\x7d"

/-- `debug_snapshot`, the Ed25519 key. -/
def debugEdKey (s : Http) : Http :=
  let (found, debugPk, keystore) := keystorePublicKey s.keystore s.debugPk
  let s := { s with debugPk, keystore }
  if found then { s with edB64 := base64EncodeInto s.edB64 s.debugPk.bytes } else s

/-- The X25519 key. -/
def debugXKey (s : Http) : Http :=
  let (found, debugPk) := storageX25519Pk s.flash s.debugPk
  let s := { s with debugPk }
  if found then { s with xB64 := base64EncodeInto s.xB64 s.debugPk.bytes } else s

/-- The device id. -/
def debugId (s : Http) : Http :=
  let (found, debugDeviceId, keystore) :=
    keystoreDeviceId s.keystore s.debugDeviceId (RECORD_MAX_DEVICE_ID + 1)
  let s := { s with debugDeviceId, keystore }
  let idText := if found then ascii "\"" ++ s.debugDeviceId.cstr ++ ascii "\"" else ascii "null"
  { s with debugIdJson := s.debugIdJson.snprintf idText }

def debugSnapshot (p : Platform) (s : Http) : Response × Http :=
  let (plaintextLen, available, selftest, s) := debugSelftest s
  let s := { s with edB64 := s.edB64.store 0 [0], xB64 := s.xB64.store 0 [0] }
  let s := debugId (debugXKey (debugEdKey s))
  let text := snapshotText p s available selftest plaintextLen
  let s := { s with debugJson := s.debugJson.snprintf text }
  if text.length ≥ 1280 then
    (reply 500 "\x7b\"status\":\"error\",\"error\":\"debug overflow\"\x7d",
      { s with httpStats.errors := s.httpStats.errors + 1 })
  else (⟨200, s.debugJson.cstr⟩, s)

/-- What the body of a debug request asks for; a body without a usable action is a snapshot. -/
def debugAction (body : Bytes) : Bytes :=
  if body = [] then ascii "snapshot"
  else
    -- a stack array: it is only looked at once it has been filled
    let (found, action) := jsonGetString body (ascii "action") (Region.fill 16 0)
    if found = false ∨ action.cstr = [] then ascii "snapshot" else action.cstr

/-- Besides the reply and the server, whether `reset_after_send` gets set. -/
def handleDebug (p : Platform) (s : Http) (contentLength : Int) (env : FlashEnv)
    (body : Option Bytes) : Outcome (Response × Bool × Http) :=
  if contentLength > HTTP_DEBUG_BODY_LIMIT then
    .done (reply 413 "\x7b\"status\":\"error\",\"error\":\"request too large\"\x7d", false,
      { s with httpStats.tooLarge := s.httpStats.tooLarge + 1 })
  else
    let action := debugAction (bodyText body)
    if action = ascii "snapshot" then
      let (r, s) := debugSnapshot p s
      .done (r, false, s)
    else if action = ascii "clear" then
      match storageClear s.keystore.store env.erase with
      | .cut flash => .cut flash
      | .done (false, store) =>
          .done (reply 500 "\x7b\"status\":\"error\",\"error\":\"flash erase failed\"\x7d", false,
            { s with keystore.store := store, httpStats.errors := s.httpStats.errors + 1 })
      | .done (true, store) =>
          let s := { s with keystore.store := store }
          .done (reply 200 "\x7b\"status\":\"ok\",\"action\":\"clear\",\"writen\":false\x7d", false,
            { s with keystore := keystoreInvalidate s.keystore })
    else if action = ascii "reset" then
      .done (reply 200 "\x7b\"status\":\"ok\",\"action\":\"reset\",\"note\":\"rebooting\"\x7d", true, s)
    else
      .done (reply 400 "\x7b\"status\":\"error\",\"error\":\"unknown action\"\x7d", false, s)

-- proofs compare the text and never compute it
attribute [irreducible] snapshotText

end Roman
