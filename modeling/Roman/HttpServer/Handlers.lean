import Roman.HttpServer.State

/-! # http_server.c: the handlers

Every path through a handler ends in one call of `http_send_response`; a handler
here returns what it passes to it. The body is the C string behind the blank
line of the request, `none` for NULL.
-/

namespace Roman

open CMem CStr NorFlash TweetNacl

/-- `body == NULL || *body == '\0'`, or the body. -/
def bodyText (body : Option Bytes) : Bytes := body.getD []

/-- `base64_encode(in, len, out)`. -/
def base64EncodeInto {n : Nat} (out : Region n) (bytes : Bytes) : Region n :=
  out.store 0 (base64Encode bytes ++ [0])

def storageStateName (s : Http) : Bytes × Http :=
  let (state, keystore) := keystoreState s.keystore
  let name := match state with
    | .provisioned => ascii "provisioned"
    | .corrupt => ascii "corrupt"
    | .empty => ascii "empty"
  (name, { s with keystore })

def handleSignPost (s : Http) (body : Option Bytes) : Response × Http :=
  let body := bodyText body
  if body = [] then
    (reply 400 "\x7b\"error\":\"Empty request body\"\x7d",
      { s with httpStats.signBad := s.httpStats.signBad + 1 })
  else
    let (found, signSk, keystore) := keystoreSigningKey s.keystore s.signSk
    let s := { s with signSk, keystore }
    if found = false then
      (reply 503 "\x7b\"error\":\"not provisioned\",\"hint\":\"POST /write first\"\x7d",
        { s with httpStats.signBad := s.httpStats.signBad + 1 })
    else
      let (found, signDeviceId, keystore) :=
        keystoreDeviceId s.keystore s.signDeviceId (RECORD_MAX_DEVICE_ID + 1)
      let s := { s with signDeviceId, keystore }
      -- what every refusal from here on does first
      let refused (s : Http) :=
        { s with signSk := .fill _ 0, httpStats.signBad := s.httpStats.signBad + 1 }
      if found = false then
        (reply 503 "\x7b\"error\":\"stored record is corrupt\"\x7d", refused s)
      else
        let (found, challenge) := jsonGetString body (ascii "challenge") s.challenge
        let s := { s with challenge }
        if found = false then
          (reply 400 "\x7b\"error\":\"Missing field: challenge\"\x7d", refused s)
        else
          let (found, context) := jsonGetString body (ascii "context") s.context
          let s := { s with context }
          if found = false then
            (reply 400 "\x7b\"error\":\"Missing field: context\"\x7d", refused s)
          else
            let (found, timestamp) := jsonGetString body (ascii "timestamp") s.timestamp
            let s := { s with timestamp }
            if found = false then
              (reply 400 "\x7b\"error\":\"Missing field: timestamp\"\x7d", refused s)
            else
              let message := s.challenge.cstr ++ ascii ":" ++ s.context.cstr ++ ascii ":" ++
                s.timestamp.cstr ++ ascii ":" ++ s.signDeviceId.cstr
              let msgLen := message.length
              let s := { s with signBody := s.signBody.snprintf message }
              if msgLen ≥ 1024 then
                (reply 400 "\x7b\"error\":\"Message too long\"\x7d", refused s)
              else
                let sigSm := s.sigSm.store 0 (cryptoSign (s.signBody.load 0 msgLen) s.signSk.bytes)
                let s := { s with sigSm, signSk := .fill _ 0 }
                let s := { s with sigB64 := base64EncodeInto s.sigB64 (s.sigSm.load 0 64) }
                let text := ascii "\x7b\"signature\":\"" ++ s.sigB64.cstr ++
                  ascii "\",\"timestamp\":\"" ++ s.timestamp.cstr ++
                  ascii "\",\"device_id\":\"" ++ s.signDeviceId.cstr ++ ascii "\"\x7d"
                let s := { s with signBody := s.signBody.snprintf text }
                (⟨200, s.signBody.cstr⟩, { s with httpStats.signOk := s.httpStats.signOk + 1 })

/-- The reply after `keystore_provision` returned KEYSTORE_OK. -/
def writeAccepted (s : Http) : Response × Http :=
  let s := { s with httpStats.writeOk := s.httpStats.writeOk + 1 }
  let (found, xPk) := storageX25519Pk s.flash s.xPk
  let s := { s with xPk }
  if found then
    let s := { s with xPkB64 := base64EncodeInto s.xPkB64 s.xPk.bytes }
    let text := ascii "\x7b\"status\":\"ok\",\"writen\":true,\"x25519_pk\":\"" ++ s.xPkB64.cstr ++
      ascii "\"\x7d"
    let s := { s with okBody := s.okBody.snprintf text }
    (⟨200, s.okBody.cstr⟩, s)
  else (reply 200 "\x7b\"status\":\"ok\",\"writen\":true\x7d", s)

def handleWritePost (s : Http) (contentLength : Int) (env : FlashEnv) (body : Option Bytes) :
    Outcome (Response × Http) :=
  let body := bodyText body
  let refused (s : Http) := { s with httpStats.writeBad := s.httpStats.writeBad + 1 }
  if keystoreWriten s.keystore then
    .done (reply 403 "\x7b\"error\":\"already provisioned\",\"writen\":true\x7d", refused s)
  else if body = [] then
    .done (reply 400 "\x7b\"error\":\"Empty request body\"\x7d", refused s)
  else if contentLength > HTTP_FORM_BODY_LIMIT then
    .done (reply 413 "\x7b\"error\":\"request too large\"\x7d",
      { s with httpStats.tooLarge := s.httpStats.tooLarge + 1 })
  else
    let (found, pkB64) := jsonGetString body (ascii "pk") s.pkB64
    let s := { s with pkB64 }
    if found = false then .done (reply 400 "\x7b\"error\":\"Missing field: pk\"\x7d", refused s)
    else
      let (found, skB64) := jsonGetString body (ascii "sk") s.skB64
      let s := { s with skB64 }
      if found = false then .done (reply 400 "\x7b\"error\":\"Missing field: sk\"\x7d", refused s)
      else
        let (found, writeDeviceId) := jsonGetString body (ascii "device_id") s.writeDeviceId
        let s := { s with writeDeviceId }
        if found = false then
          .done (reply 400 "\x7b\"error\":\"Missing field: device_id\"\x7d", refused s)
        else
          match keystoreProvision s.keystore env s.pkB64.cstr s.skB64.cstr s.writeDeviceId.cstr with
          | .cut flash => .cut flash
          | .done (status, keystore) =>
              let s := { s with keystore }
              match status with
              | .ok => .done (writeAccepted s)
              | .errAlready =>
                  .done (reply 403 "\x7b\"error\":\"already provisioned\",\"writen\":true\x7d",
                    refused s)
              | .errMismatch =>
                  .done (reply 400 "\x7b\"error\":\"pk does not match sk\"\x7d", refused s)
              | .errFlash =>
                  .done (reply 500 "\x7b\"error\":\"flash write failed\"\x7d",
                    { s with httpStats.errors := s.httpStats.errors + 1 })
              | .errArg =>
                  .done (reply 400 "\x7b\"error\":\"invalid pk/sk/device_id\"\x7d", refused s)

def handleClearPost (s : Http) (contentLength : Int) (env : FlashEnv) (body : Option Bytes) :
    Outcome (Response × Http) :=
  let body := bodyText body
  let refused (s : Http) := { s with httpStats.clearBad := s.httpStats.clearBad + 1 }
  let cleared (s : Http) := { s with httpStats.clearOk := s.httpStats.clearOk + 1 }
  if body = [] then
    .done (reply 400 "\x7b\"error\":\"Empty request body\"\x7d", refused s)
  else if contentLength > HTTP_FORM_BODY_LIMIT then
    .done (reply 413 "\x7b\"error\":\"request too large\"\x7d",
      { s with httpStats.tooLarge := s.httpStats.tooLarge + 1 })
  else
    -- "sk" is only looked up when "ed25519_sk" is not there
    let (long, keyB64) := jsonGetString body (ascii "ed25519_sk") s.keyB64
    let (found, keyB64) := if long then (true, keyB64) else jsonGetString body (ascii "sk") keyB64
    let s := { s with keyB64 }
    if found = false then
      .done (reply 400 "\x7b\"error\":\"Missing field: ed25519_sk\"\x7d", refused s)
    else
      match keystoreClear s.keystore env.erase s.keyB64.cstr with
      | .cut flash => .cut flash
      | .done (status, keystore) =>
          let s := { s with keystore }
          match status with
          | .ok => .done (reply 200 "\x7b\"status\":\"ok\",\"writen\":false\x7d", cleared s)
          | .empty =>
              .done (reply 200 "\x7b\"status\":\"ok\",\"writen\":false,\"note\":\"nothing stored\"\x7d",
                cleared s)
          | .errArg => .done (reply 400 "\x7b\"error\":\"invalid ed25519_sk\"\x7d", refused s)
          | .errDenied =>
              .done (reply 403 "\x7b\"error\":\"ed25519_sk does not match\"\x7d", refused s)
          | .errFlash =>
              .done (reply 500 "\x7b\"error\":\"flash erase failed\"\x7d",
                { s with httpStats.errors := s.httpStats.errors + 1 })

def handleInfo (s : Http) : Response × Http :=
  let (found, infoDeviceId, keystore) :=
    keystoreDeviceId s.keystore s.infoDeviceId (RECORD_MAX_DEVICE_ID + 1)
  let s := { s with infoDeviceId, keystore }
  let idText := if found then ascii "\"" ++ s.infoDeviceId.cstr ++ ascii "\"" else ascii "null"
  let s := { s with infoIdJson := s.infoIdJson.snprintf idText }
  let (state, s) := storageStateName s
  let text := ascii "\x7b\"device\":\"pico2\",\"firmware\":\"roman\",\"version\":\"" ++
    ROMAN_VERSION ++ ascii "\",\"engine\":\"C/tweetnacl\",\"id\":" ++ s.infoIdJson.cstr ++
    ascii ",\"storage\":\"" ++ state ++ ascii "\"\x7d"
  let s := { s with infoBuf := s.infoBuf.snprintf text }
  (⟨200, s.infoBuf.cstr⟩, s)

end Roman
