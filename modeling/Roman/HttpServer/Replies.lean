import Roman.Cache
import Roman.Base64
import Roman.HttpServer.Server

/-! # What the handlers reply

Apart from the snapshot of `/debug`, a reply depends on the keystore and on the
request. The functions here say for each handler what it replies and what becomes
of the keystore, without any of the server's static arrays. Each is followed by
the theorem that the handler, with arbitrary bytes in its arrays, does just that.
-/

namespace Roman

open CMem CStr NorFlash TweetNacl

/-- Whatever `json_get_string` finds does not depend on the buffer it fills. It is less
    than the buffer and ends in front of a quote. -/
theorem jsonGetString_buffer (json key : Bytes) {n : Nat} (room : 0 < n) :
    ∃ found : Option Bytes, (∀ v, found = some v → v.length < n ∧ (0x22 : UInt8) ∉ v) ∧
      ∀ buf : Region n,
        match found with
        | none => jsonGetString json key buf = (false, buf)
        | some v => ∃ buf', jsonGetString json key buf = (true, buf') ∧ buf'.cstr = content v := by
  cases first : strstr json ((0x22 :: key ++ [0x22]).take 127) with
  | none => exact ⟨none, nofun, fun buf => by simp only [jsonGetString, first]⟩
  | some p =>
      cases colon : strchr p 0x3A with
      | none => exact ⟨none, nofun, fun buf => by simp only [jsonGetString, first, colon]⟩
      | some p' =>
          cases blanks : skipBlanks (p'.drop 1) with
          | nil => exact ⟨none, nofun, fun buf => by simp only [jsonGetString, first, colon, blanks]⟩
          | cons b rest =>
              by_cases quote : b = 0x22
              · subst quote
                cases stop : strchr rest 0x22 with
                | none =>
                    exact ⟨none, nofun, fun buf => by simp only [jsonGetString, first, colon, blanks, stop]⟩
                | some tail =>
                    let len := rest.length - tail.length
                    let kept := if len ≥ n then n - 1 else len
                    have short : (rest.take kept).length < n := by
                      simp only [List.length_take, kept]
                      split <;> omega
                    have absent : (0x22 : UInt8) ∉ rest.take kept := by
                      obtain ⟨front, rfl, absent⟩ := strchr_split stop
                      have fits : kept ≤ front.length := by
                        simp only [kept, len, List.length_append]
                        split <;> omega
                      rw [List.take_append_of_le_length fits]
                      exact fun member => absent (List.mem_of_mem_take member)
                    refine ⟨some (rest.take kept), ?_, fun buf => ?_⟩
                    · rintro v eq
                      cases eq
                      exact ⟨short, absent⟩
                    have eq : jsonGetString json key buf =
                        (true, buf.store 0 (rest.take kept ++ [0])) := by
                      simp only [jsonGetString, first, colon, blanks, stop, kept, len]
                    exact ⟨_, eq, Region.cstr_store_content buf short⟩
              · refine ⟨none, nofun, fun buf => ?_⟩
                simp only [jsonGetString, first, colon, blanks]
                split
                · rename_i eq
                  exact absurd (List.cons.inj eq).1 quote
                · rfl

/-- The value `json_get_string` gets for a key into a buffer of `n` chars. -/
def jsonField (json key : Bytes) (n : Nat) : Option Bytes :=
  if (jsonGetString json key (Region.fill n 0)).1 then
    some (jsonGetString json key (Region.fill n 0)).2.cstr
  else none

theorem jsonGetString_eq (json key : Bytes) {n : Nat} (room : 0 < n) (buf : Region n) :
    match jsonField json key n with
    | none => jsonGetString json key buf = (false, buf)
    | some v => ∃ buf', jsonGetString json key buf = (true, buf') ∧ buf'.cstr = v := by
  obtain ⟨found, -, all⟩ := jsonGetString_buffer json key room
  cases found with
  | none => simp [jsonField, all]
  | some v =>
      obtain ⟨fresh, eq, text⟩ := all (Region.fill n 0)
      simp only [jsonField, eq, if_true, text]
      exact all buf

/-- What `json_get_string` copies: less than the array, no NUL, and no quote. -/
theorem jsonField_text {json key : Bytes} {n : Nat} {v : Bytes} (room : 0 < n)
    (copied : jsonField json key n = some v) : v.length < n ∧ NulFree v ∧ (0x22 : UInt8) ∉ v := by
  obtain ⟨found, bounds, all⟩ := jsonGetString_buffer json key room
  cases found with
  | none => simp [jsonField, all] at copied
  | some u =>
      obtain ⟨short, absent⟩ := bounds u rfl
      obtain ⟨fresh, eq, text⟩ := all (Region.fill n 0)
      simp only [jsonField, eq, if_true, text, Option.some.injEq] at copied
      rw [← copied]
      have shorter := (content_isPrefix u).length_le
      exact ⟨by omega, content_nulFree u, fun member => absent ((content_isPrefix u).subset member)⟩

/-- `base64_encode` into an array with room for the text. -/
theorem cstr_base64 {n : Nat} (out : Region n) (b : Bytes) (room : (b.length + 2) / 3 * 4 < n) :
    (base64EncodeInto out b).cstr = content (base64Encode b) :=
  Region.cstr_store_content out (by rw [Base64.base64Encode_length]; exact room)

/-- `crypto_sign` puts the signature in front of the message. -/
private theorem signedArray (sm : Region 2048) {message : Bytes} (sk : Region 64)
    (short : message.length < 1024) :
    (sm.store 0 (cryptoSign message sk.bytes)).load 0 64 = signature message sk.bytes := by
  have size : (cryptoSign message sk.bytes).length = 64 + message.length := by
    rw [cryptoSign, List.length_append, signature_length]
  have seen := Region.load_store_within sm 0 (cryptoSign message sk.bytes) 0 64
    (by omega) (by omega)
  rw [List.drop_zero] at seen
  exact seen.trans (List.take_left' (signature_length _ _))

/-- The message that gets signed. -/
def signMessage (challenge context timestamp deviceId : Bytes) : Bytes :=
  challenge ++ ascii ":" ++ context ++ ascii ":" ++ timestamp ++ ascii ":" ++ deviceId

def signReply (stored : Option Record) (body : Bytes) : Response :=
  if body = [] then reply 400 "\x7b\"error\":\"Empty request body\"\x7d"
  else match stored with
  | none => reply 503 "\x7b\"error\":\"not provisioned\",\"hint\":\"POST /write first\"\x7d"
  | some r =>
      match jsonField body (ascii "challenge") 256 with
      | none => reply 400 "\x7b\"error\":\"Missing field: challenge\"\x7d"
      | some challenge =>
      match jsonField body (ascii "context") 128 with
      | none => reply 400 "\x7b\"error\":\"Missing field: context\"\x7d"
      | some context =>
      match jsonField body (ascii "timestamp") 128 with
      | none => reply 400 "\x7b\"error\":\"Missing field: timestamp\"\x7d"
      | some timestamp =>
          let message := signMessage challenge context timestamp r.deviceId
          if message.length ≥ 1024 then reply 400 "\x7b\"error\":\"Message too long\"\x7d"
          else
            let text := ascii "\x7b\"signature\":\"" ++ content (base64Encode (signature message r.sk.bytes)) ++
              ascii "\",\"timestamp\":\"" ++ timestamp ++
              ascii "\",\"device_id\":\"" ++ r.deviceId ++ ascii "\"\x7d"
            ⟨200, content (text.take 1023)⟩

/-- The message and the key that `crypto_sign` is called with, if it is called. -/
def signCall (stored : Option Record) (body : Bytes) : Option (Bytes × Bytes) :=
  if body = [] then none
  else match stored with
  | none => none
  | some r =>
      match jsonField body (ascii "challenge") 256 with
      | none => none
      | some challenge =>
      match jsonField body (ascii "context") 128 with
      | none => none
      | some context =>
      match jsonField body (ascii "timestamp") 128 with
      | none => none
      | some timestamp =>
          let message := signMessage challenge context timestamp r.deviceId
          if message.length ≥ 1024 then none else some (message, r.sk.bytes)

/-- What the call leaves in an array. -/
def signOutput (held : Region 2048) : Option (Bytes × Bytes) → Region 2048
  | none => held
  | some (message, sk) => held.store 0 (cryptoSign message sk)

theorem handleSignPost_result {s : Http} {o : Option Record} (serves : Serves s.keystore o)
    (body : Option Bytes) :
    (handleSignPost s body).1 = signReply o (bodyText body) ∧
      (handleSignPost s body).2.sigSm = signOutput s.sigSm (signCall o (bodyText body)) := by
  have key := keystoreSigningKey_serves s.signSk serves
  obtain ⟨id, deviceId, idText⟩ := keystoreDeviceId_serves (keystoreLoad_serves serves).2.2.1 s.signDeviceId
  by_cases empty : bodyText body = []
  · simp only [handleSignPost, signReply, signCall, signOutput, empty, if_true, and_self]
  · cases served : o with
    | none =>
        rw [served] at key
        simp only [handleSignPost, signReply, signCall, signOutput, empty, if_false, key, if_true, and_self]
    | some r =>
        rw [served] at key deviceId
        have challengeEq := jsonGetString_eq (bodyText body) (ascii "challenge") (by decide) s.challenge
        have contextEq := jsonGetString_eq (bodyText body) (ascii "context") (by decide) s.context
        have timestampEq := jsonGetString_eq (bodyText body) (ascii "timestamp") (by decide) s.timestamp
        cases challenge : jsonField (bodyText body) (ascii "challenge") 256 with
        | none =>
            rw [challenge] at challengeEq
            simp only [handleSignPost, signReply, signCall, signOutput, empty, if_false, key, deviceId, Option.isSome_some,
              Bool.true_eq_false, challengeEq, if_true, challenge, and_self]
        | some c =>
            rw [challenge] at challengeEq
            obtain ⟨buf₁, challengeEq, cText⟩ := challengeEq
            cases context : jsonField (bodyText body) (ascii "context") 128 with
            | none =>
                rw [context] at contextEq
                simp only [handleSignPost, signReply, signCall, signOutput, empty, if_false, key, deviceId, Option.isSome_some,
                  Bool.true_eq_false, challengeEq, if_true, challenge, context, contextEq, and_self]
            | some x =>
                rw [context] at contextEq
                obtain ⟨buf₂, contextEq, xText⟩ := contextEq
                cases timestamp : jsonField (bodyText body) (ascii "timestamp") 128 with
                | none =>
                    rw [timestamp] at timestampEq
                    simp only [handleSignPost, signReply, signCall, signOutput, empty, if_false, key, deviceId,
                      Option.isSome_some, Bool.true_eq_false, challengeEq, if_true, challenge, context,
                      contextEq, timestamp, timestampEq, and_self]
                | some t =>
                    rw [timestamp] at timestampEq
                    obtain ⟨buf₃, timestampEq, tText⟩ := timestampEq
                    simp only [handleSignPost, signReply, signCall, signOutput, empty, if_false, key, deviceId,
                      Option.isSome_some, Bool.true_eq_false, challengeEq, challenge, context, contextEq,
                      timestamp, timestampEq, cText, xText, tText, idText r served]
                    let message := signMessage c x t r.deviceId
                    by_cases long : message.length ≥ 1024
                    · rw [if_pos (show (signMessage c x t r.deviceId).length ≥ 1024 from long),
                        if_pos (show (signMessage c x t r.deviceId).length ≥ 1024 from long),
                        if_pos (show (c ++ ascii ":" ++ x ++ ascii ":" ++ t ++ ascii ":" ++
                          r.deviceId).length ≥ 1024 from long)]
                      exact ⟨rfl, rfl⟩
                    · have short : message.length < 1024 := Nat.not_le.mp long
                      have loaded := Region.load_snprintf s.signBody short
                      have signed := signedArray s.sigSm r.sk short
                      have text := cstr_base64 s.sigB64 (signature message r.sk.bytes)
                        (by rw [signature_length]; decide)
                      rw [if_neg (show ¬ (signMessage c x t r.deviceId).length ≥ 1024 from long),
                        if_neg (show ¬ (signMessage c x t r.deviceId).length ≥ 1024 from long),
                        if_neg (show ¬ (c ++ ascii ":" ++ x ++ ascii ":" ++ t ++ ascii ":" ++
                          r.deviceId).length ≥ 1024 from long)]
                      simp only [message, signMessage] at loaded signed text
                      simp only [signMessage, loaded, signed, text,
                        Region.cstr_snprintf _ _ (by decide : 0 < 1024), and_self]

theorem handleSignPost_spec {s : Http} (coherent : Coherent s.keystore) (body : Option Bytes) :
    (handleSignPost s body).1 = signReply (storedRecord s.flash) (bodyText body) :=
  (handleSignPost_result coherent.serves body).1

theorem handleSignPost_loads (s : Http) (body : Option Bytes) :
    Loads s.keystore (handleSignPost s body).2.keystore := by
  have key := keystoreSigningKey_after s.keystore s.signSk
  have once : Loads s.keystore (keystoreLoad s.keystore).2 := .load .refl
  simp only [handleSignPost]
  split
  · exact .refl
  · generalize keystoreSigningKey s.keystore s.signSk = signingKey at key ⊢
    obtain ⟨found, signSk, k₁⟩ := signingKey
    dsimp only at key ⊢
    subst key
    split
    · exact once
    · have id := keystoreDeviceId_after (keystoreLoad s.keystore).2 s.signDeviceId
        (RECORD_MAX_DEVICE_ID + 1)
      have twice := once.load
      generalize keystoreDeviceId (keystoreLoad s.keystore).2 s.signDeviceId
        (RECORD_MAX_DEVICE_ID + 1) = deviceId at id ⊢
      obtain ⟨found, signDeviceId, k₂⟩ := deviceId
      dsimp only at id ⊢
      subst id
      repeat' split
      all_goals exact twice

theorem handleSignPost_quiet (s : Http) (body : Option Bytes) :
    Quiet s.keystore (handleSignPost s body).2.keystore :=
  (handleSignPost_loads s body).quiet

/-- The reply for what the keystore serves. -/
def servedInfo (o : Option Record) (state : Bytes) : Response :=
  let idText := match o with
    | none => ascii "null"
    | some r => ascii "\"" ++ r.deviceId ++ ascii "\""
  let text := ascii "\x7b\"device\":\"pico2\",\"firmware\":\"roman\",\"version\":\"" ++
    ROMAN_VERSION ++ ascii "\",\"engine\":\"C/tweetnacl\",\"id\":" ++
    content (idText.take (RECORD_MAX_DEVICE_ID + 7)) ++ ascii ",\"storage\":\"" ++ state ++
    ascii "\"\x7d"
  ⟨200, content (text.take 319)⟩

def servedState (o : Option Record) (f : Flash) : Bytes :=
  if storageWriten f = false then ascii "empty"
  else if o.isSome then ascii "provisioned" else ascii "corrupt"

def stateName (f : Flash) : Bytes := servedState (storedRecord f) f

/-- The reply for what is in flash. -/
def infoReply (f : Flash) : Response := servedInfo (storedRecord f) (stateName f)

theorem storageStateName_serves {s : Http} {o : Option Record} (serves : Serves s.keystore o) :
    storageStateName s = (servedState o s.flash, { s with keystore := (keystoreState s.keystore).2 }) := by
  have state := keystoreState_serves serves
  cases writen : storageWriten s.keystore.store.flash with
  | false => simp [storageStateName, state, servedState, Http.flash, writen]
  | true => cases o <;> simp [storageStateName, state, servedState, Http.flash, writen]

theorem handleInfo_serves {s : Http} {o : Option Record} (serves : Serves s.keystore o) :
    (handleInfo s).1 = servedInfo o (servedState o s.flash) := by
  obtain ⟨id, deviceId, idText⟩ := keystoreDeviceId_serves serves s.infoDeviceId
  have flash : (keystoreLoad s.keystore).2.store.flash = s.flash := (keystoreLoad_quiet s.keystore).flash
  have name : ∀ infoIdJson, storageStateName
      { s with infoDeviceId := id, keystore := (keystoreLoad s.keystore).2, infoIdJson } = _ :=
    fun _ => storageStateName_serves (keystoreLoad_serves serves).2.2.1
  simp only [Http.flash, flash] at name
  cases served : o with
  | none =>
      rw [served] at deviceId
      simp only [handleInfo, deviceId, name, servedInfo, served, Option.isSome_none, Bool.false_eq_true,
        if_false, Region.cstr_snprintf _ _ (by decide : 0 < 320),
        Region.cstr_snprintf _ _ (by decide : 0 < RECORD_MAX_DEVICE_ID + 8)]
      rfl
  | some r =>
      rw [served] at deviceId
      simp only [handleInfo, deviceId, name, servedInfo, served, Option.isSome_some, if_true, idText r served,
        Region.cstr_snprintf _ _ (by decide : 0 < 320),
        Region.cstr_snprintf _ _ (by decide : 0 < RECORD_MAX_DEVICE_ID + 8)]
      rfl

theorem handleInfo_spec {s : Http} (coherent : Coherent s.keystore) :
    (handleInfo s).1 = infoReply s.flash := by
  rw [handleInfo_serves (o := storedRecord s.flash) coherent.serves]
  rfl

theorem handleInfo_keystore (s : Http) :
    (handleInfo s).2.keystore = (keystoreState (keystoreLoad s.keystore).2).2 := by
  have id := keystoreDeviceId_after s.keystore s.infoDeviceId (RECORD_MAX_DEVICE_ID + 1)
  simp only [handleInfo]
  generalize keystoreDeviceId s.keystore s.infoDeviceId (RECORD_MAX_DEVICE_ID + 1) = deviceId at id ⊢
  obtain ⟨found, infoDeviceId, k₁⟩ := deviceId
  dsimp only at id ⊢
  rw [← id]
  rfl

theorem handleInfo_loads (s : Http) : Loads s.keystore (handleInfo s).2.keystore := by
  rw [handleInfo_keystore]
  exact Loads.state (.load .refl)

theorem handleInfo_quiet (s : Http) : Quiet s.keystore (handleInfo s).2.keystore :=
  (handleInfo_loads s).quiet

/-- The reply to an accepted provisioning. -/
def acceptedReply (f : Flash) : Response :=
  if storageAvailable f = false then reply 200 "\x7b\"status\":\"ok\",\"writen\":true\x7d"
  else
    let text := ascii "\x7b\"status\":\"ok\",\"writen\":true,\"x25519_pk\":\"" ++
      content (base64Encode (NorFlash.read f 0x24 STORAGE_KEY_LEN)) ++ ascii "\"\x7d"
    ⟨200, content (text.take 159)⟩

def provisionReply (f : Flash) : KeystoreStatus → Response
  | .ok => acceptedReply f
  | .errAlready => reply 403 "\x7b\"error\":\"already provisioned\",\"writen\":true\x7d"
  | .errMismatch => reply 400 "\x7b\"error\":\"pk does not match sk\"\x7d"
  | .errFlash => reply 500 "\x7b\"error\":\"flash write failed\"\x7d"
  | .errArg => reply 400 "\x7b\"error\":\"invalid pk/sk/device_id\"\x7d"

def writeReply (k : Keystore) (contentLength : Int) (env : FlashEnv) (body : Bytes) :
    Outcome (Response × Keystore) :=
  if keystoreWriten k then
    .done (reply 403 "\x7b\"error\":\"already provisioned\",\"writen\":true\x7d", k)
  else if body = [] then .done (reply 400 "\x7b\"error\":\"Empty request body\"\x7d", k)
  else if contentLength > HTTP_FORM_BODY_LIMIT then
    .done (reply 413 "\x7b\"error\":\"request too large\"\x7d", k)
  else match jsonField body (ascii "pk") 64 with
  | none => .done (reply 400 "\x7b\"error\":\"Missing field: pk\"\x7d", k)
  | some pkB64 =>
  match jsonField body (ascii "sk") 128 with
  | none => .done (reply 400 "\x7b\"error\":\"Missing field: sk\"\x7d", k)
  | some skB64 =>
  match jsonField body (ascii "device_id") (RECORD_MAX_DEVICE_ID + 1) with
  | none => .done (reply 400 "\x7b\"error\":\"Missing field: device_id\"\x7d", k)
  | some deviceId =>
      (keystoreProvision k env pkB64 skB64 deviceId).map fun w =>
        (provisionReply w.2.store.flash w.1, w.2)

/-- The replies that do not depend on the keystore. -/
def writeReplies : List (Nat × String) :=
  [(403, "\x7b\"error\":\"already provisioned\",\"writen\":true\x7d"),
    (400, "\x7b\"error\":\"Empty request body\"\x7d"), (413, "\x7b\"error\":\"request too large\"\x7d"),
    (400, "\x7b\"error\":\"Missing field: pk\"\x7d"), (400, "\x7b\"error\":\"Missing field: sk\"\x7d"),
    (400, "\x7b\"error\":\"Missing field: device_id\"\x7d"), (400, "\x7b\"error\":\"pk does not match sk\"\x7d"),
    (500, "\x7b\"error\":\"flash write failed\"\x7d"), (400, "\x7b\"error\":\"invalid pk/sk/device_id\"\x7d")]

theorem writeReply_cases {k k' : Keystore} {contentLength : Int} {env : FlashEnv} {body : Bytes}
    {r : Response} (done : writeReply k contentLength env body = .done (r, k')) :
    (∃ f, r = acceptedReply f) ∨ ∃ p ∈ writeReplies, r = reply p.1 p.2 := by
  have known : ∀ p ∈ writeReplies, r = reply p.1 p.2 →
      (∃ f, r = acceptedReply f) ∨ ∃ p ∈ writeReplies, r = reply p.1 p.2 := fun p member eq => .inr ⟨p, member, eq⟩
  unfold writeReply at done
  split at done
  · cases done
    exact known (403, _) (by simp [writeReplies]) rfl
  split at done
  · cases done
    exact known (400, _) (by simp [writeReplies]) rfl
  split at done
  · cases done
    exact known (413, _) (by simp [writeReplies]) rfl
  split at done
  · cases done
    exact known (400, _) (by simp [writeReplies]) rfl
  split at done
  · cases done
    exact known (400, _) (by simp [writeReplies]) rfl
  split at done
  · cases done
    exact known (400, _) (by simp [writeReplies]) rfl
  · obtain ⟨⟨status, k₁⟩, eq⟩ := Outcome.of_map_done done
    cases eq
    cases status with
    | ok => exact .inl ⟨_, rfl⟩
    | errAlready => exact known (403, _) (by simp [writeReplies]) rfl
    | errMismatch => exact known (400, _) (by simp [writeReplies]) rfl
    | errFlash => exact known (500, _) (by simp [writeReplies]) rfl
    | errArg => exact known (400, _) (by simp [writeReplies]) rfl

theorem writeAccepted_spec (s : Http) :
    (writeAccepted s).1 = acceptedReply s.flash ∧ (writeAccepted s).2.keystore = s.keystore := by
  have flash : { s with httpStats.writeOk := s.httpStats.writeOk + 1 }.flash = s.flash := rfl
  cases available : storageAvailable s.flash with
  | false =>
      simp only [writeAccepted, flash, storageX25519Pk, acceptedReply, available, if_true,
        Bool.false_eq_true, if_false]
      exact ⟨trivial, trivial⟩
  | true =>
      have whole := Region.store_whole s.xPk (NorFlash.read s.flash 0x24 STORAGE_KEY_LEN)
        (read_length _ _ _)
      have text := cstr_base64 s.xPkB64 (NorFlash.read s.flash 0x24 STORAGE_KEY_LEN)
        (by rw [read_length]; decide)
      simp only [writeAccepted, flash, storageX25519Pk, acceptedReply, available, if_true,
        Bool.true_eq_false, if_false, whole, text, Region.cstr_snprintf _ _ (by decide : 0 < 160)]
      exact ⟨trivial, trivial⟩

theorem handleWritePost_spec (s : Http) (contentLength : Int) (env : FlashEnv) (body : Option Bytes) :
    (handleWritePost s contentLength env body).map (fun w => (w.1, w.2.keystore)) =
      writeReply s.keystore contentLength env (bodyText body) := by
  simp only [handleWritePost, writeReply]
  by_cases set : keystoreWriten s.keystore = true
  · rw [if_pos set, if_pos set]
    rfl
  rw [if_neg set, if_neg set]
  by_cases empty : bodyText body = []
  · rw [if_pos empty, if_pos empty]
    rfl
  rw [if_neg empty, if_neg empty]
  by_cases large : contentLength > HTTP_FORM_BODY_LIMIT
  · rw [if_pos large, if_pos large]
    rfl
  rw [if_neg large, if_neg large]
  have pkEq := jsonGetString_eq (bodyText body) (ascii "pk") (by decide) s.pkB64
  cases pk : jsonField (bodyText body) (ascii "pk") 64 with
  | none =>
      rw [pk] at pkEq
      simp only [pkEq, if_true]
      rfl
  | some pkB64 =>
      rw [pk] at pkEq
      obtain ⟨buf₁, pkEq, pkText⟩ := pkEq
      have skEq := jsonGetString_eq (bodyText body) (ascii "sk") (by decide) s.skB64
      cases sk : jsonField (bodyText body) (ascii "sk") 128 with
      | none =>
          rw [sk] at skEq
          simp only [pkEq, skEq, Bool.true_eq_false, if_false, if_true]
          rfl
      | some skB64 =>
          rw [sk] at skEq
          obtain ⟨buf₂, skEq, skText⟩ := skEq
          have idEq := jsonGetString_eq (bodyText body) (ascii "device_id") (by decide) s.writeDeviceId
          cases id : jsonField (bodyText body) (ascii "device_id") (RECORD_MAX_DEVICE_ID + 1) with
          | none =>
              rw [id] at idEq
              simp only [pkEq, skEq, idEq, Bool.true_eq_false, if_false, if_true]
              rfl
          | some deviceId =>
              rw [id] at idEq
              obtain ⟨buf₃, idEq, idText⟩ := idEq
              simp only [pkEq, skEq, idEq, Bool.true_eq_false, if_false, pkText, skText, idText]
              cases keystoreProvision s.keystore env pkB64 skB64 deviceId with
              | cut f => rfl
              | done w =>
                  obtain ⟨status, keystore⟩ := w
                  cases status with
                  | ok =>
                      obtain ⟨response, same⟩ := writeAccepted_spec
                        { s with pkB64 := buf₁, skB64 := buf₂, writeDeviceId := buf₃, keystore }
                      exact congrArg Outcome.done (Prod.ext response same)
                  | errArg | errMismatch | errAlready | errFlash => rfl

/-- The key of an erase request: "sk" counts when "ed25519_sk" is not there. -/
def clearKey (body : Bytes) : Option Bytes :=
  match jsonField body (ascii "ed25519_sk") 128 with
  | some key => some key
  | none => jsonField body (ascii "sk") 128

def clearStatusReply : KeystoreClearStatus → Response
  | .ok => reply 200 "\x7b\"status\":\"ok\",\"writen\":false\x7d"
  | .empty => reply 200 "\x7b\"status\":\"ok\",\"writen\":false,\"note\":\"nothing stored\"\x7d"
  | .errArg => reply 400 "\x7b\"error\":\"invalid ed25519_sk\"\x7d"
  | .errDenied => reply 403 "\x7b\"error\":\"ed25519_sk does not match\"\x7d"
  | .errFlash => reply 500 "\x7b\"error\":\"flash erase failed\"\x7d"

def clearReply (k : Keystore) (contentLength : Int) (env : FlashEnv) (body : Bytes) :
    Outcome (Response × Keystore) :=
  if body = [] then .done (reply 400 "\x7b\"error\":\"Empty request body\"\x7d", k)
  else if contentLength > HTTP_FORM_BODY_LIMIT then
    .done (reply 413 "\x7b\"error\":\"request too large\"\x7d", k)
  else match clearKey body with
  | none => .done (reply 400 "\x7b\"error\":\"Missing field: ed25519_sk\"\x7d", k)
  | some key => (keystoreClear k env.erase key).map fun w => (clearStatusReply w.1, w.2)

def clearReplies : List (Nat × String) :=
  [(400, "\x7b\"error\":\"Empty request body\"\x7d"), (413, "\x7b\"error\":\"request too large\"\x7d"),
    (400, "\x7b\"error\":\"Missing field: ed25519_sk\"\x7d"), (200, "\x7b\"status\":\"ok\",\"writen\":false\x7d"),
    (200, "\x7b\"status\":\"ok\",\"writen\":false,\"note\":\"nothing stored\"\x7d"),
    (400, "\x7b\"error\":\"invalid ed25519_sk\"\x7d"), (403, "\x7b\"error\":\"ed25519_sk does not match\"\x7d"),
    (500, "\x7b\"error\":\"flash erase failed\"\x7d")]

theorem clearReply_cases {k k' : Keystore} {contentLength : Int} {env : FlashEnv} {body : Bytes}
    {r : Response} (done : clearReply k contentLength env body = .done (r, k')) :
    ∃ p ∈ clearReplies, r = reply p.1 p.2 := by
  unfold clearReply at done
  split at done
  · cases done
    exact ⟨(400, _), by simp [clearReplies], rfl⟩
  split at done
  · cases done
    exact ⟨(413, _), by simp [clearReplies], rfl⟩
  split at done
  · cases done
    exact ⟨(400, _), by simp [clearReplies], rfl⟩
  · obtain ⟨⟨status, k₁⟩, eq⟩ := Outcome.of_map_done done
    cases eq
    cases status with
    | ok | empty => exact ⟨(200, _), by simp [clearReplies], rfl⟩
    | errArg => exact ⟨(400, _), by simp [clearReplies], rfl⟩
    | errDenied => exact ⟨(403, _), by simp [clearReplies], rfl⟩
    | errFlash => exact ⟨(500, _), by simp [clearReplies], rfl⟩

/-- The two lookups of `handle_clear_post`, into whatever array. -/
theorem clearKey_eq (body : Bytes) (buf : Region 128) :
    match clearKey body with
    | none => ∃ buf', (if (jsonGetString body (ascii "ed25519_sk") buf).1 then
        (true, (jsonGetString body (ascii "ed25519_sk") buf).2)
        else jsonGetString body (ascii "sk") (jsonGetString body (ascii "ed25519_sk") buf).2) =
          (false, buf')
    | some key => ∃ buf', (if (jsonGetString body (ascii "ed25519_sk") buf).1 then
        (true, (jsonGetString body (ascii "ed25519_sk") buf).2)
        else jsonGetString body (ascii "sk") (jsonGetString body (ascii "ed25519_sk") buf).2) =
          (true, buf') ∧ buf'.cstr = key := by
  have longEq := jsonGetString_eq body (ascii "ed25519_sk") (by decide) buf
  cases long : jsonField body (ascii "ed25519_sk") 128 with
  | some key =>
      rw [long] at longEq
      obtain ⟨buf', eq, text⟩ := longEq
      simp only [clearKey, long, eq, if_true]
      exact ⟨buf', rfl, text⟩
  | none =>
      rw [long] at longEq
      have shortEq := jsonGetString_eq body (ascii "sk") (by decide) buf
      simp only [clearKey, long, longEq, Bool.false_eq_true, if_false]
      cases short : jsonField body (ascii "sk") 128 with
      | none =>
          rw [short] at shortEq
          exact ⟨buf, shortEq⟩
      | some key =>
          rw [short] at shortEq
          exact shortEq

theorem handleClearPost_spec (s : Http) (contentLength : Int) (env : FlashEnv) (body : Option Bytes) :
    (handleClearPost s contentLength env body).map (fun w => (w.1, w.2.keystore)) =
      clearReply s.keystore contentLength env (bodyText body) := by
  simp only [handleClearPost, clearReply]
  by_cases empty : bodyText body = []
  · rw [if_pos empty, if_pos empty]
    rfl
  rw [if_neg empty, if_neg empty]
  by_cases large : contentLength > HTTP_FORM_BODY_LIMIT
  · rw [if_pos large, if_pos large]
    rfl
  rw [if_neg large, if_neg large]
  have keyEq := clearKey_eq (bodyText body) s.keyB64
  cases key : clearKey (bodyText body) with
  | none =>
      rw [key] at keyEq
      obtain ⟨buf, keyEq⟩ := keyEq
      simp only [keyEq, if_true]
      rfl
  | some keyText =>
      rw [key] at keyEq
      obtain ⟨buf, keyEq, text⟩ := keyEq
      simp only [keyEq, Bool.true_eq_false, if_false, text]
      cases keystoreClear s.keystore env.erase keyText with
      | cut f => rfl
      | done w =>
          obtain ⟨status, keystore⟩ := w
          cases status <;> rfl

end Roman
