import Roman.Lib.Joined
import Roman.HttpServer.JsonRuns

/-! # What a signature binds

The signed message joins three fields of the client and the device id by colons. A
device id holds no colon, so the message tells the device; the fields of the client may
hold colons, and then a message can be read in several ways.
-/

namespace Roman

open CMem CStr NorFlash TweetNacl

theorem colon_eq : ascii ":" = [0x3A] := ascii_ofList _

theorem deviceId_colon (r : Record) : (0x3A : UInt8) ∉ r.deviceId := by
  intro member
  have char := (idRule_iff.mp r.valid).2.2 _ member
  exact absurd char (by decide)

/-- A message can be taken apart from behind; in front it takes the number of colons in
    each field. -/
theorem signMessage_inj {c x t id c' x' t' id' : Bytes} (same : signMessage c x t id = signMessage c' x' t' id')
    (absent : (0x3A : UInt8) ∉ id) (absent' : (0x3A : UInt8) ∉ id') :
    id = id' ∧ ((c = c' ∧ x = x' ∧ t = t') ↔
      (c.count 0x3A = c'.count 0x3A ∧ x.count 0x3A = x'.count 0x3A)) := by
  simp only [signMessage, colon_eq, List.append_assoc, List.singleton_append] at same
  have ends : (c ++ 0x3A :: (x ++ 0x3A :: t)) ++ 0x3A :: id = (c' ++ 0x3A :: (x' ++ 0x3A :: t')) ++ 0x3A :: id' := by
    simp only [List.append_assoc, List.cons_append]
    exact same
  obtain ⟨fields, rfl⟩ := Joined.split_of_notMem ends absent absent'
  refine ⟨rfl, ?_, ?_⟩
  · rintro ⟨rfl, rfl, rfl⟩
    exact ⟨rfl, rfl⟩
  · rintro ⟨challenge, context⟩
    obtain ⟨rfl, rest⟩ := Joined.split_of_count fields challenge
    obtain ⟨rfl, rfl⟩ := Joined.split_of_count rest context
    exact ⟨rfl, rfl, rfl⟩

/-- The fields as they are extracted from a body. -/
def challengeOf (s : Http) (body : Bytes) : Bytes := (jsonGetString body (ascii "challenge") s.challenge).2.cstr

def contextOf (s : Http) (body : Bytes) : Bytes := (jsonGetString body (ascii "context") s.context).2.cstr

def timestampOf (s : Http) (body : Bytes) : Bytes := (jsonGetString body (ascii "timestamp") s.timestamp).2.cstr

theorem jsonGetString_field {body key v : Bytes} {n : Nat} (room : 0 < n) (buf : Region n)
    (found : jsonField body key n = some v) : (jsonGetString body key buf).2.cstr = v := by
  have eq := jsonGetString_eq body key room buf
  rw [found] at eq
  obtain ⟨buf', eq, text⟩ := eq
  rw [eq, text]

theorem challengeOf_eq {s : Http} {body c : Bytes} (found : jsonField body (ascii "challenge") 256 = some c) :
    challengeOf s body = c := jsonGetString_field (by decide) s.challenge found

theorem contextOf_eq {s : Http} {body x : Bytes} (found : jsonField body (ascii "context") 128 = some x) :
    contextOf s body = x := jsonGetString_field (by decide) s.context found

theorem timestampOf_eq {s : Http} {body t : Bytes} (found : jsonField body (ascii "timestamp") 128 = some t) :
    timestampOf s body = t := jsonGetString_field (by decide) s.timestamp found

/-- The device id of a board, as `keystore_device_id` copies it. -/
def Http.deviceId (s : Http) : Bytes :=
  (keystoreDeviceId s.keystore s.signDeviceId (RECORD_MAX_DEVICE_ID + 1)).2.1.cstr

/-- The event is a POST /sign with this body, it is answered 200, and `crypto_sign` is
    called for this message: whatever its array held, it holds the signed message. -/
structure SignedRequest (s : Http) (a : BoardEvent) (body message : Bytes) : Prop where
  asked : ∃ w st, a.dispatched = some (w, st) ∧
    requestLine st.buf.cstr = some (ascii "POST", ascii "/sign") ∧ bodyText st.body = body
  answered : ∃ r, a.response s = some r ∧ r.status = 200
  signed : ∃ sk, ∀ held, (boardStep { s with sigSm := held } a).sigSm = held.store 0 (cryptoSign message sk)

section
variable {s : Http} {o : Option Record} (serves : Serves s.keystore o)
include serves

/-- What the event leaves in the array of the signed message. -/
theorem signEvent_sigSm {a : BoardEvent} {w : World} {st : HttpState} (dispatched : a.dispatched = some (w, st))
    (line : requestLine st.buf.cstr = some (ascii "POST", ascii "/sign")) (held : Region 2048) :
    (boardStep { s with sigSm := held } a).sigSm = signOutput held (signCall o (bodyText st.body)) := by
  have route : st.route w = .sign := by
    rw [HttpState.route, line]
    rfl
  have given : Serves ({ s with sigSm := held } : Http).counted.keystore o := serves
  have done : httpRoute w st { s with sigSm := held } =
      unchanged st (handleSignPost ({ s with sigSm := held } : Http).counted st.body) := by
    rw [httpRoute_eq, route]
  rw [boardStep_done dispatched done]
  exact (handleSignPost_result given st.body).2

theorem signEvent_response {a : BoardEvent} {w : World} {st : HttpState} (dispatched : a.dispatched = some (w, st))
    (line : requestLine st.buf.cstr = some (ascii "POST", ascii "/sign")) :
    a.response s = some (signReply o (bodyText st.body)) := by
  have route : st.route w = .sign := by
    rw [HttpState.route, line]
    rfl
  have given : Serves s.counted.keystore o := serves
  simp only [BoardEvent.response, dispatched, httpRoute_eq, route, unchanged, (handleSignPost_result given st.body).1]

/-- What is signed are the extracted fields and the id of the board. -/
theorem SignedRequest.message_eq {a : BoardEvent} {body message : Bytes} (request : SignedRequest s a body message) :
    ∃ r : Record, s.deviceId = r.deviceId ∧
      message = signMessage (challengeOf s body) (contextOf s body) (timestampOf s body) r.deviceId := by
  obtain ⟨w, st, dispatched, line, rfl⟩ := request.asked
  obtain ⟨reply, responds, ok⟩ := request.answered
  rw [signEvent_response serves dispatched line, Option.some.injEq] at responds
  subst responds
  obtain ⟨r, c, x, t, rfl, challenge, context, timestamp, short, call⟩ := signReply_signed ok
  obtain ⟨out, deviceId, idText⟩ := keystoreDeviceId_serves serves s.signDeviceId
  obtain ⟨sk, signed⟩ := request.signed
  refine ⟨r, ?_, ?_⟩
  · rw [Http.deviceId, deviceId, idText r rfl]
  · rw [challengeOf_eq challenge, contextOf_eq context, timestampOf_eq timestamp]
    have size : (cryptoSign (signMessage c x t r.deviceId) r.sk.bytes).length < 2048 := by
      rw [cryptoSign, List.length_append, signature_length]
      omega
    have same : cryptoSign (signMessage c x t r.deviceId) r.sk.bytes = cryptoSign message sk := by
      apply Region.store_inj size
      intro held
      have output := signEvent_sigSm serves dispatched line held
      rw [call, signOutput] at output
      rw [← output, signed held]
    exact (cryptoSign_inj same).symm

end

/-- Equal messages come from boards with the same device id; and they come from the same
    fields exactly if both challenges hold as many colons, and both contexts do. -/
theorem signature_binds {s s' : Http} (reachable : Reachable s) (reachable' : Reachable s') {a a' : BoardEvent}
    {body body' message : Bytes} (request : SignedRequest s a body message)
    (request' : SignedRequest s' a' body' message) :
    s.deviceId = s'.deviceId ∧
      ((challengeOf s body = challengeOf s' body' ∧ contextOf s body = contextOf s' body' ∧
          timestampOf s body = timestampOf s' body') ↔
        ((challengeOf s body).count 0x3A = (challengeOf s' body').count 0x3A ∧
          (contextOf s body).count 0x3A = (contextOf s' body').count 0x3A)) := by
  obtain ⟨o, serves, -⟩ := reachable.backed.serves
  obtain ⟨o', serves', -⟩ := reachable'.backed.serves
  obtain ⟨r, id, eq⟩ := request.message_eq serves
  obtain ⟨r', id', eq'⟩ := request'.message_eq serves'
  rw [id, id']
  exact signMessage_inj (eq.symm.trans eq') (deviceId_colon r) (deviceId_colon r')

/-- A complete sign request for these fields, on a board that serves a record. -/
theorem SignText.signedRequest {text body c x t : Bytes} (sign : SignText text body) {s : Http} {r : Record}
    (serves : Serves s.keystore (some r)) (nonempty : body ≠ [])
    (challenge : jsonField body (ascii "challenge") 256 = some c)
    (context : jsonField body (ascii "context") 128 = some x)
    (timestamp : jsonField body (ascii "timestamp") 128 = some t)
    (short : (signMessage c x t r.deviceId).length < 1024) :
    SignedRequest s (signEvent text) body (signMessage c x t r.deviceId) := by
  have dispatched := signEvent_dispatched sign
  have line := signText_line sign
  have call : signCall (some r) body = some (signMessage c x t r.deviceId, r.sk.bytes) := by
    simp only [signCall, if_neg nonempty, challenge, context, timestamp, if_neg (Nat.not_le.mpr short)]
  have ok : (signReply (some r) body).status = 200 := by
    simp only [signReply, if_neg nonempty, challenge, context, timestamp, if_neg (Nat.not_le.mpr short)]
  constructor
  · exact ⟨_, _, dispatched, line, signText_body sign⟩
  · refine ⟨_, signEvent_response serves dispatched line, ?_⟩
    rw [signText_body sign]
    exact ok
  · refine ⟨r.sk.bytes, fun held => ?_⟩
    rw [signEvent_sigSm serves dispatched line, signText_body sign, call, signOutput]

/-- The challenge is `a:b` here, -/
def firstBody : Bytes := ascii "\x7b\"challenge\":\"a:b\",\"context\":\"c\",\"timestamp\":\"0\"\x7d"

/-- and the context `b:c` here. -/
def secondBody : Bytes := ascii "\x7b\"challenge\":\"a\",\"context\":\"b:c\",\"timestamp\":\"0\"\x7d"

def firstSign : Bytes := ascii "POST /sign HTTP/1.1\r\nContent-Length: 49\r\n\r\n" ++ firstBody

def secondSign : Bytes := ascii "POST /sign HTTP/1.1\r\nContent-Length: 49\r\n\r\n" ++ secondBody

theorem firstSign_text : SignText firstSign firstBody := by
  constructor <;> decide +kernel

theorem secondSign_text : SignText secondSign secondBody := by
  constructor <;> decide +kernel

theorem firstSign_request :
    SignedRequest provisionedBoard (signEvent firstSign) firstBody
      (signMessage (ascii "a:b") (ascii "c") (ascii "0") sampleRecord.deviceId) :=
  firstSign_text.signedRequest provisionedBoard_serves (by decide +kernel) (by decide +kernel) (by decide +kernel)
    (by decide +kernel) (by decide +kernel)

theorem secondSign_request :
    SignedRequest provisionedBoard (signEvent secondSign) secondBody
      (signMessage (ascii "a") (ascii "b:c") (ascii "0") sampleRecord.deviceId) :=
  secondSign_text.signedRequest provisionedBoard_serves (by decide +kernel) (by decide +kernel) (by decide +kernel)
    (by decide +kernel) (by decide +kernel)

theorem messages_same (id : Bytes) : signMessage (ascii "a:b") (ascii "c") (ascii "0") id =
    signMessage (ascii "a") (ascii "b:c") (ascii "0") id := by
  simp only [signMessage, colon_eq, (ascii_ofList _ : ascii "a:b" = _), (ascii_ofList _ : ascii "c" = _),
    (ascii_ofList _ : ascii "a" = _), (ascii_ofList _ : ascii "b:c" = _)]
  rfl

/-- The challenges of these two hold one colon and none. -/
theorem signature_binds_sample :
    (challengeOf provisionedBoard firstBody = challengeOf provisionedBoard secondBody ∧
        contextOf provisionedBoard firstBody = contextOf provisionedBoard secondBody ∧
        timestampOf provisionedBoard firstBody = timestampOf provisionedBoard secondBody) ↔
      ((challengeOf provisionedBoard firstBody).count 0x3A = (challengeOf provisionedBoard secondBody).count 0x3A ∧
        (contextOf provisionedBoard firstBody).count 0x3A = (contextOf provisionedBoard secondBody).count 0x3A) := by
  have second := secondSign_request
  rw [← messages_same] at second
  exact (signature_binds provisionedBoard_reachable provisionedBoard_reachable firstSign_request second).2

/-- One signature for two challenges. -/
theorem signature_ambiguous : ¬ ∀ s s' a a' body body' message, Reachable s → Reachable s' →
    SignedRequest s a body message → SignedRequest s' a' body' message →
    challengeOf s body = challengeOf s' body' ∧ contextOf s body = contextOf s' body' ∧
      timestampOf s body = timestampOf s' body' ∧ s.deviceId = s'.deviceId := by
  intro binds
  have second := secondSign_request
  rw [← messages_same] at second
  have same := (binds _ _ _ _ _ _ _ provisionedBoard_reachable provisionedBoard_reachable firstSign_request second).1
  have challenge : jsonField firstBody (ascii "challenge") 256 = some (ascii "a:b") := by decide +kernel
  have challenge' : jsonField secondBody (ascii "challenge") 256 = some (ascii "a") := by decide +kernel
  rw [challengeOf_eq challenge, challengeOf_eq challenge', (ascii_ofList _ : ascii "a:b" = _),
    (ascii_ofList _ : ascii "a" = _)] at same
  exact absurd same (by decide)

end Roman
