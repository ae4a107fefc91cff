import Roman.Answers
import Roman.HttpServer.JsonReplies

/-! # Every reply is a JSON text

On every reachable board the keystore serves some record or none, so what each handler
replies is known. All replies are JSON texts but one: POST /sign pastes the timestamp
of the client between two quotes, where a backslash takes the closing quote away.
-/

namespace Roman

open CMem CStr NorFlash TweetNacl Json

theorem Reachable.backed {s : Http} (reachable : Reachable s) : Backed s.keystore := by
  obtain ⟨f, e, events, rfl⟩ := reachable
  exact boardRun_backed f e events

namespace BoardEvent

/-- What `http_recv_cb` hands to `http_send_response`, if anything. -/
def sends (s : Http) : BoardEvent → Option Response
  | .recv w st data _ =>
      match httpReceive st data with
      | .tooLarge _ => some (reply 413 "\x7b\"error\":\"Request too large\"\x7d")
      | .complete st =>
          match httpRoute w st s with
          | .done (r, _, _) => some r
          | .cut _ => none
      | _ => none
  | .reboot _ => none

/-- The event dispatches an OPTIONS request. -/
def Options (a : BoardEvent) : Prop :=
  ∃ w st path, a.dispatched = some (w, st) ∧ requestLine st.buf.cstr = some (ascii "OPTIONS", path)

/-- The texts the snapshot prints are those of the SDK, of lwIP and of diag.c. -/
def Texts : BoardEvent → Prop
  | .recv w _ _ _ => w.platform.Texts
  | .reboot _ => True

/-- The event dispatches a POST /sign that is signed, and this is the timestamp in it. -/
def Signs (s : Http) (a : BoardEvent) (t : Bytes) : Prop :=
  ∃ w st r, a.dispatched = some (w, st) ∧ requestLine st.buf.cstr = some (ascii "POST", ascii "/sign") ∧
    Serves s.keystore (some r) ∧ (signCall (some r) (bodyText st.body)).isSome ∧
    jsonField (bodyText st.body) (ascii "timestamp") 128 = some t

end BoardEvent

/-- The reply is on the wire behind its header, or the connection is closed. -/
theorem sends_recvCb {w : World} {st : HttpState} {data : Bytes} {next : Entropy} {s : Http} {r : Response}
    (sends : (BoardEvent.recv w st data next).sends s = some r) :
    ∃ st₁ s', httpRecvCb w st s data =
      .done (.recved data.length :: (httpSendResponse st₁ r w.tcpWrites).2,
        (httpSendResponse st₁ r w.tcpWrites).1, s') := by
  simp only [BoardEvent.sends] at sends
  simp only [httpRecvCb]
  cases received : httpReceive st data with
  | ignored => simp [received] at sends
  | waiting st₁ => simp [received] at sends
  | tooLarge st₁ =>
      simp only [received, Option.some.injEq] at sends
      rw [← sends]
      exact ⟨st₁, _, rfl⟩
  | complete st₁ =>
      simp only [received] at sends
      simp only [httpProcessRequest]
      cases route : httpRoute w st₁ s with
      | cut f => simp [route] at sends
      | done answer =>
          obtain ⟨r', st₂, s'⟩ := answer
          simp only [route, Option.some.injEq] at sends
          rw [← sends]
          exact ⟨st₂, s', rfl⟩

/-- The body is a JSON text, or empty for OPTIONS; and a signed reply has the three
    members, with the stored id and a timestamp without control characters. -/
structure JsonReply (s : Http) (a : BoardEvent) (r : Response) : Prop where
  body : (r.body = [] ∧ a.Options) ∨ Json.WellFormed r.body
  signed : a.Posts (ascii "/sign") → r.status = 200 → ∃ stored sig t, storedRecord s.flash = some stored ∧
    Element (.obj [(ascii "signature", .str sig), (ascii "timestamp", .str t),
      (ascii "device_id", .str stored.deviceId)]) r.body ∧ ∀ b ∈ t, 0x20 ≤ b

/-- A well-formed reply to anything but POST /sign. -/
theorem jsonReply_other {s : Http} {a : BoardEvent} {r : Response} (other : ¬ a.Posts (ascii "/sign"))
    (body : (r.body = [] ∧ a.Options) ∨ Json.WellFormed r.body) :
    JsonReply s a r ↔ ∀ t, a.Signs s t → Chars t ∧ (storedRecord s.flash).isSome := by
  refine iff_of_true ⟨body, fun posts => absurd posts other⟩ ?_
  rintro t ⟨w, st, record, dispatched, line, -⟩
  exact absurd ⟨w, st, dispatched, line⟩ other

theorem post_ne_options : ascii "POST" ≠ ascii "OPTIONS" := by
  rw [(ascii_ofList _ : ascii "POST" = _), (ascii_ofList _ : ascii "OPTIONS" = _)]
  decide

/-- The reply of POST /sign. -/
theorem jsonReply_sign {s : Http} {a : BoardEvent} {w : World} {st : HttpState} {o : Option Record}
    (dispatched : a.dispatched = some (w, st))
    (line : requestLine st.buf.cstr = some (ascii "POST", ascii "/sign")) (serves : Serves s.keystore o)
    (stored : storedRecord s.flash = o ∨ storedRecord s.flash = none) :
    JsonReply s a (signReply o (bodyText st.body)) ↔
      ∀ t, a.Signs s t → Chars t ∧ (storedRecord s.flash).isSome := by
  have posts : a.Posts (ascii "/sign") := ⟨w, st, dispatched, line⟩
  -- the timestamp of the request is the one that is looked up here
  have asked : ∀ {t'}, a.Signs s t' → ∃ r, o = some r ∧ (signCall (some r) (bodyText st.body)).isSome ∧
      jsonField (bodyText st.body) (ascii "timestamp") 128 = some t' := by
    rintro t' ⟨w', st', r, dispatched', line', serves', call, timestamp⟩
    rw [dispatched] at dispatched'
    cases dispatched'
    exact ⟨r, serves.unique serves', call, timestamp⟩
  cases signedOrRefused o (bodyText st.body) with
  | refused call status formed =>
      refine iff_of_true ⟨.inr formed, fun _ accepted => absurd accepted status⟩ ?_
      intro t' signs
      obtain ⟨r, rfl, called, -⟩ := asked signs
      rw [call] at called
      cases called
  | @signed r m t record timestamp call answer =>
      subst record
      have absent := (jsonField_text (by decide) timestamp).2.2
      rw [answer]
      constructor
      · intro replies t' signs
        obtain ⟨r', same, -, timestamp'⟩ := asked signs
        rw [timestamp, Option.some.injEq] at timestamp'
        subst timestamp'
        obtain ⟨stored', sig, t', isStored, -⟩ := replies.signed posts rfl
        refine ⟨?_, by rw [isStored]; rfl⟩
        rcases replies.body with ⟨-, w', st', path, dispatched', options⟩ | formed
        · rw [dispatched] at dispatched'
          cases dispatched'
          rw [line, Option.some.injEq, Prod.mk.injEq] at options
          exact absurd options.1 post_ne_options
        · exact (signedReply_formed_iff absent r).mp formed
      · intro fits
        obtain ⟨chars, isStored⟩ := fits t ⟨w, st, r, dispatched, line, serves, by rw [call]; rfl, timestamp⟩
        have whole : storedRecord s.flash = some r := by
          rcases stored with same | none
          · exact same
          · rw [none] at isStored
            cases isStored
        have element := @signedReply_element (signature m r.sk.bytes) _ chars r
        exact ⟨.inr ⟨_, element⟩, fun _ _ => ⟨r, _, t, whole, element, chars.printed⟩⟩

theorem rootReply_formed : Json.WellFormed rootReply.body := by
  rw [rootReply, ROMAN_VERSION, (ascii_ofList _ : ascii "0.2" = _),
    (ascii_ofList _ : ascii "\x7b\"device\":\"pico2\",\"firmware\":\"roman\",\"version\":\"" = _),
    (ascii_ofList _ : ascii "\",\"ip\":\"192.168.7.1\",\"status\":\"running\",\"endpoints\":" = _),
    (ascii_ofList _ : ascii "[\"/health\",\"/sign\",\"/info\",\"/write\",\"/clear\",\"/debug\"]\x7d" = _)]
  exact wellFormed_text (by decide +kernel)

theorem signHelpReply_formed : Json.WellFormed signHelpReply.body := by
  rw [signHelpReply, (ascii_ofList _ : ascii "\x7b\"endpoint\":\"/sign\",\"method\":\"POST\"," = _),
    (ascii_ofList _ : ascii "\"fields\":[\"challenge\",\"context\",\"timestamp\"]\x7d" = _)]
  exact wellFormed_text (by decide +kernel)

/-- The reply of a dispatched request. -/
theorem httpRoute_json {s s' : Http} {a : BoardEvent} {w : World} {st st' : HttpState} {o : Option Record}
    {r : Response} (dispatched : a.dispatched = some (w, st)) (texts : w.platform.Texts)
    (serves : Serves s.keystore o) (stored : storedRecord s.flash = o ∨ storedRecord s.flash = none)
    (done : httpRoute w st s = .done (r, st', s')) :
    JsonReply s a r ↔ ∀ t, a.Signs s t → Chars t ∧ (storedRecord s.flash).isSome := by
  have counted : Serves s.counted.keystore o := serves
  have notPosted : st.route w ≠ .sign → ¬ a.Posts (ascii "/sign") := by
    rintro other ⟨w', st'', dispatched', line⟩
    rw [dispatched] at dispatched'
    cases dispatched'
    apply other
    rw [HttpState.route, line]
    rfl
  rw [httpRoute_eq] at done
  cases route : st.route w with
  | malformed | notFound =>
      rw [route] at done notPosted
      cases done
      exact jsonReply_other (notPosted (by simp)) (.inr (reply_formed (checked_text _ (by decide +kernel))))
  | fixed answer =>
      rw [route] at done notPosted
      cases done
      apply jsonReply_other (notPosted (by simp))
      have empty : (reply 200 "").body = [] := ascii_ofList _
      rcases routeOf_fixed route with ⟨rfl, path, line⟩ | rfl | rfl | rfl
      · exact .inl ⟨empty, w, st, path, dispatched, line⟩
      · exact .inr rootReply_formed
      · exact .inr (reply_formed (checked_text _ (by decide +kernel)))
      · exact .inr signHelpReply_formed
  | info =>
      rw [route] at done notPosted
      cases done
      rw [handleInfo_serves counted]
      exact jsonReply_other (notPosted (by simp)) (.inr (servedInfo_formed o s.counted.flash))
  | sign =>
      rw [route] at done
      cases done
      rw [(handleSignPost_result counted st.body).1]
      exact jsonReply_sign dispatched (routeOf_sign route) serves stored
  | write =>
      rw [route] at done notPosted
      obtain ⟨⟨r', s₁⟩, handled, eq⟩ := Outcome.map_done_iff.mp done
      cases eq
      have answer := handleWritePost_spec s.counted st.contentLength w.flash st.body
      rw [handled, Outcome.map_done] at answer
      exact jsonReply_other (notPosted (by simp)) (.inr (writeReply_formed answer.symm))
  | clear =>
      rw [route] at done notPosted
      obtain ⟨⟨r', s₁⟩, handled, eq⟩ := Outcome.map_done_iff.mp done
      cases eq
      have answer := handleClearPost_spec s.counted st.contentLength w.flash st.body
      rw [handled, Outcome.map_done] at answer
      exact jsonReply_other (notPosted (by simp)) (.inr (clearReply_formed answer.symm))
  | debug =>
      rw [route] at done notPosted
      obtain ⟨⟨r', reset, s₁⟩, handled, eq⟩ := Outcome.map_done_iff.mp done
      cases eq
      exact jsonReply_other (notPosted (by simp)) (.inr (handleDebug_formed texts counted handled))

/-- On every reachable board: a reply is a JSON text with the members it should have, if
    and only if it is not that of a POST /sign that gets signed, or the timestamp that was
    found may stand between quotes and flash still holds the record. -/
theorem replies_json {s : Http} (reachable : Reachable s) {a : BoardEvent} (texts : a.Texts) {r : Response}
    (sends : a.sends s = some r) :
    JsonReply s a r ↔ ∀ t, a.Signs s t → Chars t ∧ (storedRecord s.flash).isSome := by
  obtain ⟨o, serves, stored⟩ := reachable.backed.serves
  cases a with
  | reboot e => cases sends
  | recv w st data next =>
      cases received : httpReceive st data with
      | ignored => simp [BoardEvent.sends, received] at sends
      | waiting st₁ => simp [BoardEvent.sends, received] at sends
      | tooLarge st₁ =>
          simp only [BoardEvent.sends, received, Option.some.injEq] at sends
          rw [← sends]
          apply jsonReply_other
          · rintro ⟨w', st', dispatched, -⟩
            simp [BoardEvent.dispatched, received] at dispatched
          · exact .inr (reply_formed (checked_text _ (by decide +kernel)))
      | complete st₁ =>
          simp only [BoardEvent.sends, received] at sends
          cases route : httpRoute w st₁ s with
          | cut f => simp [route] at sends
          | done answer =>
              obtain ⟨r', st₂, s'⟩ := answer
              simp only [route, Option.some.injEq] at sends
              rw [← sends]
              have target : (BoardEvent.recv w st data next).dispatched = some (w, st₁) := by
                simp [BoardEvent.dispatched, received]
              exact httpRoute_json target texts serves stored route

/-- A bench whose last run went well. -/
def quietWorld : World := { benchWorld ⟨.ok, .ok⟩ with platform.bootStage := diagStageName .idle }

theorem quietWorld_texts : quietWorld.platform.Texts := ⟨nofun, nofun, nofun, .idle, rfl⟩

def plainBody : Bytes := ascii "\x7b\"challenge\":\"c\",\"context\":\"x\",\"timestamp\":\"1700000000\"\x7d"

/-- The timestamp is `1"2`, in a JSON text of its own. -/
def escapedBody : Bytes := ascii "\x7b\"challenge\":\"c\",\"context\":\"x\",\"timestamp\":\"1\\\"2\"\x7d"

def plainSign : Bytes := ascii "POST /sign HTTP/1.1\r\nContent-Length: 56\r\n\r\n" ++ plainBody

def escapedSign : Bytes := ascii "POST /sign HTTP/1.1\r\nContent-Length: 50\r\n\r\n" ++ escapedBody

def signEvent (text : Bytes) : BoardEvent := .recv quietWorld .accepted text silent

/-- The text is a complete sign request with this body. -/
structure SignText (text body : Bytes) : Prop where
  free : NulFree text
  small : text.length < HTTP_BUF_SIZE
  line : requestLine text = some (ascii "POST", ascii "/sign")
  blank : strstr text (ascii "\r\n\r\n") = some (ascii "\r\n\r\n" ++ body)
  length : contentLengthOf text ≤ body.length

section
variable {text body : Bytes} (sign : SignText text body)
include sign

theorem SignText.whole : WholeRequest text body := ⟨sign.free, sign.small, sign.blank, sign.length⟩

theorem signEvent_dispatched :
    (signEvent text).dispatched = some (quietWorld, .received text (contentLengthOf text)) :=
  sign.whole.dispatched quietWorld silent

theorem signText_body : bodyText (HttpState.received text (contentLengthOf text)).body = body :=
  sign.whole.bodyText_eq

theorem signText_line : requestLine (HttpState.received text (contentLengthOf text)).buf.cstr =
    some (ascii "POST", ascii "/sign") := by
  rw [sign.whole.cstr]
  exact sign.line

theorem signEvent_sends {s : Http} {o : Option Record} (serves : Serves s.keystore o) :
    (signEvent text).sends s = some (signReply o body) := by
  have counted : Serves s.counted.keystore o := serves
  have route : (HttpState.received text (contentLengthOf text)).route quietWorld = .sign := by
    rw [HttpState.route, signText_line sign]
    rfl
  have answer := (handleSignPost_result counted (HttpState.received text (contentLengthOf text)).body).1
  rw [signText_body sign] at answer
  simp only [signEvent, BoardEvent.sends, httpReceive_whole sign.free sign.small sign.blank sign.length,
    httpRoute_eq, route, unchanged, answer]

theorem signEvent_signs {s : Http} {o : Option Record} (serves : Serves s.keystore o) {t : Bytes} :
    (signEvent text).Signs s t ↔ ∃ r, o = some r ∧ (signCall (some r) body).isSome ∧
      jsonField body (ascii "timestamp") 128 = some t := by
  constructor
  · rintro ⟨w, st, r, dispatched, -, serves', call, timestamp⟩
    rw [signEvent_dispatched sign] at dispatched
    cases dispatched
    rw [signText_body sign] at call timestamp
    exact ⟨r, serves.unique serves', call, timestamp⟩
  · rintro ⟨r, rfl, call, timestamp⟩
    refine ⟨_, _, r, signEvent_dispatched sign, signText_line sign, serves, ?_, ?_⟩
    · rw [signText_body sign]
      exact call
    · rw [signText_body sign]
      exact timestamp

theorem signEvent_json {s : Http} {r : Record} (serves : Serves s.keystore (some r))
    (stored : storedRecord s.flash = some r) :
    JsonReply s (signEvent text) (signReply (some r) body) ↔
      ∀ t, (signEvent text).Signs s t → Chars t ∧ (storedRecord s.flash).isSome := by
  have exactly := jsonReply_sign (signEvent_dispatched sign) (signText_line sign) serves (.inl stored)
  rwa [signText_body sign] at exactly

end

theorem signEvent_texts (text : Bytes) : (signEvent text).Texts := quietWorld_texts

theorem plainSign_text : SignText plainSign plainBody := by
  constructor <;> decide +kernel

theorem escapedSign_text : SignText escapedSign escapedBody := by
  constructor <;> decide +kernel

theorem provisionedBoard_serves : Serves provisionedBoard.keystore (some sampleRecord) := by
  have set := provisionedBoard_readsBack.writen
  have coherent := provisionedBoard_reachable.settled set
  exact signServes coherent provisionedBoard_record

/-- A timestamp of digits is signed in a JSON text. -/
theorem replies_json_sample :
    JsonReply provisionedBoard (signEvent plainSign) (signReply (some sampleRecord) plainBody) := by
  have timestamp : jsonField plainBody (ascii "timestamp") 128 = some (ascii "1700000000") := by
    decide +kernel
  have digits : Printed (ascii "1700000000") := printed_text _ (by decide)
  have sends := signEvent_sends plainSign_text provisionedBoard_serves
  rw [replies_json provisionedBoard_reachable (signEvent_texts plainSign) sends]
  intro t signs
  obtain ⟨r, -, -, found⟩ := (signEvent_signs plainSign_text provisionedBoard_serves).mp signs
  rw [timestamp, Option.some.injEq] at found
  rw [← found, provisionedBoard_record]
  exact ⟨digits.chars, rfl⟩

/-- In front of an escaped quote a backslash is left, and the reply runs on into the id. -/
theorem replies_json_escaped : ¬ ∀ s a r, Reachable s → BoardEvent.Texts a → BoardEvent.sends s a = some r →
    JsonReply s a r := by
  intro all
  have timestamp : jsonField escapedBody (ascii "timestamp") 128 = some (ascii "1\\") := by decide +kernel
  have called : (signCall (some sampleRecord) escapedBody).isSome = true := by decide +kernel
  have escaped : scanAll .inside (ascii "1\\") ≠ some .inside := by decide +kernel
  have sends := signEvent_sends escapedSign_text provisionedBoard_serves
  have replies := all _ _ _ provisionedBoard_reachable (signEvent_texts escapedSign) sends
  rw [signEvent_json escapedSign_text provisionedBoard_serves provisionedBoard_record] at replies
  have signs := (signEvent_signs escapedSign_text provisionedBoard_serves).mpr ⟨_, rfl, called, timestamp⟩
  exact escaped (replies _ signs).1.scan

end Roman
