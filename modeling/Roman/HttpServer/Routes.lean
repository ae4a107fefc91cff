import Roman.HttpServer.Server

/-! # Routes

`http_process_request` decides by the request line alone which handler runs. The
route is that decision, so that what follows splits on routes and not on strings.
-/

namespace Roman

open CMem CStr NorFlash

inductive Route where
  /-- No method or no path. -/
  | malformed
  | notFound
  /-- A reply that does not depend on the server. -/
  | fixed (r : Response)
  | info
  | sign
  | write
  | clear
  | debug

def rootReply : Response :=
  ⟨200, ascii "\x7b\"device\":\"pico2\",\"firmware\":\"roman\",\"version\":\"" ++ ROMAN_VERSION ++
    ascii "\",\"ip\":\"192.168.7.1\",\"status\":\"running\",\"endpoints\":" ++
    ascii "[\"/health\",\"/sign\",\"/info\",\"/write\",\"/clear\",\"/debug\"]\x7d"⟩

def signHelpReply : Response :=
  ⟨200, ascii "\x7b\"endpoint\":\"/sign\",\"method\":\"POST\"," ++
    ascii "\"fields\":[\"challenge\",\"context\",\"timestamp\"]\x7d"⟩

def routeOf (debugAvailable : Bool) : Option (Bytes × Bytes) → Route
  | none => .malformed
  | some (method, path) =>
      if method = ascii "OPTIONS" then .fixed (reply 200 "")
      else if method = ascii "GET" then
        if path = ascii "/" then .fixed rootReply
        else if path = ascii "/health" then .fixed (reply 200 "\x7b\"status\":\"ok\"\x7d")
        else if path = ascii "/info" then .info
        else if path = ascii "/sign" then .fixed signHelpReply
        else .notFound
      else if method = ascii "POST" then
        if path = ascii "/sign" then .sign
        else if path = ascii "/write" then .write
        else if path = ascii "/clear" then .clear
        else if debugAvailable = true ∧ path = ascii "/debug" then .debug
        else .notFound
      else .notFound

theorem routeOf_sign {available : Bool} {line : Option (Bytes × Bytes)}
    (decided : routeOf available line = .sign) : line = some (ascii "POST", ascii "/sign") := by
  unfold routeOf at decided
  repeat' split at decided
  all_goals first | (cases decided; done) | skip
  rename_i post path
  rw [post, path]

theorem routeOf_write {available : Bool} {line : Option (Bytes × Bytes)}
    (decided : routeOf available line = .write) : line = some (ascii "POST", ascii "/write") := by
  unfold routeOf at decided
  repeat' split at decided
  all_goals first | (cases decided; done) | skip
  rename_i post _ path
  rw [post, path]

theorem routeOf_clear {available : Bool} {line : Option (Bytes × Bytes)}
    (decided : routeOf available line = .clear) : line = some (ascii "POST", ascii "/clear") := by
  unfold routeOf at decided
  repeat' split at decided
  all_goals first | (cases decided; done) | skip
  rename_i post _ _ path
  rw [post, path]

theorem routeOf_fixed {available : Bool} {line : Option (Bytes × Bytes)} {r : Response}
    (decided : routeOf available line = .fixed r) :
    (r = reply 200 "" ∧ ∃ path, line = some (ascii "OPTIONS", path)) ∨ r = rootReply ∨
      r = reply 200 "\x7b\"status\":\"ok\"\x7d" ∨ r = signHelpReply := by
  unfold routeOf at decided
  split at decided
  · cases decided
  · rename_i method path
    split at decided
    · rename_i options
      cases decided
      exact .inl ⟨rfl, path, by rw [options]⟩
    repeat' split at decided
    all_goals cases decided
    · exact .inr (.inl rfl)
    · exact .inr (.inr (.inl rfl))
    · exact .inr (.inr (.inr rfl))

/-- The route of the request in the buffer of a connection. -/
def HttpState.route (w : World) (st : HttpState) : Route :=
  routeOf w.debugAvailable (requestLine st.buf.cstr)

/-- The body of the request in the buffer. -/
def HttpState.body (st : HttpState) : Option Bytes := requestBody st.buf.cstr

/-- The server once the request is counted. -/
def Http.counted (s : Http) : Http := { s with httpStats.requests := s.httpStats.requests + 1 }

@[simp] theorem Http.counted_keystore (s : Http) : s.counted.keystore = s.keystore := rfl

/-- A handler that cannot lose power, on the connection it was called for. -/
def onConnection (st : HttpState) (o : Outcome (Response × Http)) :
    Outcome (Response × HttpState × Http) :=
  o.map fun r => (r.1, st, r.2)

theorem httpRoute_eq (w : World) (st : HttpState) (s : Http) :
    httpRoute w st s =
      match st.route w with
      | .malformed => unchanged st (httpSend404 s)
      | .notFound => unchanged st (httpSend404 s.counted)
      | .fixed r => unchanged st (r, s.counted)
      | .info => unchanged st (handleInfo s.counted)
      | .sign => unchanged st (handleSignPost s.counted st.body)
      | .write => onConnection st (handleWritePost s.counted st.contentLength w.flash st.body)
      | .clear => onConnection st (handleClearPost s.counted st.contentLength w.flash st.body)
      | .debug =>
          (handleDebug w.platform s.counted st.contentLength w.flash st.body).map fun r =>
            (r.1, { st with resetAfterSend := st.resetAfterSend || r.2.1 }, r.2.2) := by
  simp only [httpRoute, HttpState.route, HttpState.body]
  cases line : requestLine st.buf.cstr with
  | none => rfl
  | some words =>
      obtain ⟨method, path⟩ := words
      simp only [routeOf]
      by_cases options : method = ascii "OPTIONS"
      · simp only [if_pos options]
        rfl
      simp only [if_neg options]
      by_cases get : method = ascii "GET"
      · simp only [if_pos get]
        by_cases root : path = ascii "/"
        · simp only [if_pos root]
          rfl
        by_cases health : path = ascii "/health"
        · simp only [if_neg root, if_pos health]
          rfl
        by_cases info : path = ascii "/info"
        · simp only [if_neg root, if_neg health, if_pos info]
          rfl
        by_cases help : path = ascii "/sign"
        · simp only [if_neg root, if_neg health, if_neg info, if_pos help]
          rfl
        simp only [if_neg root, if_neg health, if_neg info, if_neg help]
        rfl
      simp only [if_neg get]
      by_cases post : method = ascii "POST"
      · simp only [if_pos post]
        by_cases sign : path = ascii "/sign"
        · simp only [if_pos sign]
          rfl
        by_cases write : path = ascii "/write"
        · simp only [if_neg sign, if_pos write, Http.counted]
          cases handleWritePost _ st.contentLength w.flash (requestBody st.buf.cstr) <;> rfl
        by_cases clear : path = ascii "/clear"
        · simp only [if_neg sign, if_neg write, if_pos clear, Http.counted]
          cases handleClearPost _ st.contentLength w.flash (requestBody st.buf.cstr) <;> rfl
        simp only [if_neg sign, if_neg write, if_neg clear]
        by_cases debug : w.debugAvailable = true ∧ path = ascii "/debug"
        · simp only [if_pos debug, Http.counted]
          cases handleDebug w.platform _ st.contentLength w.flash (requestBody st.buf.cstr) <;> rfl
        · simp only [if_neg debug]
          rfl
      · simp only [if_neg post]
        rfl

end Roman
