import Roman.HttpServer.Debug

/-! # http_server.c: routing and the receive callback -/

namespace Roman

open CMem CStr NorFlash

/-- What the server does to a connection. -/
inductive TcpEvent where
  | recved (len : Nat)
  | write (bytes : Bytes)
  | close

def statusText : Nat → Bytes
  | 200 => ascii "OK"
  | 201 => ascii "Created"
  | 400 => ascii "Bad Request"
  | 403 => ascii "Forbidden"
  | 404 => ascii "Not Found"
  | 405 => ascii "Method Not Allowed"
  | 413 => ascii "Request Entity Too Large"
  | 500 => ascii "Internal Server Error"
  | 503 => ascii "Service Unavailable"
  | _ => ascii "Unknown"

def headerText (status bodyLen : Nat) : Bytes :=
  ascii "HTTP/1.1 " ++ decimal status ++ ascii " " ++ statusText status ++ ascii "\r\n" ++
  ascii "Content-Type: application/json; charset=utf-8\r\n" ++
  ascii "Content-Length: " ++ decimal bodyLen ++ ascii "\r\n" ++
  ascii "Connection: close\r\n" ++
  ascii "Access-Control-Allow-Origin: *\r\n" ++
  ascii "Access-Control-Allow-Methods: GET, POST, OPTIONS\r\n" ++
  ascii "Access-Control-Allow-Headers: Content-Type\r\n" ++
  ascii "\r\n"

/-- `writes` says whether `tcp_write` takes the reply. -/
def httpSendResponse (st : HttpState) (r : Response) (writes : Bool) :
    HttpState × List TcpEvent :=
  let header := headerText r.status r.body.length
  let st := { st with buf := st.buf.snprintf header }
  if header.length + r.body.length > HTTP_BUF_SIZE then (st, [.close])
  else
    let st := { st with buf := st.buf.store header.length r.body }
    if writes then
      ({ st with sent := true, done := true },
        [.write (st.buf.load 0 (header.length + r.body.length))])
    else ({ st with sent := false }, [.close])

def httpSend404 (s : Http) : Response × Http :=
  (reply 404 "\x7b\"error\":\"not found\"\x7d",
    { s with httpStats.notFound := s.httpStats.notFound + 1 })

/-- Method and path of the request line, cut to the two arrays they are copied into. -/
def requestLine (text : Bytes) : Option (Bytes × Bytes) :=
  match strchr text 0x20 with
  | none => none
  | some sp1 =>
      let method := (text.take (text.length - sp1.length)).take 15
      let rest := sp1.drop 1
      match strchr rest 0x20 with
      | none => none
      | some sp2 => some (method, (rest.take (rest.length - sp2.length)).take 127)

/-- The body: what is behind the first blank line. -/
def requestBody (text : Bytes) : Option Bytes :=
  (strstr text (ascii "\r\n\r\n")).map (·.drop 4)

/-- What is outside the server while one request is handled. -/
structure World where
  debugAvailable : Bool
  platform : Platform
  flash : FlashEnv
  /-- Whether `tcp_write` takes the reply. -/
  tcpWrites : Bool

def unchanged (st : HttpState) (r : Response × Http) : Outcome (Response × HttpState × Http) :=
  .done (r.1, st, r.2)

/-- The routing of `http_process_request`: the reply, and the connection and the server after it. -/
def httpRoute (w : World) (st : HttpState) (s : Http) : Outcome (Response × HttpState × Http) :=
  let text := st.buf.cstr
  match requestLine text with
  | none => unchanged st (httpSend404 s)
  | some (method, path) =>
      let body := requestBody text
      let s := { s with httpStats.requests := s.httpStats.requests + 1 }
      if method = ascii "OPTIONS" then unchanged st (reply 200 "", s)
      else if method = ascii "GET" then
        if path = ascii "/" then
          unchanged st (⟨200, ascii
            "\x7b\"device\":\"pico2\",\"firmware\":\"roman\",\"version\":\"" ++ ROMAN_VERSION ++
            ascii "\",\"ip\":\"192.168.7.1\",\"status\":\"running\",\"endpoints\":" ++
            ascii "[\"/health\",\"/sign\",\"/info\",\"/write\",\"/clear\",\"/debug\"]\x7d"⟩, s)
        else if path = ascii "/health" then unchanged st (reply 200 "\x7b\"status\":\"ok\"\x7d", s)
        else if path = ascii "/info" then unchanged st (handleInfo s)
        else if path = ascii "/sign" then
          unchanged st (⟨200, ascii "\x7b\"endpoint\":\"/sign\",\"method\":\"POST\"," ++
            ascii "\"fields\":[\"challenge\",\"context\",\"timestamp\"]\x7d"⟩, s)
        else unchanged st (httpSend404 s)
      else if method = ascii "POST" then
        if path = ascii "/sign" then unchanged st (handleSignPost s body)
        else if path = ascii "/write" then
          match handleWritePost s st.contentLength w.flash body with
          | .cut flash => .cut flash
          | .done r => unchanged st r
        else if path = ascii "/clear" then
          match handleClearPost s st.contentLength w.flash body with
          | .cut flash => .cut flash
          | .done r => unchanged st r
        else if w.debugAvailable = true ∧ path = ascii "/debug" then
          match handleDebug w.platform s st.contentLength w.flash body with
          | .cut flash => .cut flash
          | .done (r, reset, s) =>
              .done (r, { st with resetAfterSend := st.resetAfterSend || reset }, s)
        else unchanged st (httpSend404 s)
      else unchanged st (httpSend404 s)

def httpProcessRequest (w : World) (st : HttpState) (s : Http) :
    Outcome (List TcpEvent × HttpState × Http) :=
  match httpRoute w st s with
  | .cut flash => .cut flash
  | .done (r, st, s) =>
      let (st, events) := httpSendResponse st r w.tcpWrites
      .done (events, st, s)

/-- What `http_recv_cb` does with one segment. -/
inductive Received where
  /-- The connection is done: the segment is freed. -/
  | ignored
  /-- The segment does not fit: the reply is 413. -/
  | tooLarge (st : HttpState)
  /-- More of the request is to come. -/
  | waiting (st : HttpState)
  /-- `http_process_request` is called. -/
  | complete (st : HttpState)

/-- The value after the first Content-Length header, or 0 without one. -/
def contentLengthOf (text : Bytes) : Int :=
  let cl := match strstr text (ascii "Content-Length:") with
    | some cl => some cl
    | none => strstr text (ascii "content-length:")
  match cl with
  | none => 0
  | some cl =>
      match strchr cl 0x3A with
      | none => -1 -- not taken: the name ends in a colon
      | some val => atoi (val.drop 1)

/-- `http_recv_cb` up to its calls of `http_send_response` and `http_process_request`. -/
def httpReceive (st : HttpState) (data : Bytes) : Received :=
  if st.done then .ignored
  else if st.reqLen + data.length ≥ HTTP_BUF_SIZE then .tooLarge st
  else
    let buf := st.buf.store st.reqLen data
    let reqLen := st.reqLen + data.length
    let st := { st with buf := buf.store reqLen [0], reqLen }
    let text := st.buf.cstr
    let st := if st.contentLength < 0 then { st with contentLength := contentLengthOf text } else st
    match strstr text (ascii "\r\n\r\n") with
    | none => .waiting st
    | some sep =>
        let headerEnd := text.length - sep.length + 4
        let bodyReceived : Int := (st.reqLen : Int) - headerEnd
        if st.contentLength > 0 ∧ bodyReceived < st.contentLength then .waiting st
        else .complete st

/-- `http_recv_cb` for a segment without an error. -/
def httpRecvCb (w : World) (st : HttpState) (s : Http) (data : Bytes) :
    Outcome (List TcpEvent × HttpState × Http) :=
  match httpReceive st data with
  | .ignored => .done ([], st, s)
  | .tooLarge st =>
      let s := { s with httpStats.tooLarge := s.httpStats.tooLarge + 1 }
      let (st, events) := httpSendResponse st
        (reply 413 "\x7b\"error\":\"Request too large\"\x7d") w.tcpWrites
      .done (.recved data.length :: events, st, s)
  | .waiting st => .done ([.recved data.length], st, s)
  | .complete st =>
      match httpProcessRequest w st s with
      | .cut flash => .cut flash
      | .done (events, st, s) => .done (.recved data.length :: events, st, s)

/-- What `http_server_init` does to the server: the boot log asks for the state
    of the store and for a sample of the TRNG. -/
def Http.boot (flash : Flash) (entropy : Entropy) : Http :=
  let s := Http.zeroed flash entropy
  let keystore := (keystoreState s.keystore).2
  let store := { keystore.store with rng := (storageTrngProbe keystore.store.rng).2 }
  { s with keystore := { keystore with store } }

end Roman
