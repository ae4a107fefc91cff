import Roman.Lib.Pool
import Roman.Board

/-! # http_server.c: the lwIP callbacks

Connections are named by their `tcp_pcb` and states by their address. lwIP keeps the
argument of the callbacks for every connection that is open; the heap knows which
states are allocated and `st->pcb` of each. The callbacks run one after another, in
whatever order lwIP calls them.

What is assumed of lwIP is where an event is not delivered: none on a connection that
the server has passed to `tcp_close` or that has been reported dead, no open connection
is accepted once more, and `mem_malloc` returns no state that is still allocated.
-/

namespace Roman

open CMem CStr NorFlash Pool

abbrev Pcb := Nat

abbrev Addr := Nat

structure Net where
  http : Http
  httpStates : Slots HTTP_MAX_CONN Addr
  /-- The allocated states, with the connection each was made for. -/
  heap : Addr → Option (Pcb × HttpState)
  /-- The open connections, with the argument of their callbacks. -/
  pcbs : Pcb → Option (Option Addr)
  /-- A state was freed or read that is not allocated. -/
  misused : Bool

/-- A server without connections. -/
def Net.idle (s : Http) : Net := ⟨s, fun _ => none, fun _ => none, fun _ => none, false⟩

def memFree (n : Net) (a : Addr) : Net :=
  match n.heap a with
  | some _ => { n with heap := Function.update n.heap a none }
  | none => { n with misused := true }

def tcpClose (n : Net) (pcb : Pcb) : Net := { n with pcbs := Function.update n.pcbs pcb none }

/-- `st` leaves its slot and is freed. -/
def Net.discard (n : Net) (st : Addr) : Net :=
  memFree { n with httpStates := remove n.httpStates st } st

def httpCloseConn (n : Net) (pcb : Pcb) (st : Option Addr) : Net :=
  let n := match st with
    | some st => n.discard st
    | none => n
  tcpClose n pcb

def httpSentCb (n : Net) (pcb : Pcb) (arg : Option Addr) : Net :=
  match arg with
  | none => n
  | some a =>
      match n.heap a with
      | none => { n with misused := true }
      | some (owner, st) =>
          if st.sent then
            let n := { n with
              heap := Function.update n.heap a (some (owner, { st with resetAfterSend := false })) }
            -- a reset that is due begins 100 ms later
            httpCloseConn n pcb (some a)
          else n

def httpErrCb (n : Net) (arg : Option Addr) : Net :=
  let n := { n with http.httpStats.errors := n.http.httpStats.errors + 1 }
  match arg with
  | some st => n.discard st
  | none => n

def TcpEvent.isClose : TcpEvent → Bool
  | .close => true
  | _ => false

/-- What the snapshot reports, with the connections that are counted there. -/
def World.counting (w : World) (n : Net) : World := { w with platform.conns := taken n.httpStates }

/-- `http_recv_cb`: `p` is none for NULL, and `ok` says that `err` is ERR_OK. -/
def httpRecvCbPbuf (w : World) (n : Net) (pcb : Pcb) (arg : Option Addr) (p : Option Bytes) (ok : Bool) :
    Outcome Net :=
  match arg with
  | none => .done n
  | some a =>
      match p with
      | none => .done (httpCloseConn n pcb (some a))
      | some data =>
          match n.heap a with
          | none => .done { n with misused := true }
          | some (owner, st) =>
              if ok = false then .done n
              else
                match httpRecvCb (w.counting n) st n.http data with
                | .cut flash => .cut flash
                | .done (events, st, s) =>
                    let n := { n with http := s, heap := Function.update n.heap a (some (owner, st)) }
                    .done (if events.any TcpEvent.isClose then tcpClose n pcb else n)

/-- `malloc` is what `mem_malloc` returns. -/
def httpAcceptCb (n : Net) (newpcb : Option Pcb) (ok : Bool) (malloc : Option Addr) : Net :=
  match newpcb with
  | none => n
  | some pcb =>
      if ok = false then n
      else
        match malloc with
        | none => tcpClose n pcb
        | some st =>
            let n := { n with heap := Function.update n.heap st (some (pcb, .accepted)) }
            match vacant n.httpStates with
            | none => tcpClose (memFree n st) pcb
            | some slot =>
                { n with
                  httpStates := put n.httpStates slot st
                  pcbs := Function.update n.pcbs pcb (some (some st)) }

/-- A callback of lwIP. -/
inductive LwipEvent where
  | accept (newpcb : Option Pcb) (ok : Bool) (malloc : Option Addr)
  /-- `w` is what is outside the server meanwhile, and `next` the entropy of the boot
      after a power cut. -/
  | recv (pcb : Pcb) (p : Option Bytes) (ok : Bool) (w : World) (next : Entropy)
  | sent (pcb : Pcb)
  | err (pcb : Pcb)

/-- The connection it is for. -/
def LwipEvent.pcb : LwipEvent → Option Pcb
  | .accept newpcb _ _ => newpcb
  | .recv pcb _ _ _ _ => some pcb
  | .sent pcb => some pcb
  | .err pcb => some pcb

def netStep (n : Net) : LwipEvent → Net
  | .accept newpcb ok malloc =>
      if (∃ pcb, newpcb = some pcb ∧ (n.pcbs pcb).isSome) ∨ (∃ a, malloc = some a ∧ (n.heap a).isSome) then n
      else httpAcceptCb n newpcb ok malloc
  | .recv pcb p ok w next =>
      match n.pcbs pcb with
      | none => n
      | some arg =>
          match httpRecvCbPbuf w n pcb arg p ok with
          | .done n => n
          | .cut flash => .idle (.boot flash next)
  | .sent pcb =>
      match n.pcbs pcb with
      | none => n
      | some arg => httpSentCb n pcb arg
  | .err pcb =>
      match n.pcbs pcb with
      | none => n
      | some arg =>
          let n := httpErrCb n arg
          { n with pcbs := Function.update n.pcbs pcb none }

abbrev netRun (n : Net) (events : List LwipEvent) : Net := Runs.run netStep n events

end Roman
