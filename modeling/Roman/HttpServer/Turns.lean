import Roman.Lib.Sessions
import Roman.HttpServer.Counters
import Roman.HttpServer.Slots

/-! # What a connection is up to

Seen by itself a connection receives, is answered once and is closed, and how far it has
come depends on nothing but its own callbacks. All that happens to the rest of the server
is the request it is answered for.
-/

namespace Roman

open CMem CStr NorFlash Pool

inductive Progress where
  | unopened
  | receiving (a : Addr) (st : HttpState)
  /-- The answer is written and not yet acknowledged. -/
  | answered (a : Addr)
  /-- The answer could not be written: the server has closed the connection. -/
  | lost (a : Addr)
  | gone

/-- What ends the receiving. -/
inductive Turn where
  /-- `http_process_request` is called. -/
  | request (w : World) (st : HttpState)
  | tooLarge (w : World) (st : HttpState)
  | closed

def Progress.turn : Progress → LwipEvent → Option Turn
  | .receiving _ st, .recv _ (some data) true w _ =>
      match httpReceive st data with
      | .ignored | .waiting _ => none
      | .tooLarge st => some (.tooLarge w st)
      | .complete st => some (.request w st)
  | .receiving _ _, .recv _ none _ _ _ => some .closed
  | .receiving _ _, .err _ => some .closed
  | _, _ => none

def Progress.next : Progress → LwipEvent → Progress
  | .unopened, .accept _ true (some a) => .receiving a .accepted
  | .receiving a st, .recv _ (some data) true w _ =>
      match httpReceive st data with
      | .ignored => .receiving a st
      | .waiting st => .receiving a st
      | .tooLarge _ | .complete _ => if w.tcpWrites then .answered a else .lost a
  | .receiving _ _, .recv _ none _ _ _ => .gone
  | .receiving _ _, .err _ => .gone
  | .answered _, .recv _ none _ _ _ => .gone
  | .answered _, .sent _ => .gone
  | .answered _, .err _ => .gone
  | p, _ => p

def Progress.client : Sessions.Client LwipEvent Progress Turn := ⟨next, turn⟩

/-- The server after a turn, but for its counters. -/
def Turn.after (s : Http) : Turn → Http
  | .request w st =>
      match httpRoute w st s with
      | .done (_, _, s) => s
      | .cut _ => s
  | .tooLarge _ _ | .closed => s

def TcpEvent.written : TcpEvent → Option Bytes
  | .write bytes => some bytes
  | _ => none

def tooLargeReply : Response := reply 413 "\x7b\"error\":\"Request too large\"\x7d"

/-- What is written on the connection. -/
def Turn.reply (s : Http) : Turn → Option Bytes
  | .request w st =>
      match httpRoute w st s with
      | .done (r, st, _) => (httpSendResponse st r w.tcpWrites).2.findSome? TcpEvent.written
      | .cut _ => none
  | .tooLarge w st => (httpSendResponse st tooLargeReply w.tcpWrites).2.findSome? TcpEvent.written
  | .closed => none

/-- The turn is a request for a snapshot. -/
def Turn.Snapshots : Turn → Prop
  | .request w st => st.Snapshots w
  | .tooLarge _ _ | .closed => False

/-- The state of an open connection. -/
def Net.connection (n : Net) (pcb : Pcb) : Option HttpState :=
  match n.pcbs pcb with
  | some (some a) => (n.heap a).map (·.2)
  | _ => none

/-- What the callback writes, and on which connection. -/
def Net.reply (n : Net) : LwipEvent → Option (Pcb × Bytes)
  | .recv pcb (some data) true w _ =>
      match n.connection pcb with
      | none => none
      | some st =>
          match httpRecvCb (w.counting n) st n.http data with
          | .done (events, _, _) => (events.findSome? TcpEvent.written).map (pcb, ·)
          | .cut _ => none
  | _ => none

/-- A call of `http_process_request`: the connection, the server as it is then, and the
    segment that completes the request. -/
structure Call where
  pcb : Pcb
  http : Http
  event : BoardEvent

/-- The call that the callback makes. -/
def Net.call (n : Net) : LwipEvent → Option Call
  | .recv pcb (some data) true w next =>
      match n.connection pcb with
      | none => none
      | some st =>
          let event := BoardEvent.recv (w.counting n) st data next
          if event.dispatched.isSome then some ⟨pcb, n.http, event⟩ else none
  | _ => none

/-- How far a connection has come. -/
inductive Net.At (n : Net) (pcb : Pcb) : Progress → Prop where
  | unopened (closed : n.pcbs pcb = none) (free : ∀ b st, n.heap b ≠ some (pcb, st)) : n.At pcb .unopened
  | receiving {a : Addr} {st : HttpState} (live : n.Live pcb a st)
      (only : ∀ b st', n.heap b = some (pcb, st') → b = a) (fresh : st.done = false) (unsent : st.sent = false) :
      n.At pcb (.receiving a st)
  | answered {a : Addr} {st : HttpState} (live : n.Live pcb a st)
      (only : ∀ b st', n.heap b = some (pcb, st') → b = a) (done : st.done = true) (sent : st.sent = true) :
      n.At pcb (.answered a)
  | lost {a : Addr} {st : HttpState} (closed : n.pcbs pcb = none) (state : n.heap a = some (pcb, st))
      (only : ∀ b st', n.heap b = some (pcb, st') → b = a) : n.At pcb (.lost a)
  | gone (closed : n.pcbs pcb = none) (free : ∀ b st, n.heap b ≠ some (pcb, st)) : n.At pcb .gone

/-- The callback was for some other connection. -/
structure SameConnection (n n' : Net) (pcb : Pcb) : Prop where
  pcbs : n'.pcbs pcb = n.pcbs pcb
  heap : ∀ b st, n'.heap b = some (pcb, st) ↔ n.heap b = some (pcb, st)

theorem SameConnection.refl (n : Net) (pcb : Pcb) : SameConnection n n pcb := ⟨rfl, fun _ _ => Iff.rfl⟩

theorem Net.At.transport {n n' : Net} {pcb : Pcb} {p : Progress} (here : n.At pcb p)
    (same : SameConnection n n' pcb) : n'.At pcb p := by
  have lives : ∀ {a st}, n.Live pcb a st → n'.Live pcb a st := fun live =>
    ⟨same.pcbs.trans live.isOpen, (same.heap _ _).mpr live.state⟩
  have onlies : ∀ {a}, (∀ b st', n.heap b = some (pcb, st') → b = a) → ∀ b st', n'.heap b = some (pcb, st') → b = a :=
    fun only b st' state => only b st' ((same.heap b st').mp state)
  have frees : (∀ b st, n.heap b ≠ some (pcb, st)) → ∀ b st, n'.heap b ≠ some (pcb, st) :=
    fun free b st state => free b st ((same.heap b st).mp state)
  cases here with
  | unopened closed free => exact .unopened (same.pcbs.trans closed) (frees free)
  | receiving live only fresh unsent => exact .receiving (lives live) (onlies only) fresh unsent
  | answered live only done sent => exact .answered (lives live) (onlies only) done sent
  | lost closed state only => exact .lost (same.pcbs.trans closed) ((same.heap _ _).mpr state) (onlies only)
  | gone closed free => exact .gone (same.pcbs.trans closed) (frees free)

/-- A place of the heap that is not this connection's, before and after. -/
theorem heap_elsewhere {heap : Addr → Option (Pcb × HttpState)} {a : Addr} {v : Option (Pcb × HttpState)} {pcb : Pcb}
    (before : ∀ st, heap a ≠ some (pcb, st)) (after : ∀ st, v ≠ some (pcb, st)) (b : Addr) (st : HttpState) :
    Function.update heap a v b = some (pcb, st) ↔ heap b = some (pcb, st) := by
  by_cases here : b = a
  · rw [here, Function.update_self]
    exact iff_of_false (after st) (before st)
  · rw [Function.update_of_ne here]

/-- A callback does nothing to the other connections. -/
theorem netStep_elsewhere {n : Net} (sound : n.Sound) {ev : LwipEvent} {pcb : Pcb} (other : ev.pcb ≠ some pcb)
    (powered : ev.Powered) : SameConnection n (netStep n ev) pcb := by
  have change := netStep_change sound ev
  generalize netStep n ev = after at change
  cases change with
  | kept => exact .refl n pcb
  | @opened p a slot closed free empty =>
      have apart : pcb ≠ p := by
        rintro rfl
        exact other rfl
      refine ⟨Function.update_of_ne apart .., heap_elsewhere ?_ ?_⟩
      · intro st state
        rw [free] at state
        cases state
      · intro st eq
        cases eq
        exact apart rfl
  | @served p a st data w next r live recv =>
      have apart : pcb ≠ p := by
        rintro rfl
        exact other rfl
      have heap := @heap_elsewhere n.heap a (some (p, r.2.1)) pcb
        (fun st' state => by
          rw [live.state] at state
          cases state
          exact apart rfl)
        (fun st' eq => by
          cases eq
          exact apart rfl)
      unfold Net.served
      dsimp only
      split
      · exact ⟨Function.update_of_ne apart .., heap⟩
      · exact ⟨rfl, heap⟩
  | reset live recv => exact absurd recv (httpRecvCb_whole powered)
  | @released _ p a st s live own =>
      have apart : pcb ≠ p := by
        rintro rfl
        exact other own
      refine ⟨Function.update_of_ne apart .., heap_elsewhere ?_ nofun⟩
      intro st' state
      rw [live.state] at state
      cases state
      exact apart rfl

/-- The callback makes this call, or none. -/
def Net.Calls (n : Net) (ev : LwipEvent) (pcb : Pcb) : Option Turn → Prop
  | some (.request w st) =>
      ∃ event, n.call ev = some ⟨pcb, n.http, event⟩ ∧ event.dispatched = some (w.counting n, st)
  | some (.tooLarge _ _) | some .closed | none => n.call ev = none

/-- A callback for the connection takes it where its progress says, and the server with it. -/
structure Net.Moves (n : Net) (ev : LwipEvent) (pcb : Pcb) (p : Progress) : Prop where
  here : (netStep n ev).At pcb (p.next ev)
  http : ∀ s, SameButCounts s n.http → SameButCounts ((p.turn ev).elim s (Turn.after s)) (netStep n ev).http
  reply : ∀ s, SameButCounts s n.http → (∀ t, p.turn ev = some t → ¬ t.Snapshots) →
    n.reply ev = ((p.turn ev).bind (Turn.reply s)).map (pcb, ·)
  calls : n.Calls ev pcb (p.turn ev)

theorem Net.Live.connection {n : Net} {pcb : Pcb} {a : Addr} {st : HttpState} (live : n.Live pcb a st) :
    n.connection pcb = some st := by
  unfold Net.connection
  rw [live.isOpen]
  dsimp only
  rw [live.state]
  rfl

theorem connection_closed {n : Net} {pcb : Pcb} (closed : n.pcbs pcb = none) : n.connection pcb = none := by
  unfold Net.connection
  rw [closed]

/-- The callback neither answers nor calls `http_process_request`. -/
structure Net.Silent (n : Net) (ev : LwipEvent) : Prop where
  reply : n.reply ev = none
  call : n.call ev = none

theorem silent_closed {n : Net} {ev : LwipEvent} {pcb : Pcb} (own : ev.pcb = some pcb)
    (closed : n.pcbs pcb = none) : n.Silent ev := by
  cases ev with
  | accept newpcb ok malloc | sent p | err p => exact ⟨rfl, rfl⟩
  | recv p data ok w next =>
      cases own
      cases data with
      | none => exact ⟨rfl, rfl⟩
      | some data =>
          cases ok with
          | false => exact ⟨rfl, rfl⟩
          | true =>
              constructor
              · simp only [Net.reply, connection_closed closed]
              · simp only [Net.call, connection_closed closed]

/-- A callback that leaves everything as it is. -/
theorem moves_none {n : Net} {ev : LwipEvent} {pcb : Pcb} {p : Progress} (here : n.At pcb p)
    (same : netStep n ev = n) (next : p.next ev = p) (turn : p.turn ev = none) (mute : n.Silent ev) :
    n.Moves ev pcb p := by
  refine ⟨?_, ?_, ?_, ?_⟩
  · rw [same, next]
    exact here
  · intro s alike
    rw [same, turn]
    exact alike
  · intro s alike other
    rw [mute.reply, turn]
    rfl
  · rw [turn]
    exact mute.call

theorem released_gone {n : Net} {pcb : Pcb} {a : Addr} (only : ∀ b st', n.heap b = some (pcb, st') → b = a)
    (s : Http) : (n.released pcb a s).At pcb .gone := by
  refine .gone (Function.update_self ..) ?_
  intro b st' state
  unfold Net.released at state
  dsimp only at state
  by_cases here : b = a
  · rw [here, Function.update_self] at state
    cases state
  · rw [Function.update_of_ne here] at state
    exact here (only b st' state)

theorem written_recved (len : Nat) (events : List TcpEvent) :
    (TcpEvent.recved len :: events).findSome? TcpEvent.written = events.findSome? TcpEvent.written := rfl

theorem served_http (n : Net) (pcb : Pcb) (a : Addr) (r : List TcpEvent × HttpState × Http) :
    (n.served pcb a r).http = r.2.2 := by
  unfold Net.served
  dsimp only
  split <;> rfl

/-- The server once a segment is answered. -/
theorem served_answer {n : Net} {pcb : Pcb} {a : Addr} {st : HttpState} (live : n.Live pcb a st)
    (only : ∀ b st', n.heap b = some (pcb, st') → b = a) {r : Response} (small : r.Small) (st' : HttpState)
    (writes : Bool) (len : Nat) (s : Http) :
    (n.served pcb a (.recved len :: (httpSendResponse st' r writes).2, (httpSendResponse st' r writes).1, s)).At pcb
      (if writes then .answered a else .lost a) := by
  have closes := httpSendResponse_closes small st' writes
  have flags : writes = true → (httpSendResponse st' r writes).1.done = true ∧
      (httpSendResponse st' r writes).1.sent = true := by
    rintro rfl
    simp [httpSendResponse, if_neg small.fits]
  generalize httpSendResponse st' r writes = sent at closes flags
  have state : Function.update n.heap a (some (pcb, sent.1)) a = some (pcb, sent.1) := Function.update_self ..
  have still : ∀ b st₁, Function.update n.heap a (some (pcb, sent.1)) b = some (pcb, st₁) → b = a := by
    intro b st₁ there
    by_cases here : b = a
    · exact here
    · rw [Function.update_of_ne here] at there
      exact only b st₁ there
  unfold Net.served
  simp only [List.any_cons, TcpEvent.isClose, Bool.false_or, closes]
  cases writes with
  | true => exact .answered ⟨live.isOpen, state⟩ still (flags rfl).1 (flags rfl).2
  | false => exact .lost (Function.update_self ..) state still

/-- A state that waits for more has not been answered. -/
theorem httpReceive_waiting {st st' : HttpState} {data : Bytes} (received : httpReceive st data = .waiting st')
    (fresh : st.done = false) (unsent : st.sent = false) : st'.done = false ∧ st'.sent = false := by
  unfold httpReceive at received
  simp only [fresh, Bool.false_eq_true, if_false] at received
  repeat' split at received
  all_goals cases received
  all_goals exact ⟨rfl, unsent⟩

theorem httpReceive_fresh {st : HttpState} {data : Bytes} (fresh : st.done = false) :
    httpReceive st data ≠ .ignored := by
  unfold httpReceive
  simp only [fresh, Bool.false_eq_true, if_false]
  repeat' split
  all_goals nofun

theorem tooLargeReply_small : tooLargeReply.Small :=
  reply_small (by decide : 413 ∈ statuses) (by decide +kernel)

section
variable {n : Net} {pcb : Pcb} {a : Addr} {st : HttpState} (live : n.Live pcb a st)
  (only : ∀ b st', n.heap b = some (pcb, st') → b = a)
include live only

theorem moves_tooLarge {data : Bytes} {st' : HttpState} (received : httpReceive st data = .tooLarge st') (w : World)
    (next : Entropy) : n.Moves (.recv pcb (some data) true w next) pcb (.receiving a st) := by
  have answer : httpRecvCb (w.counting n) st n.http data =
      .done (.recved data.length :: (httpSendResponse st' tooLargeReply w.tcpWrites).2,
        (httpSendResponse st' tooLargeReply w.tcpWrites).1,
        { n.http with httpStats.tooLarge := n.http.httpStats.tooLarge + 1 }) := by
    have writes : (w.counting n).tcpWrites = w.tcpWrites := rfl
    unfold httpRecvCb tooLargeReply
    simp only [received, writes]
  have step := netStep_recv live data w next
  have turn : (Progress.receiving a st).turn (.recv pcb (some data) true w next) = some (.tooLarge w st') := by
    simp only [Progress.turn, received]
  have moved : (Progress.receiving a st).next (.recv pcb (some data) true w next) =
      if w.tcpWrites then .answered a else .lost a := by
    simp only [Progress.next, received]
  rw [answer] at step
  refine ⟨?_, ?_, ?_, ?_⟩
  · rw [step, moved]
    exact served_answer live only tooLargeReply_small st' w.tcpWrites data.length _
  · intro s alike
    rw [step, turn, served_http]
    exact alike.trans ⟨_, _, rfl⟩
  · intro s alike other
    rw [turn, Option.bind_some]
    unfold Turn.reply
    simp only [Net.reply, live.connection, answer]
    generalize httpSendResponse st' tooLargeReply w.tcpWrites = sent
    rfl
  · rw [turn]
    simp only [Net.Calls, Net.call, live.connection, BoardEvent.dispatched, received]
    rfl

theorem moves_request {data : Bytes} {st' : HttpState} (received : httpReceive st data = .complete st') {w : World}
    (powered : w.flash.Whole) (next : Entropy) :
    n.Moves (.recv pcb (some data) true w next) pcb (.receiving a st) := by
  have step := netStep_recv live data w next
  have turn : (Progress.receiving a st).turn (.recv pcb (some data) true w next) = some (.request w st') := by
    simp only [Progress.turn, received]
  have moved : (Progress.receiving a st).next (.recv pcb (some data) true w next) =
      if w.tcpWrites then .answered a else .lost a := by
    simp only [Progress.next, received]
  cases route : httpRoute (w.counting n) st' n.http with
  | cut f =>
      have cut : httpRecvCb (w.counting n) st n.http data = .cut f := by
        unfold httpRecvCb httpProcessRequest
        simp only [received, route]
      exact absurd cut (httpRecvCb_whole powered)
  | done served =>
      obtain ⟨r, st₂, after⟩ := served
      have answer : httpRecvCb (w.counting n) st n.http data =
          .done (.recved data.length :: (httpSendResponse st₂ r w.tcpWrites).2,
            (httpSendResponse st₂ r w.tcpWrites).1, after) := by
        unfold httpRecvCb httpProcessRequest
        simp only [received, route]
        rfl
      have alikes : ∀ s, SameButCounts s n.http → ∃ r' s', httpRoute w st' s = .done (r', st₂, s') ∧
          (¬ st'.Snapshots w → r' = r) ∧ SameButCounts s' after := by
        intro s alike
        have service := httpRoute_counts alike w (w.counting n).platform st'
        rw [show { w with platform := (w.counting n).platform } = w.counting n from rfl, route] at service
        cases routed : httpRoute w st' s with
        | cut f =>
            rw [routed] at service
            cases service
        | done served =>
            obtain ⟨r', st₃, s'⟩ := served
            rw [routed] at service
            cases service with
            | done related =>
                obtain ⟨reply, connection, servers⟩ := related
                dsimp only at reply connection servers
                exact ⟨r', s', by rw [connection], reply, servers⟩
      rw [answer] at step
      refine ⟨?_, ?_, ?_, ?_⟩
      · rw [step, moved]
        exact served_answer live only (httpRoute_small route) st₂ w.tcpWrites data.length _
      · intro s alike
        obtain ⟨r', s', routed, -, servers⟩ := alikes s alike
        rw [step, turn, served_http]
        simp only [Option.elim_some, Turn.after, routed]
        exact servers
      · intro s alike other
        obtain ⟨r', s', routed, same, -⟩ := alikes s alike
        rw [turn, Option.bind_some]
        simp only [Net.reply, live.connection, answer, written_recved, Turn.reply, routed]
        rw [same (other _ turn)]
      · rw [turn]
        simp only [Net.Calls, Net.call, live.connection, BoardEvent.dispatched, received]
        refine ⟨_, rfl, ?_⟩
        simp only [received]

theorem moves_waiting {data : Bytes} {st' : HttpState} (received : httpReceive st data = .waiting st')
    (fresh : st.done = false) (unsent : st.sent = false) (w : World) (next : Entropy) :
    n.Moves (.recv pcb (some data) true w next) pcb (.receiving a st) := by
  have answer : httpRecvCb (w.counting n) st n.http data = .done ([.recved data.length], st', n.http) := by
    unfold httpRecvCb
    simp only [received]
  have step : netStep n (.recv pcb (some data) true w next) =
      { n with heap := Function.update n.heap a (some (pcb, st')) } := by
    rw [netStep_recv live, answer]
    rfl
  have turn : (Progress.receiving a st).turn (.recv pcb (some data) true w next) = none := by
    simp only [Progress.turn, received]
  have moved : (Progress.receiving a st).next (.recv pcb (some data) true w next) = .receiving a st' := by
    simp only [Progress.next, received]
  obtain ⟨fresh', unsent'⟩ := httpReceive_waiting received fresh unsent
  refine ⟨?_, ?_, ?_, ?_⟩
  · rw [step, moved]
    refine .receiving ⟨live.isOpen, Function.update_self ..⟩ ?_ fresh' unsent'
    intro b st₁ there
    by_cases same : b = a
    · exact same
    · dsimp only at there
      rw [Function.update_of_ne same] at there
      exact only b st₁ there
  · intro s alike
    rw [step, turn]
    exact alike
  · intro s alike other
    rw [turn]
    simp only [Net.reply, live.connection, answer]
    rfl
  · rw [turn]
    simp only [Net.Calls, Net.call, live.connection, BoardEvent.dispatched, received]
    rfl

omit live in
/-- The connection is closed and its state freed. -/
theorem moves_gone {ev : LwipEvent} {p : Progress} {s : Http} (step : netStep n ev = n.released pcb a s)
    (counted : SameButCounts n.http s) (moved : p.next ev = .gone) (mute : n.Silent ev)
    (turn : p.turn ev = none ∨ p.turn ev = some .closed) : n.Moves ev pcb p := by
  refine ⟨?_, ?_, ?_, ?_⟩
  · rw [step, moved]
    exact released_gone only s
  · intro s' alike
    rw [step]
    have still := alike.trans counted
    rcases turn with none | closed
    · rw [none]
      exact still
    · rw [closed]
      exact still
  · intro s' alike other
    rw [mute.reply]
    rcases turn with none | closed
    · rw [none]
      rfl
    · rw [closed]
      rfl
  · rcases turn with none | closed
    · rw [none]
      exact mute.call
    · rw [closed]
      exact mute.call

end

/-- Everything but the accept. -/
theorem Net.At.moves {n : Net} {pcb : Pcb} {p : Progress} (here : n.At pcb p) {ev : LwipEvent}
    (own : ev.pcb = some pcb) (powered : ev.Powered) (later : ∀ newpcb ok malloc, ev ≠ .accept newpcb ok malloc) :
    n.Moves ev pcb p := by
  have idle : n.pcbs pcb = none → p.next ev = p → p.turn ev = none → n.Moves ev pcb p := fun closed next turn =>
    moves_none here (netStep_closed own closed later) next turn (silent_closed own closed)
  have counted : ∀ stats, SameButCounts n.http { n.http with httpStats := stats } := fun stats => ⟨stats, n.http.debugJson, rfl⟩
  cases here with
  | unopened closed free | lost closed state only | gone closed free =>
      cases ev with
      | accept newpcb ok malloc => exact absurd rfl (later newpcb ok malloc)
      | recv _ data ok w next | sent _ | err _ => exact idle closed rfl rfl
  | @receiving a st live only fresh unsent =>
      have here : n.At pcb (.receiving a st) := .receiving live only fresh unsent
      cases ev with
      | accept newpcb ok malloc => exact absurd rfl (later newpcb ok malloc)
      | sent _ =>
          cases own
          have step := netStep_sent live
          rw [unsent] at step
          exact moves_none here step rfl rfl ⟨rfl, rfl⟩
      | err _ =>
          cases own
          exact moves_gone only (netStep_err live) (counted _) rfl ⟨rfl, rfl⟩ (.inr rfl)
      | recv _ data ok w next =>
          cases own
          cases data with
          | none => exact moves_gone only (netStep_null live ok w next) (.refl _) rfl ⟨rfl, rfl⟩ (.inr rfl)
          | some data =>
              cases ok with
              | false => exact moves_none here (netStep_faulty live data w next) rfl rfl ⟨rfl, rfl⟩
              | true =>
                  cases received : httpReceive st data with
                  | ignored => exact absurd received (httpReceive_fresh fresh)
                  | waiting st' => exact moves_waiting live only received fresh unsent w next
                  | tooLarge st' => exact moves_tooLarge live only received w next
                  | complete st' => exact moves_request live only received powered next
  | @answered a st live only done sent =>
      have here : n.At pcb (.answered a) := .answered live only done sent
      cases ev with
      | accept newpcb ok malloc => exact absurd rfl (later newpcb ok malloc)
      | sent _ =>
          cases own
          have step := netStep_sent live
          rw [sent, if_pos rfl] at step
          exact moves_gone only step (.refl _) rfl ⟨rfl, rfl⟩ (.inl rfl)
      | err _ =>
          cases own
          exact moves_gone only (netStep_err live) (counted _) rfl ⟨rfl, rfl⟩ (.inl rfl)
      | recv _ data ok w next =>
          cases own
          cases data with
          | none => exact moves_gone only (netStep_null live ok w next) (.refl _) rfl ⟨rfl, rfl⟩ (.inl rfl)
          | some data =>
              cases ok with
              | false => exact moves_none here (netStep_faulty live data w next) rfl rfl ⟨rfl, rfl⟩
              | true =>
                  -- a segment behind the request is freed
                  have answer : httpRecvCb (w.counting n) st n.http data = .done ([], st, n.http) := by
                    unfold httpRecvCb httpReceive
                    simp only [done, if_true]
                  have step := netStep_recv live data w next
                  rw [answer] at step
                  refine moves_none here (step.trans ?_) rfl rfl ⟨?_, ?_⟩
                  · unfold Net.served
                    simp only [List.any_nil, Bool.false_eq_true, if_false]
                    rw [← live.state, Function.update_eq_self]
                  · simp only [Net.reply, live.connection, answer]
                    rfl
                  · simp only [Net.call, live.connection, BoardEvent.dispatched, httpReceive, done, if_true]
                    rfl

/-- The accept of a connection that gets a slot. -/
theorem Net.At.opens {n : Net} (sound : n.Sound) {pcb : Pcb} (here : n.At pcb .unopened) {ok : Bool} {malloc : Option Addr}
    (opens : (netStep n (.accept (some pcb) ok malloc)).pcbs pcb ≠ none) :
    n.Moves (.accept (some pcb) ok malloc) pcb .unopened := by
  cases here with
  | unopened closed free =>
      have change := netStep_change sound (.accept (some pcb) ok malloc)
      generalize step : netStep n (.accept (some pcb) ok malloc) = after at opens change
      cases change with
      | kept => exact absurd closed opens
      | released s live own =>
          cases own
          rw [live.isOpen] at closed
          cases closed
      | @opened _ a slot _ unused empty =>
          refine ⟨?_, ?_, fun _ _ _ => rfl, rfl⟩
          · rw [step]
            refine .receiving ⟨Function.update_self .., Function.update_self ..⟩ ?_ rfl rfl
            intro b st there
            by_cases same : b = a
            · exact same
            · unfold Net.opened at there
              dsimp only at there
              rw [Function.update_of_ne same] at there
              exact absurd there (free b st)
          · intro s alike
            rw [step]
            exact alike

end Roman
