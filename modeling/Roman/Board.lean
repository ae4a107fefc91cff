import Roman.Commands
import Roman.HttpServer.Simulation
import Roman.HttpServer.Receiving

/-! # The board

A run of the board is a sequence of data segments on its connections, each
handled by `http_recv_cb` with whatever the SDK and flash do meanwhile, and of
reboots. The connection and the data are arbitrary, so a run covers every order
of requests, every content and every way the requests interleave.
-/

namespace Roman

open CMem CStr NorFlash

inductive BoardEvent where
  /-- Data arrives on a connection; `next` is the entropy of the boot after a power cut. -/
  | recv (w : World) (st : HttpState) (data : Bytes) (next : Entropy)
  | reboot (entropy : Entropy)

/-- One event. After a power cut the board boots from the flash that is left. -/
def boardStep (s : Http) : BoardEvent → Http
  | .recv w st data next =>
      match httpRecvCb w st s data with
      | .done (_, _, s) => s
      | .cut flash => .boot flash next
  | .reboot entropy => .boot s.flash entropy

abbrev boardRun (s : Http) (events : List BoardEvent) : Http := Runs.run boardStep s events

namespace BoardEvent

/-- The connection whose request the event dispatches, if it completes one. -/
def dispatched : BoardEvent → Option (World × HttpState)
  | .recv w st data _ =>
      match httpReceive st data with
      | .complete st => some (w, st)
      | _ => none
  | .reboot _ => none

/-- What the event asks of the keystore. -/
def command (a : BoardEvent) : Command :=
  match a.dispatched with
  | some (w, st) => st.command w
  | none => .read

def env : BoardEvent → FlashEnv
  | .recv w _ _ _ => w.flash
  | .reboot _ => ⟨.ok, .ok⟩

/-- The reply to the request the event dispatches. -/
def response (s : Http) (a : BoardEvent) : Option Response :=
  match a.dispatched with
  | some (w, st) =>
      match httpRoute w st s with
      | .done (r, _, _) => some r
      | .cut _ => none
  | none => none

/-- The event dispatches a POST request for this path. -/
def Posts (path : Bytes) (a : BoardEvent) : Prop :=
  ∃ w st, a.dispatched = some (w, st) ∧ requestLine st.buf.cstr = some (ascii "POST", path)

theorem dispatched_env {a : BoardEvent} {w : World} {st : HttpState}
    (dispatched : a.dispatched = some (w, st)) : a.env = w.flash := by
  cases a with
  | reboot e => cases dispatched
  | recv w' st' data next =>
      simp only [BoardEvent.dispatched] at dispatched
      cases receive : httpReceive st' data <;> rw [receive] at dispatched <;> cases dispatched
      rfl

end BoardEvent

/-- Only a dispatched request touches the keystore. -/
theorem httpRecvCb_dispatched {w : World} {st : HttpState} {s : Http} {data : Bytes} {next : Entropy} :
    match (BoardEvent.recv w st data next).dispatched with
    | none => ∃ st' events s', httpRecvCb w st s data = .done (events, st', s') ∧
        s'.keystore = s.keystore
    | some (w', st') => w' = w ∧ (httpRecvCb w st s data).map (·.2.2) = (httpRoute w st' s).map (·.2.2) := by
  simp only [BoardEvent.dispatched, httpRecvCb]
  cases httpReceive st data with
  | ignored => exact ⟨_, _, _, rfl, rfl⟩
  | tooLarge st => exact ⟨_, _, _, rfl, rfl⟩
  | waiting st => exact ⟨_, _, _, rfl, rfl⟩
  | complete st =>
      refine ⟨rfl, ?_⟩
      simp only [httpProcessRequest]
      cases httpRoute w st s <;> rfl

/-- While the power stays on, every segment is handled to its end. -/
theorem httpRecvCb_whole {w : World} {st : HttpState} {s : Http} {data : Bytes} {f : Flash}
    (whole : w.flash.Whole) : httpRecvCb w st s data ≠ .cut f := by
  have routes : ∀ {st'}, httpRoute w st' s ≠ .cut f := by
    intro st' cut
    have follows := httpRoute_loads w st' s
    rw [cut, Outcome.map_cut] at follows
    generalize ran : (st'.command w).run w.flash s.keystore = ideal at follows
    cases follows with
    | cut f => exact Command.run_whole whole ran
  intro cut
  unfold httpRecvCb at cut
  cases received : httpReceive st data with
  | ignored | tooLarge st' | waiting st' =>
      simp only [received] at cut
      cases cut
  | complete st' =>
      simp only [received, httpProcessRequest] at cut
      cases route : httpRoute w st' s with
      | cut f' =>
          simp only [route, Outcome.cut.injEq] at cut
          exact routes (cut ▸ route)
      | done r =>
          simp only [route] at cut
          cases cut

/-- A segment does to the keystore what its command does, or cuts the power where it does. -/
theorem boardStep_loads (w : World) (st : HttpState) (data : Bytes) (next : Entropy) (s : Http) :
    match (BoardEvent.recv w st data next).command.run w.flash s.keystore with
    | .cut f => boardStep s (.recv w st data next) = .boot f next
    | .done k => Loads k (boardStep s (.recv w st data next)).keystore := by
  have segment := @httpRecvCb_dispatched w st s data next
  simp only [BoardEvent.command]
  cases target : (BoardEvent.recv w st data next).dispatched with
  | none =>
      simp only [target] at segment
      obtain ⟨st', events, s', eq, kept⟩ := segment
      simp only [Command.run, boardStep, eq, kept]
      exact Loads.refl
  | some words =>
      obtain ⟨w', st'⟩ := words
      simp only [target] at segment
      obtain ⟨rfl, eq⟩ := segment
      have follows := httpRoute_loads w' st' s
      rw [← eq] at follows
      simp only [boardStep]
      cases recv : httpRecvCb w' st s data with
      | done r =>
          rw [recv, Outcome.map_done] at follows
          generalize (st'.command w').run w'.flash s.keystore = ran at follows ⊢
          cases follows with
          | done loads => exact loads
      | cut f =>
          rw [recv, Outcome.map_cut] at follows
          generalize (st'.command w').run w'.flash s.keystore = ran at follows ⊢
          cases follows with
          | cut f => rfl

theorem boardStep_recv (w : World) (st : HttpState) (data : Bytes) (next : Entropy) (s : Http) :
    match (BoardEvent.recv w st data next).command.run w.flash s.keystore with
    | .cut f => boardStep s (.recv w st data next) = .boot f next
    | .done k => Quiet k (boardStep s (.recv w st data next)).keystore := by
  have step := boardStep_loads w st data next s
  cases ran : (BoardEvent.recv w st data next).command.run w.flash s.keystore with
  | done k =>
      rw [ran] at step
      exact step.quiet
  | cut f =>
      rw [ran] at step
      exact step

/-- A power cut in the command is one of the board. -/
theorem boardStep_cut {w : World} {st : HttpState} {data : Bytes} {next : Entropy} {s : Http} {f : Flash}
    (cut : (BoardEvent.recv w st data next).command.run w.flash s.keystore = .cut f) :
    boardStep s (.recv w st data next) = .boot f next := by
  have step := boardStep_recv w st data next s
  rw [cut] at step
  exact step

/-- The board after a request that returns is the server after it. -/
theorem boardStep_done {a : BoardEvent} {s s' : Http} {w : World} {st st' : HttpState} {r : Response}
    (dispatched : a.dispatched = some (w, st)) (done : httpRoute w st s = .done (r, st', s')) :
    boardStep s a = s' := by
  cases a with
  | reboot e => cases dispatched
  | recv w' st₀ data next =>
      have segment := @httpRecvCb_dispatched w' st₀ s data next
      simp only [dispatched] at segment
      obtain ⟨rfl, eq⟩ := segment
      rw [done, Outcome.map_done] at eq
      simp only [boardStep]
      cases recv : httpRecvCb w st₀ s data with
      | cut f =>
          rw [recv] at eq
          cases eq
      | done t =>
          rw [recv, Outcome.map_done, Outcome.done.injEq] at eq
          exact eq

/-- A fresh boot has read the record but changed nothing. -/
theorem boot_quiet (f : Flash) (e : Entropy) :
    (Http.boot f e).flash = f ∧ Coherent (Http.boot f e).keystore := by
  have quiet := keystoreState_quiet (Keystore.boot f e)
  have probed : (Http.boot f e).keystore.store.flash = f := quiet.flash
  refine ⟨probed, ?_⟩
  exact (quiet.coherent (coherent_boot f e)).transport rfl ⟨rfl, rfl, rfl, rfl⟩

/-- What one event can do to a board. -/
inductive BoardChange (s : Http) (a : BoardEvent) : Prop where
  | moved {k : Keystore} (change : Change s.keystore a.env a.command k)
      (quiet : Quiet k (boardStep s a).keystore)
  | lostPower {f : Flash} {e : Entropy} (cut : CutShort s.keystore a.env a.command f)
      (boots : boardStep s a = .boot f e)
  | rebooted {e : Entropy} (reads : a.command = .read) (boots : boardStep s a = .boot s.flash e)

theorem boardStep_change {s : Http} (settled : Settled s.keystore) (a : BoardEvent) :
    BoardChange s a := by
  cases a with
  | reboot e => exact .rebooted rfl rfl
  | recv w st data next =>
      have effect := Command.effect settled w.flash (BoardEvent.recv w st data next).command
      have step := boardStep_recv w st data next s
      cases run : (BoardEvent.recv w st data next).command.run w.flash s.keystore with
      | done k =>
          rw [run] at step
          exact .moved (effect.change run) step
      | cut f =>
          rw [run] at step
          exact .lostPower (effect.cutShort run) step

/-- Every reachable board is settled. -/
theorem boardStep_settled {s : Http} (settled : Settled s.keystore) (a : BoardEvent) :
    Settled (boardStep s a).keystore := by
  cases boardStep_change settled a with
  | moved change quiet => exact quiet.settled (change.settled settled)
  | lostPower cut boots =>
      rw [boots]
      exact fun _ => (boot_quiet _ _).2
  | rebooted reads boots =>
      rw [boots]
      exact fun _ => (boot_quiet _ _).2

theorem boardRun_settled (f : Flash) (e : Entropy) (events : List BoardEvent) :
    Settled (boardRun (.boot f e) events).keystore :=
  Runs.run_invariant (fun s : Http => Settled s.keystore) (fun _ => (boot_quiet f e).2) events
    fun _ a _ settled => boardStep_settled settled a

/-- What a reachable board serves is in flash, or flash holds no record. -/
theorem boardStep_backed {s : Http} (settled : Settled s.keystore) (backed : Backed s.keystore)
    (a : BoardEvent) : Backed (boardStep s a).keystore := by
  cases a with
  | reboot e => exact (boot_quiet s.flash e).2.backed
  | recv w st data next =>
      have step := boardStep_loads w st data next s
      cases ran : (BoardEvent.recv w st data next).command.run w.flash s.keystore with
      | done k =>
          rw [ran] at step
          exact (Command.run_backed settled backed ran).of_loads step
      | cut f =>
          rw [ran] at step
          rw [step]
          exact (boot_quiet f next).2.backed

theorem boardRun_backed (f : Flash) (e : Entropy) (events : List BoardEvent) :
    Backed (boardRun (.boot f e) events).keystore := by
  have both := Runs.run_invariant (fun s : Http => Settled s.keystore ∧ Backed s.keystore)
    ⟨fun _ => (boot_quiet f e).2, (boot_quiet f e).2.backed⟩ events
    fun _ a _ inv => ⟨boardStep_settled inv.1 a, boardStep_backed inv.1 inv.2 a⟩
  exact both.2

theorem BoardEvent.Posts.unique {a : BoardEvent} {path path' : Bytes} (posts : a.Posts path)
    (posts' : a.Posts path') : path = path' := by
  obtain ⟨w, st, dispatched, line⟩ := posts
  obtain ⟨w', st', dispatched', line'⟩ := posts'
  rw [dispatched] at dispatched'
  cases dispatched'
  rw [line] at line'
  cases line'
  rfl

def sampleBody : Bytes :=
  ascii "\x7b\"pk\":\"" ++ base64Encode samplePk ++ ascii "\",\"sk\":\"" ++
    base64Encode sampleSeed ++ ascii "\",\"device_id\":\"unit-1\"\x7d"

def sampleWrite : Bytes :=
  ascii "POST /write HTTP/1.1\r\nContent-Length: 126\r\n\r\n" ++ sampleBody

def sampleInfo : Bytes := ascii "GET /info HTTP/1.1\r\n\r\n"

/-- The request in one segment is complete. -/
theorem sampleWrite_receive :
    httpReceive .accepted sampleWrite = .complete (.received sampleWrite 126) := by
  have blank : strstr sampleWrite (ascii "\r\n\r\n") = some (ascii "\r\n\r\n" ++ sampleBody) := by
    decide +kernel
  have length : contentLengthOf sampleWrite = 126 := by decide +kernel
  have receive := httpReceive_whole (by decide +kernel) (by decide +kernel) blank (by decide +kernel)
  rwa [length] at receive

def writeEvent (flash : FlashEnv) : BoardEvent := .recv (benchWorld flash) .accepted sampleWrite silent

theorem writeEvent_env (flash : FlashEnv) : (writeEvent flash).env = flash := by
  rw [writeEvent, BoardEvent.env, benchWorld]

theorem writeEvent_dispatched (flash : FlashEnv) :
    (writeEvent flash).dispatched = some (benchWorld flash, .received sampleWrite 126) := by
  simp only [writeEvent, BoardEvent.dispatched, sampleWrite_receive]

theorem sampleWrite_cstr : (HttpState.received sampleWrite 126).buf.cstr = sampleWrite :=
  HttpState.received_cstr (by decide +kernel) (by decide +kernel)

theorem sampleWrite_line : requestLine sampleWrite = some (ascii "POST", ascii "/write") := by
  decide +kernel

theorem writeEvent_posts (flash : FlashEnv) : (writeEvent flash).Posts (ascii "/write") :=
  ⟨_, _, writeEvent_dispatched flash, by rw [sampleWrite_cstr, sampleWrite_line]⟩

theorem writeEvent_command (flash : FlashEnv) : (writeEvent flash).command =
    .provision (base64Encode samplePk) (base64Encode sampleSeed) sampleId := by
  have body : requestBody sampleWrite = some sampleBody := by decide +kernel
  have pk : jsonField sampleBody (ascii "pk") 64 = some (base64Encode samplePk) := by decide +kernel
  have sk : jsonField sampleBody (ascii "sk") 128 = some (base64Encode sampleSeed) := by decide +kernel
  have id : jsonField sampleBody (ascii "device_id") (RECORD_MAX_DEVICE_ID + 1) = some sampleId := by
    decide +kernel
  have route : (HttpState.received sampleWrite 126).route (benchWorld flash) = .write := by
    rw [HttpState.route, sampleWrite_cstr, sampleWrite_line]
    rfl
  have nonempty : ¬ (sampleBody = [] ∨ (126 : Int) > HTTP_FORM_BODY_LIMIT) := by decide +kernel
  have length : (HttpState.received sampleWrite 126).contentLength = 126 := rfl
  simp only [BoardEvent.command, writeEvent_dispatched, HttpState.command, route, HttpState.body,
    sampleWrite_cstr, body, bodyText, Option.getD_some, writeCommand, length, if_neg nonempty, pk, sk, id]

def infoEvent : BoardEvent := .recv (benchWorld ⟨.ok, .ok⟩) .accepted sampleInfo silent

theorem infoEvent_env : infoEvent.env = ⟨.ok, .ok⟩ := by
  rw [infoEvent, BoardEvent.env, benchWorld]

theorem infoEvent_dispatched :
    infoEvent.dispatched = some (benchWorld ⟨.ok, .ok⟩, .received sampleInfo 0) := by
  have blank : strstr sampleInfo (ascii "\r\n\r\n") = some (ascii "\r\n\r\n" ++ []) := by decide +kernel
  have length : contentLengthOf sampleInfo = 0 := by decide +kernel
  have receive := httpReceive_whole (by decide +kernel) (by decide +kernel) blank (by decide +kernel)
  rw [length] at receive
  simp only [infoEvent, BoardEvent.dispatched, receive]

theorem infoEvent_route :
    (HttpState.received sampleInfo 0).route (benchWorld ⟨.ok, .ok⟩) = .info := by
  have text : (HttpState.received sampleInfo 0).buf.cstr = sampleInfo :=
    HttpState.received_cstr (by decide +kernel) (by decide +kernel)
  have line : requestLine sampleInfo = some (ascii "GET", ascii "/info") := by decide +kernel
  rw [HttpState.route, text, line]
  rfl

theorem infoEvent_command : infoEvent.command = .read := by
  simp only [BoardEvent.command, infoEvent_dispatched, HttpState.command, infoEvent_route]

/-- GET /info on an unprovisioned board loads what flash holds. -/
theorem infoEvent_keystore {s : Http} (unset : storageWriten s.flash = false) :
    (boardStep s infoEvent).keystore = (keystoreLoad s.keystore).2 := by
  have done : httpRoute (benchWorld ⟨.ok, .ok⟩) (.received sampleInfo 0) s =
      unchanged (.received sampleInfo 0) (handleInfo s.counted) := by
    rw [httpRoute_eq, infoEvent_route]
  have still : storageWriten (keystoreLoad s.keystore).2.store.flash = false := by
    rw [(keystoreLoad_quiet s.keystore).flash]
    exact unset
  rw [boardStep_done infoEvent_dispatched done, handleInfo_keystore, Http.counted_keystore,
    keystoreState, if_pos still]

end Roman
