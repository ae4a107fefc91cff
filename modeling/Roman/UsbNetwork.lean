import Roman.Lib.Ownership
import Roman.Lib.Region
import Roman.Lib.Runs

/-! # usb_network.c

Frames from the driver to the network stack. One buffer at most waits between the two;
the driver's callbacks run from `tud_task`, which the main loop calls and which
`tud_output` calls again while the stack is busy with the frame that it was handed.
-/

namespace Roman.UsbNetwork

open CMem Ownership Runs

/-- A `struct pbuf` of one segment: which one it is, and its payload. -/
structure Pbuf where
  id : Nat
  payload : Bytes
  deriving DecidableEq

/-- What is done with the frames, in order. -/
inductive Event
  | alloc (p : Pbuf)
  | lend (p : Pbuf)
  | back (p : Pbuf) (kept : Bool)
  | free (p : Pbuf)
  | renew
  deriving DecidableEq

/-- The static state, the allocator's next buffer, and what has been done so far. -/
structure Usb where
  receivedFrame : Option Pbuf
  next : Nat
  log : List Event

def Usb.start : Usb := ⟨none, 0, []⟩

/-- A call of the driver: a frame, with whether there is a buffer for it, or the network starts again. -/
inductive Callback
  | recv (src : Bytes) (room : Bool)
  | init
  deriving DecidableEq

/-- `tud_network_init_cb` -/
def tudNetworkInitCb (s : Usb) : Usb :=
  match s.receivedFrame with
  | some p => { s with receivedFrame := none, log := s.log ++ [.free p] }
  | none => s

/-- `tud_network_recv_cb`, with what it tells the driver. -/
def tudNetworkRecvCb (s : Usb) (src : Bytes) (room : Bool) : Usb × Bool :=
  if s.receivedFrame.isSome then (s, false)
  else if src ≠ [] ∧ room = true then
    ({ receivedFrame := some ⟨s.next, src⟩, next := s.next + 1, log := s.log ++ [.alloc ⟨s.next, src⟩] }, true)
  else (s, true)

def callback (s : Usb) : Callback → Usb
  | .recv src room => (tudNetworkRecvCb s src room).1
  | .init => tudNetworkInitCb s

/-- `tud_task`: the calls that the driver makes. -/
def tudTask (s : Usb) (calls : List Callback) : Usb := calls.foldl callback s

inductive Err
  | ok
  | use
  deriving DecidableEq

/-- What `tud_output` finds in one turn of its loop, and what the driver calls in it. -/
structure Poll where
  ready : Bool
  canXmit : Bool
  calls : List Callback

/-- `tud_output`: how it ends, unless it waits longer than this. -/
def tudOutput (s : Usb) : List Poll → Usb × Option Err
  | [] => (s, none)
  | poll :: polls =>
      if poll.ready = false then (s, some .use)
      else if poll.canXmit = true then (s, some .ok)
      else tudOutput (tudTask s poll.calls) polls

/-- The stack's part: it sends while it looks at the frame, and keeps the frame or not. -/
structure Input where
  sends : List (List Poll)
  kept : Bool

/-- The frames that the stack sends. -/
def sendAll (s : Usb) (sends : List (List Poll)) : Usb := sends.foldl (fun s polls => (tudOutput s polls).1) s

/-- `service_traffic`, with the frames that `sys_check_timeouts` sends at its end. The static variable is read again
after the stack returns. -/
def serviceTraffic (s : Usb) (input : Input) (timeouts : List (List Poll)) : Usb :=
  match s.receivedFrame with
  | none => sendAll s timeouts
  | some p =>
      let s := sendAll { s with log := s.log ++ [.lend p] } input.sends
      let s := { s with log := s.log ++ [Event.back p input.kept] }
      let s :=
        match input.kept, s.receivedFrame with
        | false, some q => { s with log := s.log ++ [Event.free q] }
        | _, _ => s
      sendAll { s with receivedFrame := none, log := s.log ++ [Event.renew] } timeouts

/-- What happens in one turn of the main loop. -/
structure Turn where
  calls : List Callback
  input : Input
  timeouts : List (List Poll)

/-- `usb_network_update` -/
def usbNetworkUpdate (s : Usb) (turn : Turn) : Usb := serviceTraffic (tudTask s turn.calls) turn.input turn.timeouts

/-- The calls that are made before `tud_output` returns. -/
def called : List Poll → List Callback
  | [] => []
  | poll :: polls => if poll.ready = false ∨ poll.canXmit = true then [] else poll.calls ++ called polls

theorem tudTask_append (s : Usb) (first second : List Callback) :
    tudTask s (first ++ second) = tudTask (tudTask s first) second := List.foldl_append

theorem tudOutput_eq (s : Usb) (polls : List Poll) : (tudOutput s polls).1 = tudTask s (called polls) := by
  induction polls generalizing s with
  | nil => rfl
  | cons poll polls ih =>
      rw [tudOutput, called]
      by_cases ready : poll.ready = false
      · rw [if_pos ready, if_pos (.inl ready)]
        rfl
      rw [if_neg ready]
      by_cases free : poll.canXmit = true
      · rw [if_pos free, if_pos (.inr free)]
        rfl
      · rw [if_neg free, if_neg (not_or.mpr ⟨ready, free⟩), tudTask_append, ih]

theorem sendAll_eq (s : Usb) (sends : List (List Poll)) : sendAll s sends = tudTask s (sends.flatMap called) := by
  induction sends generalizing s with
  | nil => rfl
  | cons polls sends ih =>
      rw [List.flatMap_cons, tudTask_append, ← tudOutput_eq, ← ih]
      rfl

/-- While a frame waits, the driver is refused, and only a new start takes the frame away. -/
theorem tudTask_waiting {s : Usb} {p : Pbuf} (waits : s.receivedFrame = some p) {calls : List Callback}
    (quiet : .init ∉ calls) : tudTask s calls = s := by
  induction calls with
  | nil => rfl
  | cons call calls ih =>
      have rest := ih fun later => quiet (List.mem_cons_of_mem _ later)
      cases call with
      | init => exact absurd (List.mem_cons_self ..) quiet
      | recv src room =>
          have refused : callback s (.recv src room) = s := by
            rw [callback, tudNetworkRecvCb, waits, Option.isSome_some, if_pos rfl]
          rw [tudTask, List.foldl_cons, refused]
          exact rest

def Event.op : Event → Option Op
  | .alloc p => some (.alloc p.id)
  | .lend p => some (.lend p.id)
  | .back p kept => some (.back p.id kept)
  | .free p => some (.free p.id)
  | .renew => none

/-- The operations on buffers, in order. -/
def ops (log : List Event) : List Op := log.filterMap Event.op

/-- The frames that were taken from the driver. -/
def accepted (log : List Event) : List Pbuf :=
  log.filterMap fun | .alloc p => some p | _ => none

/-- The frames that are done with: the stack keeps them, or they were freed. -/
def settled (log : List Event) : List Pbuf :=
  log.filterMap fun | .back p true => some p | .free p => some p | _ => none

theorem ops_append (one two : List Event) : ops (one ++ two) = ops one ++ ops two := List.filterMap_append

theorem accepted_append (one two : List Event) : accepted (one ++ two) = accepted one ++ accepted two :=
  List.filterMap_append

theorem settled_append (one two : List Event) : settled (one ++ two) = settled one ++ settled two :=
  List.filterMap_append

/-- Between two calls the program owns the frame that waits, and no other. -/
def owners (s : Usb) : Owners := fun i =>
  if i < s.next then some (if s.receivedFrame.map Pbuf.id = some i then .ours else .gone) else none

/-- The books are right: the rules were kept, the frame that waits is the newest, and the others are done with. -/
structure Ledger (s : Usb) : Prop where
  played : play (fun _ => none) (ops s.log) = some (owners s)
  newest : ∀ p, s.receivedFrame = some p → p.id + 1 = s.next
  balance : accepted s.log = settled s.log ++ s.receivedFrame.toList

theorem Ledger.start : Ledger Usb.start := ⟨rfl, (fun _ none => by cases none), rfl⟩

/-- The books after operations that are played from the owners of now. -/
theorem Ledger.append {s t : Usb} (ledger : Ledger s) {more : List Event} (log : t.log = s.log ++ more)
    (played : play (owners s) (ops more) = some (owners t)) (newest : ∀ p, t.receivedFrame = some p → p.id + 1 = t.next)
    (balance : s.receivedFrame.toList ++ accepted more = settled more ++ t.receivedFrame.toList) : Ledger t := by
  constructor
  · rw [log, ops_append, play_concat ledger.played, played]
  · exact newest
  · rw [log, accepted_append, settled_append, ledger.balance, List.append_assoc, List.append_assoc, balance]

section
variable {s : Usb} (ledger : Ledger s) {p : Pbuf} (waits : s.receivedFrame = some p)
include ledger waits

theorem Ledger.mine : owners s p.id = some .ours := by
  have newest := ledger.newest p waits
  rw [owners, if_pos (by omega), waits, Option.map_some, if_pos rfl]

/-- The owners after the frame that waits is done with. -/
theorem Ledger.done : Function.update (owners s) p.id (some .gone) = owners ⟨none, s.next, []⟩ := by
  have newest := ledger.newest p waits
  funext i
  by_cases same : i = p.id
  · rw [same, Function.update_self, owners, if_pos (by dsimp only; omega)]
    rfl
  · rw [Function.update_of_ne same, owners, owners, waits, Option.map_some,
      if_neg fun other : some p.id = some i => same (Option.some.inj other).symm]
    rfl

end

theorem Ledger.callback {s : Usb} (ledger : Ledger s) (call : Callback) : Ledger (callback s call) := by
  cases call with
  | init =>
      rw [UsbNetwork.callback, tudNetworkInitCb]
      cases waits : s.receivedFrame with
      | none => exact ledger
      | some p =>
          dsimp only
          refine ledger.append rfl ?_ (fun _ none => by cases none) ?_
          · change (step (owners s) (.free p.id)).bind some = _
            rw [step, if_pos (ledger.mine waits), Option.bind_some, ledger.done waits]
            rfl
          · rw [waits]
            rfl
  | recv src room =>
      rw [UsbNetwork.callback, tudNetworkRecvCb]
      split
      · exact ledger
      next free =>
        have free : s.receivedFrame = none := Option.not_isSome_iff_eq_none.mp free
        split
        · refine ledger.append rfl ?_ (fun p here => by cases here; rfl) ?_
          · change (step (owners s) (.alloc s.next)).bind _ = _
            rw [step, if_pos (by rw [owners, if_neg (Nat.lt_irrefl _)]), Option.bind_some]
            refine congrArg some (funext fun i => ?_)
            by_cases same : i = s.next
            · rw [same, Function.update_self, owners, if_pos (Nat.lt_succ_self _), Option.map_some, if_pos rfl]
            · rw [Function.update_of_ne same, owners, owners, free, Option.map_some,
                if_neg fun other : some s.next = some i => same (Option.some.inj other).symm]
              by_cases below : i < s.next
              · rw [if_pos below, if_pos (Nat.lt_succ_of_lt below)]
                rfl
              · rw [if_neg below, if_neg (by dsimp only; omega)]
          · rw [free]
            rfl
        · exact ledger

theorem Ledger.tudTask {s : Usb} (ledger : Ledger s) (calls : List Callback) : Ledger (tudTask s calls) :=
  run_invariant Ledger ledger calls fun _ call _ ledger => ledger.callback call

/-- What the driver calls while the stack looks at the frame. -/
def Input.calls (input : Input) : List Callback := input.sends.flatMap called

/-- The network does not start again while the stack looks at a frame. -/
def Calm (s : Usb) (turn : Turn) : Prop :=
  (tudTask s turn.calls).receivedFrame = none ∨ .init ∉ turn.input.calls

section
variable {s : Usb} (ledger : Ledger s) {p : Pbuf} (waits : s.receivedFrame = some p)
include ledger waits

theorem Ledger.handOver (input : Input) : play (owners s) (ops ([.lend p, .back p input.kept] ++
    (if input.kept then [] else [.free p]) ++ [.renew])) = some (owners ⟨none, s.next, []⟩) := by
  have mine := ledger.mine waits
  have done := ledger.done waits
  cases input.kept with
  | true =>
      change (step (owners s) (.lend p.id)).bind (fun w => (step w (.back p.id true)).bind some) = _
      rw [step, if_pos mine, Option.bind_some, step, if_pos (Function.update_self ..), Option.bind_some,
        Function.update_idem, if_pos rfl, done]
  | false =>
      change (step (owners s) (.lend p.id)).bind (fun w => (step w (.back p.id false)).bind fun w =>
        (step w (.free p.id)).bind some) = _
      rw [step, if_pos mine, Option.bind_some, step, if_pos (Function.update_self ..), Option.bind_some,
        Function.update_idem, if_neg Bool.false_ne_true, step, if_pos (Function.update_self ..), Option.bind_some,
        Function.update_idem, done]

end

theorem Ledger.serviceTraffic {s : Usb} (ledger : Ledger s) {input : Input}
    (calm : s.receivedFrame = none ∨ .init ∉ input.calls) (timeouts : List (List Poll)) :
    Ledger (serviceTraffic s input timeouts) := by
  obtain ⟨_ | p, next, log⟩ := s
  · rw [UsbNetwork.serviceTraffic, sendAll_eq]
    exact ledger.tudTask _
  have quiet : .init ∉ input.calls := calm.resolve_left fun none => by cases none
  have unchanged : sendAll ⟨some p, next, log ++ [.lend p]⟩ input.sends = ⟨some p, next, log ++ [.lend p]⟩ :=
    (sendAll_eq _ _).trans (tudTask_waiting rfl quiet)
  have played := ledger.handOver rfl input
  rw [UsbNetwork.serviceTraffic]
  dsimp only
  rw [unchanged, sendAll_eq]
  refine Ledger.tudTask ?_ _
  cases kept : input.kept with
  | true =>
      rw [kept] at played
      exact ledger.append (by simp only [List.append_assoc]; rfl) played (fun _ none => by cases none) rfl
  | false =>
      rw [kept] at played
      exact ledger.append (by simp only [List.append_assoc]; rfl) played (fun _ none => by cases none) rfl

theorem Ledger.update {s : Usb} (ledger : Ledger s) {turn : Turn} (calm : Calm s turn) :
    Ledger (usbNetworkUpdate s turn) := (ledger.tudTask turn.calls).serviceTraffic calm turn.timeouts

theorem callback_log (s : Usb) (call : Callback) : s.log <+: (callback s call).log := by
  cases call with
  | init =>
      rw [callback, tudNetworkInitCb]
      split
      · exact List.prefix_append ..
      · exact List.prefix_refl _
  | recv src room =>
      rw [callback, tudNetworkRecvCb]
      split
      · exact List.prefix_refl _
      · split
        · exact List.prefix_append ..
        · exact List.prefix_refl _

theorem tudTask_log (s : Usb) (calls : List Callback) : s.log <+: (tudTask s calls).log :=
  run_invariant (fun t : Usb => s.log <+: t.log) (List.prefix_refl _) calls
    fun t call _ earlier => earlier.trans (callback_log t call)

/-- The frame that the stack looks at is freed. -/
theorem tudTask_restart {s : Usb} {p : Pbuf} (waits : s.receivedFrame = some p) {calls : List Callback}
    (restart : .init ∈ calls) : s.log ++ [.free p] <+: (tudTask s calls).log := by
  induction calls with
  | nil => cases restart
  | cons call calls ih =>
      cases call with
      | init =>
          have freed : callback s .init = { s with receivedFrame := none, log := s.log ++ [.free p] } := by
            rw [callback, tudNetworkInitCb, waits]
          rw [tudTask, List.foldl_cons, freed]
          exact tudTask_log ⟨none, s.next, s.log ++ [.free p]⟩ calls
      | recv src room =>
          have refused : callback s (.recv src room) = s := by
            rw [callback, tudNetworkRecvCb, waits, Option.isSome_some, if_pos rfl]
          rw [tudTask, List.foldl_cons, refused]
          exact ih ((List.mem_cons.mp restart).resolve_left fun same => by cases same)

theorem serviceTraffic_sent (next : Nat) (log : List Event) (p : Pbuf) (input : Input) (timeouts : List (List Poll)) :
    (tudTask ⟨some p, next, log ++ [.lend p]⟩ input.calls).log <+:
      (serviceTraffic ⟨some p, next, log⟩ input timeouts).log := by
  rw [serviceTraffic, Input.calls, ← sendAll_eq]
  dsimp only
  generalize sendAll ⟨some p, next, log ++ [.lend p]⟩ input.sends = t
  rw [sendAll_eq]
  refine List.IsPrefix.trans ?_ (tudTask_log _ _)
  dsimp only
  split <;> simp only [List.append_assoc, List.prefix_append]

theorem update_log (s : Usb) (turn : Turn) : s.log <+: (usbNetworkUpdate s turn).log := by
  refine (tudTask_log s turn.calls).trans ?_
  rw [usbNetworkUpdate]
  generalize tudTask s turn.calls = t
  obtain ⟨_ | p, next, log⟩ := t
  · rw [serviceTraffic, sendAll_eq]
    exact tudTask_log _ _
  · exact ((List.prefix_append log [.lend p]).trans (tudTask_log ⟨some p, next, log ++ [.lend p]⟩ _)).trans
      (serviceTraffic_sent next log p ..)

theorem play_longer {w : Owners} {log more : List Event} (longer : log <+: more) (broken : play w (ops log) = none) :
    play w (ops more) = none := by
  obtain ⟨rest, rfl⟩ := longer
  rw [ops_append]
  exact play_none broken

theorem run_log (s : Usb) (turns : List Turn) : s.log <+: (run usbNetworkUpdate s turns).log :=
  run_invariant (fun t : Usb => s.log <+: t.log) (List.prefix_refl _) turns
    fun t turn _ earlier => earlier.trans (update_log t turn)

/-- The rules are broken when the network starts again while the stack looks at a frame. -/
theorem Ledger.broken {s : Usb} (ledger : Ledger s) {turn : Turn} (wild : ¬Calm s turn) :
    play (fun _ => none) (ops (usbNetworkUpdate s turn).log) = none := by
  obtain ⟨waits, restart⟩ := not_or.mp wild
  have before := ledger.tudTask turn.calls
  rw [usbNetworkUpdate]
  generalize UsbNetwork.tudTask s turn.calls = t at before waits
  obtain ⟨_ | p, next, log⟩ := t
  · exact absurd rfl waits
  have freed := (tudTask_restart (s := ⟨some p, next, log ++ [.lend p]⟩) rfl (not_not.mp restart)).trans
    (serviceTraffic_sent next log p turn.input turn.timeouts)
  refine play_longer freed ?_
  rw [List.append_assoc, ops_append, play_concat before.played]
  change (step _ (.lend p.id)).bind (fun w => (step w (.free p.id)).bind some) = none
  rw [step, if_pos (before.mine rfl), Option.bind_some, step, Function.update_self, if_neg (by decide), Option.bind_none]

/-- In every run, no frame is freed or handed over that the program does not own, exactly if the network never starts
again while the stack looks at a frame. -/
theorem frames_owned_iff (turns : List Turn) :
    (play (fun _ => none) (ops (run usbNetworkUpdate .start turns).log)).isSome ↔
      Along usbNetworkUpdate Calm .start turns := by
  suffices all : ∀ s, Ledger s → ((play (fun _ => none) (ops (run usbNetworkUpdate s turns).log)).isSome ↔
      Along usbNetworkUpdate Calm s turns) from all .start .start
  induction turns with
  | nil => exact fun s ledger => iff_of_true (by rw [run_nil, ledger.played, Option.isSome_some]) trivial
  | cons turn turns ih =>
      intro s ledger
      rw [run_cons]
      by_cases calm : Calm s turn
      · rw [ih _ (ledger.update calm)]
        exact (and_iff_right calm).symm
      · refine iff_of_false ?_ fun along => calm along.1
        rw [play_longer (run_log _ turns) (ledger.broken calm)]
        exact Bool.false_ne_true

/-- Then every frame that was taken from the driver is settled once, in the order of arrival and as it was taken, but
for the one that waits; that one is the program's, and every other one is not. -/
theorem frames_settled {turns : List Turn} (calm : Along usbNetworkUpdate Calm .start turns) :
    accepted (run usbNetworkUpdate .start turns).log =
      settled (run usbNetworkUpdate .start turns).log ++ (run usbNetworkUpdate .start turns).receivedFrame.toList ∧
    play (fun _ => none) (ops (run usbNetworkUpdate .start turns).log) = some (owners (run usbNetworkUpdate .start turns)) := by
  have ledger : Ledger (run usbNetworkUpdate .start turns) :=
    calm.invariant Ledger .start fun _ _ _ ledger calm => ledger.update calm
  exact ⟨ledger.balance, ledger.played⟩

/-- A frame that the stack keeps. -/
theorem frames_settled_kept :
    [⟨0, [1]⟩] = settled (run usbNetworkUpdate .start [⟨[.recv [1] true], ⟨[], true⟩, []⟩]).log ++ [] :=
  (@frames_settled [⟨[.recv [1] true], ⟨[], true⟩, []⟩] ⟨.inr (by decide), trivial⟩).1

end Roman.UsbNetwork
