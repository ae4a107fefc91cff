import Roman.HttpServer.Connections
import Roman.HttpServer.Fits

/-! # The slots of the connections

Every state that is allocated sits in one slot, in every order of callbacks. A slot
belongs to an open connection as long as `tcp_write` takes the replies:
`http_send_response` closes a connection it cannot write to and leaves its state where
it is, and no callback comes to free it.
-/

namespace Roman

open CMem CStr NorFlash Pool

/-- Slots, heap and open connections fit together. -/
structure Net.Sound (n : Net) : Prop where
  allocated : ∀ i a, n.httpStates i = some a → (n.heap a).isSome
  registered : ∀ a, (n.heap a).isSome → ∃ i, n.httpStates i = some a
  once : Once n.httpStates
  arg : ∀ pcb arg, n.pcbs pcb = some arg → ∃ a st, arg = some a ∧ n.heap a = some (pcb, st)
  proper : n.misused = false

/-- A connection that is open, and its state. -/
structure Net.Live (n : Net) (pcb : Pcb) (a : Addr) (st : HttpState) : Prop where
  isOpen : n.pcbs pcb = some (some a)
  state : n.heap a = some (pcb, st)

/-- The server after a segment was handled. -/
def Net.served (n : Net) (pcb : Pcb) (a : Addr) (r : List TcpEvent × HttpState × Http) : Net :=
  let n := { n with http := r.2.2, heap := Function.update n.heap a (some (pcb, r.2.1)) }
  if r.1.any TcpEvent.isClose then tcpClose n pcb else n

/-- The server after a connection is closed and its state freed. -/
def Net.released (n : Net) (pcb : Pcb) (a : Addr) (s : Http) : Net :=
  { n with
    http := s
    httpStates := remove n.httpStates a
    heap := Function.update n.heap a none
    pcbs := Function.update n.pcbs pcb none }

/-- The server after a connection is accepted. -/
def Net.opened (n : Net) (pcb : Pcb) (a : Addr) (slot : Fin HTTP_MAX_CONN) : Net :=
  { n with
    httpStates := put n.httpStates slot a
    heap := Function.update n.heap a (some (pcb, .accepted))
    pcbs := Function.update n.pcbs pcb (some (some a)) }

/-- Everything a callback can do. -/
inductive NetChange (n : Net) : LwipEvent → Net → Prop where
  | kept (ev : LwipEvent) : NetChange n ev n
  | opened {pcb : Pcb} {a : Addr} {slot : Fin HTTP_MAX_CONN} (closed : n.pcbs pcb = none)
      (free : n.heap a = none) (empty : n.httpStates slot = none) :
      NetChange n (.accept (some pcb) true (some a)) (n.opened pcb a slot)
  | served {pcb : Pcb} {a : Addr} {st : HttpState} {data : Bytes} {w : World} {next : Entropy}
      {r : List TcpEvent × HttpState × Http} (live : n.Live pcb a st)
      (recv : httpRecvCb (w.counting n) st n.http data = .done r) :
      NetChange n (.recv pcb (some data) true w next) (n.served pcb a r)
  | reset {pcb : Pcb} {a : Addr} {st : HttpState} {data : Bytes} {w : World} {next : Entropy} {f : Flash}
      (live : n.Live pcb a st) (recv : httpRecvCb (w.counting n) st n.http data = .cut f) :
      NetChange n (.recv pcb (some data) true w next) (.idle (.boot f next))
  | released {ev : LwipEvent} {pcb : Pcb} {a : Addr} {st : HttpState} (s : Http) (live : n.Live pcb a st)
      (own : ev.pcb = some pcb) : NetChange n ev (n.released pcb a s)

theorem discard_eq {n : Net} {a : Addr} (allocated : (n.heap a).isSome) : n.discard a =
    { n with httpStates := remove n.httpStates a, heap := Function.update n.heap a none } := by
  obtain ⟨owned, state⟩ := Option.isSome_iff_exists.mp allocated
  simp only [Net.discard, memFree, state]

theorem httpCloseConn_live {n : Net} {pcb : Pcb} {a : Addr} (allocated : (n.heap a).isSome) :
    httpCloseConn n pcb (some a) = n.released pcb a n.http := by
  unfold httpCloseConn
  dsimp only
  rw [discard_eq allocated]
  rfl

/-- A new connection for which there is a slot. -/
theorem netStep_accept {n : Net} {pcb : Pcb} {a : Addr} {slot : Fin HTTP_MAX_CONN} (closed : n.pcbs pcb = none)
    (free : n.heap a = none) (empty : vacant n.httpStates = some slot) :
    netStep n (.accept (some pcb) true (some a)) = n.opened pcb a slot := by
  have given : ¬ ((∃ p, some pcb = some p ∧ (n.pcbs p).isSome) ∨ (∃ b, some a = some b ∧ (n.heap b).isSome)) := by
    rintro (⟨p, ⟨⟩, isOpen⟩ | ⟨b, ⟨⟩, isSome⟩)
    · rw [closed] at isOpen
      cases isOpen
    · rw [free] at isSome
      cases isSome
  unfold netStep
  dsimp only
  rw [if_neg given]
  simp only [httpAcceptCb, Bool.true_eq_false, if_false, empty, Net.opened]

theorem accept_change {n : Net} {newpcb : Option Pcb} {ok : Bool} {malloc : Option Addr} :
    NetChange n (.accept newpcb ok malloc) (netStep n (.accept newpcb ok malloc)) := by
  unfold netStep
  dsimp only
  split
  · exact .kept _
  rename_i given
  rw [not_or] at given
  cases newpcb with
  | none => exact .kept _
  | some pcb =>
      have closed : n.pcbs pcb = none := by
        rw [← Option.not_isSome_iff_eq_none]
        exact fun isOpen => given.1 ⟨pcb, rfl, isOpen⟩
      have closing : tcpClose n pcb = n := by
        unfold tcpClose
        rw [← closed, Function.update_eq_self]
      cases ok with
      | false => exact .kept _
      | true =>
          cases malloc with
          | none =>
              have same : httpAcceptCb n (some pcb) true none = n := closing
              rw [same]
              exact .kept _
          | some a =>
              have free : n.heap a = none := by
                rw [← Option.not_isSome_iff_eq_none]
                exact fun isSome => given.2 ⟨a, rfl, isSome⟩
              cases slot : vacant n.httpStates with
              | some i =>
                  have eq : httpAcceptCb n (some pcb) true (some a) = n.opened pcb a i := by
                    simp only [httpAcceptCb, Bool.true_eq_false, if_false, slot, Net.opened]
                  rw [eq]
                  exact .opened closed free (vacant_empty slot)
              | none =>
                  -- the state is freed as it was allocated, and the connection closed
                  have eq : httpAcceptCb n (some pcb) true (some a) = tcpClose n pcb := by
                    simp only [httpAcceptCb, Bool.true_eq_false, if_false, slot, memFree, Function.update_self,
                      Function.update_idem]
                    rw [← free, Function.update_eq_self]
                  rw [eq, closing]
                  exact .kept _

/-- Nothing is delivered on a connection that is not open. -/
theorem netStep_closed {n : Net} {ev : LwipEvent} {pcb : Pcb} (own : ev.pcb = some pcb)
    (closed : n.pcbs pcb = none) (later : ∀ newpcb ok malloc, ev ≠ .accept newpcb ok malloc) : netStep n ev = n := by
  cases ev with
  | accept newpcb ok malloc => exact absurd rfl (later newpcb ok malloc)
  | recv p data ok w next | sent p | err p =>
      cases own
      unfold netStep
      simp only [closed]

section
variable {n : Net} {pcb : Pcb} {a : Addr} {st : HttpState} (live : n.Live pcb a st)
include live

theorem Net.Live.allocated : (n.heap a).isSome := by
  rw [live.state]
  rfl

/-- A segment on an open connection. -/
theorem netStep_recv (data : Bytes) (w : World) (next : Entropy) :
    netStep n (.recv pcb (some data) true w next) =
      match httpRecvCb (w.counting n) st n.http data with
      | .done r => n.served pcb a r
      | .cut f => .idle (.boot f next) := by
  simp only [netStep, live.isOpen, httpRecvCbPbuf, live.state, Bool.true_eq_false, if_false]
  cases httpRecvCb (w.counting n) st n.http data with
  | done r => rfl
  | cut f => rfl

/-- NULL: the other side has closed. -/
theorem netStep_null (ok : Bool) (w : World) (next : Entropy) :
    netStep n (.recv pcb none ok w next) = n.released pcb a n.http := by
  simp only [netStep, live.isOpen, httpRecvCbPbuf, httpCloseConn_live live.allocated]

/-- A segment with an error is freed. -/
theorem netStep_faulty (data : Bytes) (w : World) (next : Entropy) :
    netStep n (.recv pcb (some data) false w next) = n := by
  simp only [netStep, live.isOpen, httpRecvCbPbuf, live.state, if_true]

theorem netStep_sent : netStep n (.sent pcb) = if st.sent then n.released pcb a n.http else n := by
  simp only [netStep, live.isOpen, httpSentCb, live.state]
  cases st.sent with
  | false => rfl
  | true =>
      simp only [if_true]
      rw [httpCloseConn_live (by simp)]
      simp only [Net.released, Function.update_idem]

theorem netStep_err : netStep n (.err pcb) =
    n.released pcb a { n.http with httpStats.errors := n.http.httpStats.errors + 1 } := by
  let counted : Http := { n.http with httpStats.errors := n.http.httpStats.errors + 1 }
  have frees : httpErrCb n (some a) =
      { n with
        http := counted
        httpStates := remove n.httpStates a
        heap := Function.update n.heap a none } :=
    @discard_eq { n with http := counted } a live.allocated
  simp only [netStep, live.isOpen, frees]
  rfl

end

theorem recv_change {n : Net} {pcb : Pcb} {a : Addr} {st : HttpState} (live : n.Live pcb a st)
    {p : Option Bytes} {ok : Bool} {w : World} {next : Entropy} :
    NetChange n (.recv pcb p ok w next) (netStep n (.recv pcb p ok w next)) := by
  cases p with
  | none =>
      rw [netStep_null live]
      exact .released n.http live rfl
  | some data =>
      cases ok with
      | false =>
          rw [netStep_faulty live]
          exact .kept _
      | true =>
          rw [netStep_recv live]
          cases recv : httpRecvCb (w.counting n) st n.http data with
          | cut f => exact .reset live recv
          | done r => exact .served live recv

section
variable {n : Net} (sound : n.Sound)
include sound

theorem Net.Sound.live {pcb : Pcb} {arg : Option Addr} (isOpen : n.pcbs pcb = some arg) :
    ∃ a st, arg = some a ∧ n.Live pcb a st := by
  obtain ⟨a, st, rfl, state⟩ := sound.arg pcb arg isOpen
  exact ⟨a, st, rfl, isOpen, state⟩

/-- An open connection, or nothing is delivered. -/
theorem Net.Sound.delivered {ev : LwipEvent} {pcb : Pcb} (own : ev.pcb = some pcb)
    (later : ∀ newpcb ok malloc, ev ≠ .accept newpcb ok malloc) :
    (∃ a st, n.Live pcb a st) ∨ netStep n ev = n := by
  cases isOpen : n.pcbs pcb with
  | none => exact .inr (netStep_closed own isOpen later)
  | some arg =>
      obtain ⟨a, st, rfl, live⟩ := sound.live isOpen
      exact .inl ⟨a, st, live⟩

theorem netStep_change (ev : LwipEvent) : NetChange n ev (netStep n ev) := by
  cases ev with
  | accept newpcb ok malloc => exact accept_change
  | recv pcb p ok w next =>
      rcases @Net.Sound.delivered n sound (.recv pcb p ok w next) pcb rfl nofun with ⟨a, st, live⟩ | same
      · exact recv_change live
      · rw [same]
        exact .kept _
  | sent pcb =>
      rcases @Net.Sound.delivered n sound (.sent pcb) pcb rfl nofun with ⟨a, st, live⟩ | same
      · rw [netStep_sent live]
        cases st.sent with
        | false => exact .kept _
        | true => exact .released n.http live rfl
      · rw [same]
        exact .kept _
  | err pcb =>
      rcases @Net.Sound.delivered n sound (.err pcb) pcb rfl nofun with ⟨a, st, live⟩ | same
      · rw [netStep_err live]
        exact .released _ live rfl
      · rw [same]
        exact .kept _

end

theorem idle_sound (s : Http) : (Net.idle s).Sound := by
  refine ⟨?_, ?_, ?_, ?_, rfl⟩
  · intro i a there
    cases there
  · intro a isSome
    cases isSome
  · intro i j a there
    cases there
  · intro pcb arg isOpen
    cases isOpen

section
variable {n : Net} (sound : n.Sound)
include sound

/-- A state that is written to stays where it is. -/
theorem Net.Sound.touch {pcb : Pcb} {a : Addr} {st : HttpState} (live : n.Live pcb a st) (s : Http)
    (st' : HttpState) : { n with http := s, heap := Function.update n.heap a (some (pcb, st')) }.Sound := by
  have still : ∀ b, (Function.update n.heap a (some (pcb, st')) b).isSome = (n.heap b).isSome := by
    intro b
    by_cases same : b = a
    · rw [same, Function.update_self, live.state]
      rfl
    · rw [Function.update_of_ne same]
  constructor
  · intro i b slot
    rw [still]
    exact sound.allocated i b slot
  · intro b isSome
    rw [still] at isSome
    exact sound.registered b isSome
  · exact sound.once
  · intro p arg isOpen
    obtain ⟨b, st₁, rfl, state⟩ := sound.arg p arg isOpen
    dsimp only
    by_cases same : b = a
    · rw [same, live.state, Option.some.injEq, Prod.mk.injEq] at state
      refine ⟨b, st', rfl, ?_⟩
      rw [same, Function.update_self, state.1]
    · refine ⟨b, st₁, rfl, ?_⟩
      rw [Function.update_of_ne same]
      exact state
  · exact sound.proper

theorem Net.Sound.close (pcb : Pcb) : (tcpClose n pcb).Sound := by
  refine ⟨sound.allocated, sound.registered, sound.once, ?_, sound.proper⟩
  intro p arg isOpen
  unfold tcpClose at isOpen
  by_cases same : p = pcb
  · rw [same] at isOpen
    simp at isOpen
  · dsimp only at isOpen
    rw [Function.update_of_ne same] at isOpen
    exact sound.arg p arg isOpen

theorem Net.Sound.served {pcb : Pcb} {a : Addr} {st : HttpState} (live : n.Live pcb a st)
    (r : List TcpEvent × HttpState × Http) : (n.served pcb a r).Sound := by
  have touched := sound.touch live r.2.2 r.2.1
  unfold Net.served
  dsimp only
  split
  · exact touched.close pcb
  · exact touched

theorem Net.Sound.opened {pcb : Pcb} {a : Addr} {slot : Fin HTTP_MAX_CONN} (free : n.heap a = none)
    (empty : n.httpStates slot = none) : (n.opened pcb a slot).Sound := by
  have absent : ∀ j, n.httpStates j ≠ some a := by
    intro j there
    have isSome := sound.allocated j a there
    rw [free] at isSome
    cases isSome
  unfold Net.opened
  constructor
  · intro i b there
    dsimp only at there ⊢
    by_cases same : b = a
    · rw [same, Function.update_self]
      rfl
    · rw [Function.update_of_ne same]
      rw [put_eq] at there
      split at there
      · cases there
        exact absurd rfl same
      · exact sound.allocated i b there
  · intro b isSome
    dsimp only at isSome ⊢
    by_cases same : b = a
    · exact ⟨slot, by rw [put_eq, if_pos rfl, same]⟩
    · rw [Function.update_of_ne same] at isSome
      obtain ⟨i, there⟩ := sound.registered b isSome
      refine ⟨i, ?_⟩
      rw [put_eq, if_neg, there]
      rintro rfl
      rw [empty] at there
      cases there
  · exact sound.once.put absent slot
  · intro p arg isOpen
    dsimp only at isOpen ⊢
    by_cases same : p = pcb
    · rw [same, Function.update_self, Option.some.injEq] at isOpen
      exact ⟨a, .accepted, isOpen.symm, by rw [Function.update_self, same]⟩
    · rw [Function.update_of_ne same] at isOpen
      obtain ⟨b, st, rfl, state⟩ := sound.arg p arg isOpen
      refine ⟨b, st, rfl, ?_⟩
      rw [Function.update_of_ne, state]
      rintro rfl
      rw [free] at state
      cases state
  · exact sound.proper

theorem Net.Sound.released {pcb : Pcb} {a : Addr} {st : HttpState} (live : n.Live pcb a st) (s : Http) :
    (n.released pcb a s).Sound := by
  unfold Net.released
  constructor
  · intro i b there
    obtain ⟨there, other⟩ := (mem_remove sound.once).mp there
    dsimp only
    rw [Function.update_of_ne other]
    exact sound.allocated i b there
  · intro b isSome
    dsimp only at isSome ⊢
    by_cases same : b = a
    · rw [same, Function.update_self] at isSome
      cases isSome
    · rw [Function.update_of_ne same] at isSome
      obtain ⟨i, there⟩ := sound.registered b isSome
      exact ⟨i, (mem_remove sound.once).mpr ⟨there, same⟩⟩
  · exact sound.once.remove a
  · intro p arg isOpen
    dsimp only at isOpen ⊢
    by_cases same : p = pcb
    · rw [same, Function.update_self] at isOpen
      cases isOpen
    · rw [Function.update_of_ne same] at isOpen
      obtain ⟨b, st₁, rfl, state⟩ := sound.arg p arg isOpen
      refine ⟨b, st₁, rfl, ?_⟩
      rw [Function.update_of_ne, state]
      rintro rfl
      rw [live.state, Option.some.injEq, Prod.mk.injEq] at state
      exact same state.1.symm
  · exact sound.proper

theorem netStep_sound (ev : LwipEvent) : (netStep n ev).Sound := by
  have change := netStep_change sound ev
  generalize netStep n ev = after at change
  cases change with
  | kept => exact sound
  | opened closed free empty => exact sound.opened free empty
  | served live recv => exact sound.served live _
  | reset live recv => exact idle_sound _
  | released s live own => exact sound.released live s

end

theorem netRun_sound (s : Http) (events : List LwipEvent) : (netRun (.idle s) events).Sound :=
  Runs.run_invariant Net.Sound (idle_sound s) events fun _ ev _ sound => netStep_sound sound ev

/-- Every state belongs to the open connection it was made for. -/
def Net.Attended (n : Net) : Prop := ∀ a pcb st, n.heap a = some (pcb, st) → n.pcbs pcb = some (some a)

/-- What is to hold of the slots. -/
structure Net.SlotsKept (n : Net) : Prop where
  allocated : ∀ a, (n.heap a).isSome ↔ ∃! i, n.httpStates i = some a
  proper : n.misused = false
  connected : ∀ i a, n.httpStates i = some a → ∃ pcb st, n.heap a = some (pcb, st) ∧ n.pcbs pcb = some (some a)

/-- The segment is answered: it is too large, or it completes the request. -/
def Answered (st : HttpState) (data : Bytes) : Prop :=
  match httpReceive st data with
  | .tooLarge _ | .complete _ => True
  | _ => False

/-- A segment is to be answered and `tcp_write` does not take the answer. -/
def LwipEvent.Refused (n : Net) : LwipEvent → Prop
  | .recv pcb (some data) true w _ => ∃ a st, n.Live pcb a st ∧ Answered st data ∧ w.tcpWrites = false
  | _ => False

theorem httpSendResponse_closes {r : Response} (small : r.Small) (st : HttpState) (writes : Bool) :
    (httpSendResponse st r writes).2.any TcpEvent.isClose = !writes := by
  cases writes <;> simp [httpSendResponse, if_neg small.fits, TcpEvent.isClose]

/-- The server closes the connection of a segment exactly if it cannot write the answer. -/
theorem httpRecvCb_closes {w : World} {st : HttpState} {s : Http} {data : Bytes}
    {r : List TcpEvent × HttpState × Http} (done : httpRecvCb w st s data = .done r) :
    r.1.any TcpEvent.isClose = true ↔ Answered st data ∧ w.tcpWrites = false := by
  unfold httpRecvCb at done
  unfold Answered
  cases received : httpReceive st data with
  | ignored | waiting st₁ =>
      rw [received] at done
      cases done
      simp [TcpEvent.isClose]
  | tooLarge st₁ =>
      have small : (reply 413 "\x7b\"error\":\"Request too large\"\x7d").Small :=
        reply_small (by decide) (by decide +kernel)
      have closes := httpSendResponse_closes small st₁ w.tcpWrites
      simp only [received] at done
      generalize httpSendResponse st₁ _ w.tcpWrites = sent at closes done
      cases done
      simp [TcpEvent.isClose, closes]
  | complete st₁ =>
      rw [received] at done
      unfold httpProcessRequest at done
      cases route : httpRoute w st₁ s with
      | cut f =>
          simp only [route] at done
          cases done
      | done answer =>
          obtain ⟨r', st₂, s'⟩ := answer
          simp only [route] at done
          cases done
          have closes := httpSendResponse_closes (httpRoute_small route) st₂ w.tcpWrites
          simp [TcpEvent.isClose, closes]

section
variable {n : Net} (sound : n.Sound)
include sound

theorem Net.Sound.slotsKept_iff : n.SlotsKept ↔ n.Attended := by
  constructor
  · intro kept a pcb st state
    obtain ⟨i, there⟩ := sound.registered a (by rw [state]; rfl)
    obtain ⟨p, st₁, state', isOpen⟩ := kept.connected i a there
    rw [state, Option.some.injEq, Prod.mk.injEq] at state'
    rw [state'.1]
    exact isOpen
  · intro attended
    refine ⟨?_, sound.proper, ?_⟩
    · intro a
      constructor
      · intro isSome
        obtain ⟨i, there⟩ := sound.registered a isSome
        exact ⟨i, there, fun j other => sound.once j i a other there⟩
      · rintro ⟨i, there, -⟩
        exact sound.allocated i a there
    · intro i a there
      obtain ⟨⟨pcb, st⟩, state⟩ := Option.isSome_iff_exists.mp (sound.allocated i a there)
      exact ⟨pcb, st, state, attended a pcb st state⟩

end

/-- No other state was made for an open connection. -/
theorem Net.Live.only {n : Net} {pcb : Pcb} {a b : Addr} {st st' : HttpState} (live : n.Live pcb a st)
    (attended : n.Attended) (state : n.heap b = some (pcb, st')) : b = a := by
  have isOpen := attended b pcb st' state
  rw [live.isOpen, Option.some.injEq, Option.some.injEq] at isOpen
  exact isOpen.symm

theorem Net.Attended.served {n : Net} {pcb : Pcb} {a : Addr} {st : HttpState} (attended : n.Attended)
    (live : n.Live pcb a st) (r : List TcpEvent × HttpState × Http) :
    (n.served pcb a r).Attended ↔ ¬ r.1.any TcpEvent.isClose = true := by
  unfold Net.served
  dsimp only
  by_cases closes : r.1.any TcpEvent.isClose = true
  · rw [if_pos closes]
    refine iff_of_false ?_ (not_not.mpr closes)
    intro after
    have isOpen := after a pcb r.2.1 (Function.update_self ..)
    unfold tcpClose at isOpen
    simp at isOpen
  · rw [if_neg closes]
    refine iff_of_true ?_ closes
    intro b p st₁ state
    dsimp only at state ⊢
    by_cases same : b = a
    · rw [same, Function.update_self, Option.some.injEq, Prod.mk.injEq] at state
      rw [same, ← state.1]
      exact live.isOpen
    · rw [Function.update_of_ne same] at state
      exact attended b p st₁ state

theorem Net.Attended.opened {n : Net} {pcb : Pcb} {a : Addr} {slot : Fin HTTP_MAX_CONN} (attended : n.Attended)
    (closed : n.pcbs pcb = none) : (n.opened pcb a slot).Attended := by
  intro b p st state
  unfold Net.opened at state ⊢
  dsimp only at state ⊢
  by_cases same : b = a
  · rw [same, Function.update_self, Option.some.injEq, Prod.mk.injEq] at state
    rw [same, ← state.1, Function.update_self]
  · rw [Function.update_of_ne same] at state
    have isOpen := attended b p st state
    rw [Function.update_of_ne, isOpen]
    rintro rfl
    rw [closed] at isOpen
    cases isOpen

theorem Net.Attended.released {n : Net} {pcb : Pcb} {a : Addr} {st : HttpState} (attended : n.Attended)
    (live : n.Live pcb a st) (s : Http) : (n.released pcb a s).Attended := by
  intro b p st₁ state
  unfold Net.released at state ⊢
  dsimp only at state ⊢
  by_cases same : b = a
  · rw [same, Function.update_self] at state
    cases state
  · rw [Function.update_of_ne same] at state
    rw [Function.update_of_ne, attended b p st₁ state]
    rintro rfl
    exact same (live.only attended state)

theorem idle_attended (s : Http) : (Net.idle s).Attended := by
  intro a pcb st state
  cases state

/-- A step that can write its answer keeps every slot attended. -/
theorem netStep_attended {n : Net} (sound : n.Sound) (attended : n.Attended) {ev : LwipEvent}
    (taken : ¬ ev.Refused n) : (netStep n ev).Attended := by
  have change := netStep_change sound ev
  generalize netStep n ev = after at change
  cases change with
  | kept => exact attended
  | opened closed free empty => exact attended.opened closed
  | served live recv =>
      rw [attended.served live]
      intro closes
      obtain ⟨answered, unwritten⟩ := (httpRecvCb_closes recv).mp closes
      exact taken ⟨_, _, live, answered, unwritten⟩
  | reset live recv => exact idle_attended _
  | released s live own => exact attended.released live s

/-- The power does not fail while the callback runs. -/
def LwipEvent.Powered : LwipEvent → Prop
  | .recv _ _ _ w _ => w.flash.Whole
  | _ => True

/-- One that cannot leaves a slot to a connection that is closed. -/
theorem netStep_refused {n : Net} (attended : n.Attended) {ev : LwipEvent} (powered : ev.Powered)
    (refused : ev.Refused n) : ¬ (netStep n ev).Attended := by
  cases ev with
  | accept newpcb ok malloc => cases refused
  | sent pcb => cases refused
  | err pcb => cases refused
  | recv pcb p ok w next =>
      cases p with
      | none => cases refused
      | some data =>
          cases ok with
          | false => cases refused
          | true =>
              obtain ⟨a, st, live, answered, unwritten⟩ := refused
              rw [netStep_recv live]
              cases recv : httpRecvCb (w.counting n) st n.http data with
              | cut f => exact absurd recv (httpRecvCb_whole powered)
              | done r =>
                  dsimp only
                  rw [attended.served live, not_not]
                  exact (httpRecvCb_closes recv).mpr ⟨answered, unwritten⟩

/-- A slot with the state of a connection that is no longer open. -/
structure Net.Lost (n : Net) (i : Fin HTTP_MAX_CONN) (a : Addr) : Prop where
  slot : n.httpStates i = some a
  closed : ∀ pcb, n.pcbs pcb ≠ some (some a)

/-- Only a reset gives it back. -/
theorem netStep_lost {n : Net} (sound : n.Sound) {i : Fin HTTP_MAX_CONN} {a : Addr} (lost : n.Lost i a)
    {ev : LwipEvent} (powered : ev.Powered) : (netStep n ev).Lost i a := by
  have change := netStep_change sound ev
  generalize netStep n ev = after at change
  cases change with
  | kept => exact lost
  | @opened pcb b slot closed free empty =>
      have other : a ≠ b := by
        rintro rfl
        have isSome := sound.allocated i a lost.slot
        rw [free] at isSome
        cases isSome
      have elsewhere : i ≠ slot := by
        rintro rfl
        have there := lost.slot
        rw [empty] at there
        cases there
      unfold Net.opened
      constructor
      · dsimp only
        rw [put_eq, if_neg elsewhere, lost.slot]
      intro p isOpen
      dsimp only at isOpen
      by_cases same : p = pcb
      · rw [same, Function.update_self, Option.some.injEq, Option.some.injEq] at isOpen
        exact other isOpen.symm
      · rw [Function.update_of_ne same] at isOpen
        exact lost.closed p isOpen
  | @served pcb b st data w next r live recv =>
      unfold Net.served
      dsimp only
      split
      · refine ⟨lost.slot, ?_⟩
        intro p isOpen
        unfold tcpClose at isOpen
        dsimp only at isOpen
        by_cases same : p = pcb
        · rw [same, Function.update_self] at isOpen
          cases isOpen
        · rw [Function.update_of_ne same] at isOpen
          exact lost.closed p isOpen
      · exact ⟨lost.slot, lost.closed⟩
  | reset live recv => exact absurd recv (httpRecvCb_whole powered)
  | @released _ pcb b st s live own =>
      have other : a ≠ b := by
        rintro rfl
        exact lost.closed pcb live.isOpen
      unfold Net.released
      refine ⟨(mem_remove sound.once).mpr ⟨lost.slot, other⟩, ?_⟩
      intro p isOpen
      dsimp only at isOpen
      by_cases same : p = pcb
      · rw [same, Function.update_self] at isOpen
        cases isOpen
      · rw [Function.update_of_ne same] at isOpen
        exact lost.closed p isOpen

/-- Whatever is called, a lost slot stays lost. -/
theorem netRun_lost {n : Net} (sound : n.Sound) {i : Fin HTTP_MAX_CONN} {a : Addr} (lost : n.Lost i a)
    {events : List LwipEvent} (powered : ∀ ev ∈ events, ev.Powered) : (netRun n events).Lost i a := by
  have both := Runs.run_invariant (fun n : Net => n.Sound ∧ n.Lost i a) ⟨sound, lost⟩ events
    fun n ev member inv => ⟨netStep_sound inv.1 ev, netStep_lost inv.1 inv.2 (powered ev member)⟩
  exact both.2

/-- For every order of callbacks: a state is allocated exactly while it is in one slot, and
    none is freed twice. If `tcp_write` takes every answer, every slot moreover belongs to
    an open connection, in every state of the run; and while the power stays on, only then, and
    a slot that is lost stays lost. -/
theorem slots_kept (s : Http) (events : List LwipEvent) :
    ((∀ a, ((netRun (.idle s) events).heap a).isSome ↔ ∃! i, (netRun (.idle s) events).httpStates i = some a) ∧
      (netRun (.idle s) events).misused = false) ∧
    (Runs.Along netStep (fun n ev => ¬ ev.Refused n) (.idle s) events →
      ∀ before, before <+: events → (netRun (.idle s) before).SlotsKept) ∧
    ((∀ ev ∈ events, ev.Powered) → (∀ before, before <+: events → (netRun (.idle s) before).SlotsKept) →
      Runs.Along netStep (fun n ev => ¬ ev.Refused n) (.idle s) events) ∧
    ((∀ ev ∈ events, ev.Powered) → ∀ before, before <+: events → ∀ i a,
      (netRun (.idle s) before).Lost i a → (netRun (.idle s) events).Lost i a) := by
  have sound := netRun_sound s events
  have kept : ∀ {before}, (netRun (.idle s) before).SlotsKept ↔ (netRun (.idle s) before).Attended :=
    fun {before} => (netRun_sound s before).slotsKept_iff
  refine ⟨⟨fun a => ?_, sound.proper⟩, ?_, ?_, ?_⟩
  · constructor
    · intro isSome
      obtain ⟨i, there⟩ := sound.registered a isSome
      exact ⟨i, there, fun j other => sound.once j i a other there⟩
    · rintro ⟨i, there, -⟩
      exact sound.allocated i a there
  · rintro along before ⟨rest, rfl⟩
    have inv := along.left.invariant (fun n : Net => n.Sound ∧ n.Attended) ⟨idle_sound s, idle_attended s⟩
      fun n ev _ inv taken => ⟨netStep_sound inv.1 ev, netStep_attended inv.1 inv.2 taken⟩
    exact kept.mpr inv.2
  · intro powered all
    have along := @Runs.along_iff _ _ netStep (fun n ev => ¬ LwipEvent.Refused n ev)
      (fun n : Net => n.Sound ∧ n.Attended) _ ⟨idle_sound s, idle_attended s⟩ events
      fun n ev member inv => by
        constructor
        · intro after refused
          exact netStep_refused inv.2 (powered ev member) refused after.2
        · intro taken
          exact ⟨netStep_sound inv.1 ev, netStep_attended inv.1 inv.2 taken⟩
    exact along.mpr fun before isPrefix => ⟨netRun_sound s before, kept.mp (all before isPrefix)⟩
  · rintro powered before ⟨rest, rfl⟩ i a lost
    rw [netRun, Runs.run_append]
    exact netRun_lost (netRun_sound s before) lost fun ev member => powered ev (List.mem_append_right before member)

def healthRequest : Bytes := ascii "GET /health HTTP/1.1\r\n\r\n"

theorem healthRequest_receive :
    httpReceive .accepted healthRequest = .complete (.received healthRequest 0) := by
  have blank : strstr healthRequest (ascii "\r\n\r\n") = some (ascii "\r\n\r\n" ++ []) := by decide +kernel
  have length : contentLengthOf healthRequest = 0 := by decide +kernel
  have receive := httpReceive_whole (by decide +kernel) (by decide +kernel) blank (by decide +kernel)
  rwa [length] at receive

/-- lwIP has no room for the answer. -/
def refusedSegment : LwipEvent :=
  .recv 0 (some healthRequest) true { benchWorld ⟨.ok, .ok⟩ with tcpWrites := false } silent

def refusedRun : List LwipEvent := [.accept (some 0) true (some 0), refusedSegment]

def firstSlot : Fin HTTP_MAX_CONN := ⟨0, by decide⟩

theorem accept_first (s : Http) :
    netStep (.idle s) (.accept (some 0) true (some 0)) = (Net.idle s).opened 0 0 firstSlot :=
  netStep_accept rfl rfl rfl

theorem slots_kept_refused : ¬ ∀ s events, (netRun (.idle s) events).SlotsKept := by
  intro all
  have kept := all (.boot (fun _ => 0xFF) silent) refusedRun
  generalize Http.boot (fun _ => 0xFF) silent = s at kept
  have sound : ((Net.idle s).opened 0 0 firstSlot).Sound := (idle_sound s).opened rfl rfl
  have attended : ((Net.idle s).opened 0 0 firstSlot).Attended := (idle_attended s).opened rfl
  have live : ((Net.idle s).opened 0 0 firstSlot).Live 0 0 .accepted := ⟨rfl, rfl⟩
  have answered : Answered .accepted healthRequest := by
    rw [Answered, healthRequest_receive]
    trivial
  rw [refusedRun, netRun, Runs.run_cons, accept_first, Runs.run_cons, Runs.run_nil] at kept
  have after := ((netStep_sound sound _).slotsKept_iff).mp kept
  have refused : refusedSegment.Refused ((Net.idle s).opened 0 0 firstSlot) :=
    ⟨0, .accepted, live, answered, rfl⟩
  have powered : refusedSegment.Powered := ⟨nofun, nofun⟩
  exact netStep_refused attended powered refused after

end Roman
