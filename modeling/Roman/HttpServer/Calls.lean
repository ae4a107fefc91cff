import Roman.HttpServer.Enrolment
import Roman.HttpServer.Interleaving
import Roman.OneShot

/-! # The calls of a run

Nothing but the calls of `http_process_request` changes the keystore, so they see one
board, call after call, however the callbacks around them come. Of POST /write requests
the first that can be carried out is, and the later ones are refused.
-/

namespace Roman

open CMem CStr NorFlash Pool Sessions

/-- Each call finds the keystore that the one before it has left. -/
def Chained : Http → List Call → Prop
  | _, [] => True
  | s, c :: cs => c.http.keystore = s.keystore ∧ c.event.Whole ∧ Chained (boardStep c.http c.event) cs

/-- The request names a record, and flash works. -/
def Call.Provisions (c : Call) : Prop :=
  c.event.env = ⟨.ok, .ok⟩ ∧ ∃ pkB64 skB64 deviceId r,
    c.event.command = .provision pkB64 skB64 deviceId ∧ Names pkB64 skB64 deviceId r

/-- A callback with a call is a segment to the board. -/
theorem netStep_call {n : Net} (sound : n.Sound) {ev : LwipEvent} (powered : ev.Powered) {c : Call}
    (called : n.call ev = some c) :
    c.http = n.http ∧ (netStep n ev).http = boardStep n.http c.event ∧ c.event.Whole := by
  cases ev with
  | accept newpcb ok malloc | sent pcb | err pcb => cases called
  | recv pcb data ok w next =>
      cases data with
      | none => cases called
      | some data =>
          cases ok with
          | false => cases called
          | true =>
              cases isOpen : n.pcbs pcb with
              | none =>
                  simp only [Net.call, connection_closed isOpen] at called
                  cases called
              | some arg =>
                  obtain ⟨a, st, rfl, live⟩ := sound.live isOpen
                  have step := netStep_recv live data w next
                  simp only [Net.call, live.connection] at called
                  split at called
                  · cases called
                    refine ⟨rfl, ?_, powered.erase, powered.program⟩
                    rw [step]
                    simp only [boardStep]
                    cases httpRecvCb (w.counting n) st n.http data with
                    | done r => exact served_http n pcb a r
                    | cut f => rfl
                  · cases called

section
variable {served : List Pcb} {n : Net} {ls : Pcb → Progress} {s : Http}

/-- One without leaves the keystore as it is. -/
theorem Tracks.no_call {ev : LwipEvent} {events : List LwipEvent} (tracks : Tracks served n ls s (ev :: events))
    (admits : Admits served n ev) (silent : n.call ev = none) : (netStep n ev).http.keystore = n.http.keystore := by
  cases key : keyOf served ev with
  | none =>
      rw [(admits.still key).1]
  | some pcb =>
      have moves := tracks.moves admits key
      have after := moves.http n.http (.refl n.http)
      have calls := moves.calls
      cases turned : (ls pcb).turn ev with
      | none =>
          rw [turned] at after
          exact after.keystore.symm
      | some t =>
          rw [turned] at after calls
          cases t with
          | tooLarge w st | closed => exact after.keystore.symm
          | request w st =>
              obtain ⟨event, called, -⟩ := calls
              rw [silent] at called
              cases called

theorem Tracks.chained {events rest : List LwipEvent} (tracks : Tracks served n ls s (events ++ rest))
    (admitted : Runs.Along netStep (Admits served) n events) {s' : Http} (same : n.http.keystore = s'.keystore) :
    Chained s' (calls n events) := by
  induction events generalizing n ls s s' with
  | nil => trivial
  | cons ev events ih =>
      have after := tracks.step admitted.1
      have later := fun {s'} => @ih _ _ _ after admitted.2 s'
      unfold calls at later ⊢
      rw [Runs.trace_cons]
      cases called : n.call ev with
      | none => exact later ((tracks.no_call admitted.1 called).trans same)
      | some c =>
          obtain ⟨here, step, whole⟩ := netStep_call tracks.sound (tracks.powered ev (List.mem_cons_self ..)) called
          refine ⟨by rw [here, same], whole, later ?_⟩
          rw [step, here]

end

theorem Call.Provisions.answers {c : Call} (provisions : c.Provisions) (unset : storageWriten c.http.flash = false) :
    c.event.Answers 200 c.http := by
  obtain ⟨works, pkB64, skB64, deviceId, r, command, names⟩ := provisions
  obtain ⟨w, st, dispatched, route, writes⟩ := BoardEvent.dispatched_write command
  obtain ⟨k, provision⟩ := keystoreProvision_accepts unset names
  have yields := BoardEvent.yields_write dispatched c.http route
  rw [← BoardEvent.dispatched_env dispatched, works, writeReply_of_command unset writes, provision] at yields
  exact ⟨⟨w, st, dispatched, routeOf_write route⟩, _, yields.1, acceptedReply_status _⟩

theorem provisions_of_answers {c : Call} (accepted : c.event.Answers 200 c.http) : c.Provisions := by
  obtain ⟨⟨w, st, dispatched, line⟩, r, response, ok⟩ := accepted
  have route : st.route w = .write := by
    rw [HttpState.route, line]
    rfl
  obtain ⟨k, done, -⟩ := (BoardEvent.yields_write dispatched c.http route).status response
  obtain ⟨pkB64, skB64, deviceId, command, provision⟩ := writeReply_provision done ok
  obtain ⟨record, names, -, works, -⟩ := keystoreProvision_ok provision
  refine ⟨(BoardEvent.dispatched_env dispatched).trans works, pkB64, skB64, deviceId, record, ?_, names⟩
  rw [BoardEvent.command, dispatched]
  dsimp only
  rw [HttpState.command, route]
  exact command

/-- An empty board stays empty until a request provisions it. -/
theorem boardStep_unset {c : Call} (unset : storageWriten c.http.flash = false) (whole : c.event.Whole)
    (other : ¬ c.Provisions) : storageWriten (boardStep c.http c.event).flash = false := by
  have settled : Settled c.http.keystore := .of_unset unset
  have erased : storageWriten (NorFlash.erase FLASH_SECTOR_SIZE c.http.flash) = false := storageWriten_blank (blank_erase _)
  cases boardStep_change settled c.event with
  | moved change quiet =>
      have after : (boardStep c.http c.event).flash = _ := quiet.flash
      rw [after]
      cases change with
      | kept flash coherent_iff refused =>
          rw [flash]
          exact unset
      | stranded writes erase program flash cache =>
          rw [flash]
          exact erased
      | erased erases erase flash invalid =>
          rw [flash]
          exact erased
      | written writes erase program flash invalid =>
          generalize command : c.event.command = asked at writes
          cases writes with
          | provision unset names =>
              refine absurd ⟨?_, _, _, _, _, command, names⟩ other
              generalize c.event.env = env at erase program
              obtain ⟨e, p⟩ := env
              rw [show e = .ok from erase, show p = .ok from program]
  | lostPower cut boots =>
      cases cut with
      | inErase reached erase flash => exact absurd erase (whole.erase reached)
      | inProgram n writes erase program flash => exact absurd program (whole.program n)
  | rebooted reads boots =>
      rw [boots, (boot_quiet _ _).1]
      exact unset

/-- On a provisioned board every POST /write is refused, as long as nothing erases. -/
theorem chained_locked {s : Http} {cs : List Call} (chained : Chained s cs) (settled : Settled s.keystore)
    (set : storageWriten s.flash = true) (kept : ∀ c ∈ cs, ¬ c.event.Erased c.http) :
    ∀ c ∈ cs, c.event.Posts (ascii "/write") → c.event.Answers 403 c.http := by
  induction cs generalizing s with
  | nil => exact fun c member => absurd member List.not_mem_nil
  | cons c cs ih =>
      obtain ⟨same, whole, later⟩ := chained
      have there : Settled c.http.keystore := by rwa [same]
      have marked : storageWriten c.http.flash = true := by
        rw [Http.flash, same]
        exact set
      have after : storageWriten (boardStep c.http c.event).flash = true := by
        rcases boardStep_locked there marked whole with flash | ⟨erases, ok⟩
        · rw [flash, marked]
        · exact absurd (erases_erased there erases ok) (kept c (List.mem_cons_self ..))
      intro d member
      rcases List.mem_cons.mp member with rfl | inside
      · exact answers_of_set marked
      · exact ih later (boardStep_settled there c.event) after
          (fun d member => kept d (List.mem_cons_of_mem c member)) d inside

/-- The first request that names a record while flash works is carried out, and no other. -/
theorem chained_first {s : Http} {before after : List Call} {c : Call} (chained : Chained s (before ++ c :: after))
    (unset : storageWriten s.flash = false) (kept : ∀ c ∈ after, ¬ c.event.Erased c.http)
    (provisions : c.Provisions) (none : ∀ b ∈ before, ¬ b.Provisions) :
    c.event.Answers 200 c.http ∧ (∀ b ∈ before, ¬ b.event.Answers 200 b.http) ∧
      ∀ d ∈ after, d.event.Posts (ascii "/write") → d.event.Answers 403 d.http := by
  induction before generalizing s with
  | nil =>
      obtain ⟨same, whole, later⟩ := chained
      have empty : storageWriten c.http.flash = false := by
        rw [Http.flash, same]
        exact unset
      have accepted := provisions.answers empty
      have settled : Settled c.http.keystore := .of_unset empty
      refine ⟨accepted, fun b member => absurd member List.not_mem_nil, ?_⟩
      exact chained_locked later (boardStep_settled settled c.event) (set_of_answers accepted) kept
  | cons b before ih =>
      obtain ⟨same, whole, later⟩ := chained
      have empty : storageWriten b.http.flash = false := by
        rw [Http.flash, same]
        exact unset
      have other := none b (List.mem_cons_self ..)
      obtain ⟨accepted, refused, locked⟩ := ih later (boardStep_unset empty whole other)
        fun b member => none b (List.mem_cons_of_mem _ member)
      refine ⟨accepted, ?_, locked⟩
      intro d member
      rcases List.mem_cons.mp member with rfl | inside
      · exact fun answers => other (provisions_of_answers answers)
      · exact refused d inside

end Roman
