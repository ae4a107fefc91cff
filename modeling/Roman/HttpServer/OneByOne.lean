import Roman.HttpServer.Calls
import Roman.HttpServer.Serial

/-! # The connections do not interfere

A run of the server, however its callbacks interleave, against the same callbacks
connection by connection.
-/

namespace Roman

open CMem CStr NorFlash Pool Sessions

/-- The two runs have the same turns. -/
structure Serialised (s : Http) (events : List LwipEvent) (served : List Pcb) : Prop where
  tracks : Tracks served (.idle s) fresh s (events ++ [])
  admitted : Runs.Along netStep (Admits served) (.idle s) events
  serial : Tracks served (.idle s) fresh s (oneByOne (.idle s) events ++ [])
  serialAdmitted : Runs.Along netStep (Admits served) (.idle s) (oneByOne (.idle s) events)
  same : turns served fresh (oneByOne (.idle s) events) = turns served fresh events

theorem serialised {s : Http} {events : List LwipEvent} (named : Named events)
    (powered : ∀ ev ∈ events, ev.Powered) : Serialised s events (opened (.idle s) events) := by
  have admitted := @idle_admitted s events named
  have once : (opened (.idle s) events).Nodup := by
    rw [List.nodup_iff_count_le_one]
    exact fun pcb => (opened_count (idle_sound s) events pcb).trans (named pcb)
  generalize served' : opened (.idle s) events = served at admitted once ⊢
  have tracks : Tracks served (.idle s) fresh s events := by
    refine fresh_tracks s powered fun pcb => ?_
    rw [actionsOf_keyOf]
    split
    · exact named pcb
    · exact Nat.zero_le 1
  have inside : ∀ pcb ∈ serviceOrder (.idle s) events, pcb ∈ served := by
    intro pcb member
    rw [serviceOrder_eq tracks admitted, List.mem_append] at member
    rcases member with turned | waits
    · obtain ⟨ev, -, key⟩ := key_of_commits turned
      exact (keyOf_some key).2
    · rw [← served']
      exact (List.mem_filter.mp waits).1
  have order : oneByOne (.idle s) events = serially (keyOf served) (serviceOrder (.idle s) events) events :=
    List.flatMap_congr fun pcb member => by rw [actionsOf_keyOf, if_pos (inside pcb member)]
  have nodup := serviceOrder_nodup tracks admitted (by rw [served']; exact once)
  have serial : Tracks served (.idle s) fresh s (oneByOne (.idle s) events) := by
    refine fresh_tracks s (fun ev member => powered ev (mem_serially member)) fun pcb => ?_
    rw [order, actionsOf_serially nodup]
    split
    · exact tracks.accepts pcb
    · exact Nat.zero_le 1
  have along := serially_admitted tracks admitted nodup (serviceOrder_ready tracks admitted) (order ▸ serial)
  refine ⟨?_, admitted, ?_, ?_, ?_⟩
  · rwa [List.append_nil]
  · rwa [List.append_nil]
  · rwa [order]
  · rw [serviceOrder_eq tracks admitted] at nodup order
    rw [order]
    exact commits_serial nodup

/-- However the callbacks of the connections interleave while the board runs, the server
    comes to the same keystore, with its flash, its cache and its generator, as when it
    serves the connections one after another, in the order of their requests; and what it
    writes on a connection is the same unless that asks for a snapshot. On an empty board
    the first POST /write that names a record while flash works is answered 200, none before
    it is, and all after it are answered 403 if nothing erases the board. -/
theorem connections_serial {s : Http} {events : List LwipEvent} (named : Named events)
    (powered : ∀ ev ∈ events, ev.Powered) :
    SameButCounts (netRun (.idle s) (oneByOne (.idle s) events)).http (netRun (.idle s) events).http ∧
    (calls (.idle s) (oneByOne (.idle s) events)).map Call.pcb = (calls (.idle s) events).map Call.pcb ∧
    ((calls (.idle s) events).map Call.pcb).Sublist (serviceOrder (.idle s) events) ∧
    (∀ pcb, (∀ c ∈ calls (.idle s) events, c.pcb = pcb → ¬ c.Snapshots) →
      repliesOn pcb (.idle s) (oneByOne (.idle s) events) = repliesOn pcb (.idle s) events) ∧
    (storageWriten s.flash = false → ∀ before c after, calls (.idle s) events = before ++ c :: after →
      c.Provisions → (∀ b ∈ before, ¬ b.Provisions) → (∀ d ∈ after, ¬ d.event.Erased d.http) →
      c.event.Answers 200 c.http ∧ (∀ b ∈ before, ¬ b.event.Answers 200 b.http) ∧
        ∀ d ∈ after, d.event.Posts (ascii "/write") → d.event.Answers 403 d.http) := by
  obtain ⟨tracks, admitted, serial, serialAdmitted, same⟩ := @serialised s events named powered
  generalize opened (.idle s) events = served at *
  have here := (tracks.run admitted).http
  have there := (serial.run serialAdmitted).http
  have order := tracks.calls_eq admitted
  rw [same] at there
  refine ⟨there.symm.trans here, ?_, ?_, ?_, ?_⟩
  · rw [serial.calls_eq serialAdmitted, same, order]
  · unfold serviceOrder
    rw [order, tracks.stopped_eq admitted]
    exact ((List.filter_sublist).map _).trans (List.sublist_append_left ..)
  · intro pcb other
    have none := tracks.no_snapshots admitted other
    rw [tracks.repliesOn_eq admitted none, serial.repliesOn_eq serialAdmitted (by rwa [same]), same]
  · intro unset before c after split provisions first kept
    have chained := tracks.chained admitted rfl
    rw [split] at chained
    exact chained_first chained unset kept provisions first

theorem command_counting (w : World) (n : Net) (st : HttpState) (data : Bytes) (next : Entropy) :
    (BoardEvent.recv (w.counting n) st data next).command = (BoardEvent.recv w st data next).command := by
  unfold BoardEvent.command BoardEvent.dispatched
  dsimp only
  cases httpReceive st data with
  | ignored | tooLarge st' | waiting st' | complete st' => rfl

def writeOn (pcb : Pcb) : LwipEvent := .recv pcb (some sampleWrite) true (benchWorld ⟨.ok, .ok⟩) silent

theorem writeOn_powered (pcb : Pcb) : (writeOn pcb).Powered := ⟨by simp [benchWorld], by simp [benchWorld]⟩

/-- The second connection is the first to write. -/
def crossedWrites : List LwipEvent :=
  [.accept (some 0) true (some 0), .accept (some 1) true (some 1), writeOn 1, writeOn 0]

def secondSlot : Fin HTTP_MAX_CONN := ⟨1, by decide⟩

def writeCall (n : Net) (pcb : Pcb) : Call :=
  ⟨pcb, n.http, .recv ((benchWorld ⟨.ok, .ok⟩).counting n) .accepted sampleWrite silent⟩

theorem writeCall_dispatched (n : Net) (pcb : Pcb) : (writeCall n pcb).event.dispatched =
    some ((benchWorld ⟨.ok, .ok⟩).counting n, .received sampleWrite 126) := by
  unfold writeCall BoardEvent.dispatched
  simp only [sampleWrite_receive]

theorem writeOn_call {n : Net} {pcb : Pcb} {a : Addr} (live : n.Live pcb a .accepted) :
    n.call (writeOn pcb) = some (writeCall n pcb) := by
  have dispatched := writeCall_dispatched n pcb
  unfold writeCall at dispatched
  simp only [writeOn, Net.call, live.connection, dispatched, Option.isSome_some, if_true]
  rfl

theorem writeCall_command (n : Net) (pcb : Pcb) : (writeCall n pcb).event.command =
    .provision (base64Encode samplePk) (base64Encode sampleSeed) sampleId := by
  rw [writeCall, command_counting]
  exact writeEvent_command ⟨.ok, .ok⟩

theorem writeCall_provisions (n : Net) (pcb : Pcb) : (writeCall n pcb).Provisions :=
  ⟨rfl, _, _, _, _, writeCall_command n pcb, sample_names⟩

theorem writeCall_posts (n : Net) (pcb : Pcb) : (writeCall n pcb).event.Posts (ascii "/write") :=
  ⟨_, _, writeCall_dispatched n pcb, by rw [sampleWrite_cstr, sampleWrite_line]⟩

theorem crossedWrites_calls (s : Http) : ∃ n m, calls (.idle s) crossedWrites = [writeCall n 1, writeCall m 0] := by
  let one := (Net.idle s).opened 0 0 firstSlot
  let two := one.opened 1 1 secondSlot
  have accepted : netStep one (.accept (some 1) true (some 1)) = two := netStep_accept rfl rfl rfl
  have sound : two.Sound := ((idle_sound s).opened rfl rfl).opened rfl rfl
  have first : two.Live 0 0 .accepted := ⟨rfl, rfl⟩
  have second : two.Live 1 1 .accepted := ⟨rfl, rfl⟩
  have other : (writeOn 1).pcb ≠ some 0 := by
    unfold writeOn LwipEvent.pcb
    simp
  have elsewhere := netStep_elsewhere sound other (writeOn_powered 1)
  have still : (netStep two (writeOn 1)).Live 0 0 .accepted :=
    ⟨elsewhere.pcbs.trans first.isOpen, (elsewhere.heap 0 .accepted).mpr first.state⟩
  refine ⟨two, netStep two (writeOn 1), ?_⟩
  unfold calls crossedWrites
  rw [Runs.trace_cons, accept_first, Runs.trace_cons, accepted, Runs.trace_cons, writeOn_call second, Runs.trace_cons,
    writeOn_call still]
  rfl

theorem writeCall_keeps (n : Net) (pcb : Pcb) : ¬ (writeCall n pcb).event.Erased (writeCall n pcb).http := by
  intro erased
  cases erased with
  | clear clear ok =>
      rw [writeCall_command] at clear
      cases clear
  | debug wipe ok =>
      rw [writeCall_command] at wipe
      cases wipe

theorem connections_serial_crossed :
    (netRun (.idle blankBoard) (oneByOne (.idle blankBoard) crossedWrites)).http.keystore =
        (netRun (.idle blankBoard) crossedWrites).http.keystore ∧
      ∃ n m, calls (.idle blankBoard) crossedWrites = [writeCall n 1, writeCall m 0] ∧
        (writeCall n 1).event.Answers 200 n.http ∧ (writeCall m 0).event.Answers 403 m.http := by
  have named : Named crossedWrites := by
    intro pcb
    unfold actionsOf crossedWrites
    rw [List.countP_filter]
    simp only [List.countP_cons, List.countP_nil, writeOn, LwipEvent.isAccept, LwipEvent.pcb, Bool.true_and,
      Bool.false_and, Bool.false_eq_true, if_false, decide_eq_true_eq, Option.some.injEq]
    by_cases zero : 0 = pcb
    · have other : ¬ 1 = pcb := fun one => Nat.zero_ne_one (zero.trans one.symm)
      rw [if_pos zero, if_neg other]
    · rw [if_neg zero]
      split <;> omega
  have powered : ∀ ev ∈ crossedWrites, ev.Powered := by
    intro ev member
    simp only [crossedWrites, List.mem_cons, List.not_mem_nil, or_false] at member
    rcases member with rfl | rfl | rfl | rfl
    · trivial
    · trivial
    · exact writeOn_powered 1
    · exact writeOn_powered 0
  have serial := @connections_serial blankBoard crossedWrites named powered
  obtain ⟨n, m, found⟩ := crossedWrites_calls blankBoard
  have kept : ∀ d ∈ [writeCall m 0], ¬ d.event.Erased d.http := by
    intro d member
    rw [List.mem_singleton.mp member]
    exact writeCall_keeps m 0
  obtain ⟨accepted, -, refused⟩ := serial.2.2.2.2 blankBoard_unset [] (writeCall n 1) [writeCall m 0] found
    (writeCall_provisions n 1) (List.forall_mem_nil _) kept
  exact ⟨serial.1.keystore, n, m, found, accepted,
    refused (writeCall m 0) (List.mem_singleton_self _) (writeCall_posts m 0)⟩

end Roman
