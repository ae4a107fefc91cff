import Roman.HttpServer.Progress

/-! # Interleaved callbacks

The callbacks of the connections come in any order, and the server takes their requests as
they get complete. What it does is the work of the turns, in the order in which the
connections stop receiving, and what each connection is up to is where its own callbacks
lead.
-/

namespace Roman

open CMem CStr NorFlash Pool Sessions

/-- The connection that the callback opens. -/
def Net.opens (n : Net) (ev : LwipEvent) : Option Pcb :=
  ev.pcb.filter fun pcb => (n.pcbs pcb).isNone && ((netStep n ev).pcbs pcb).isSome

/-- The connection is open and not answered. -/
def Net.receives (n : Net) (pcb : Pcb) : Bool := (n.connection pcb).any fun st => !st.done

/-- The connection that stops receiving in the callback. -/
def Net.stops (n : Net) (ev : LwipEvent) : Option Pcb :=
  ev.pcb.filter fun pcb => n.receives pcb && !(netStep n ev).receives pcb

abbrev opened (n : Net) (events : List LwipEvent) : List Pcb := Runs.trace netStep Net.opens n events

abbrev stopped (n : Net) (events : List LwipEvent) : List Pcb := Runs.trace netStep Net.stops n events

abbrev calls (n : Net) (events : List LwipEvent) : List Call := Runs.trace netStep Net.call n events

/-- What is written on a connection. -/
def repliesOn (pcb : Pcb) (n : Net) (events : List LwipEvent) : List Bytes :=
  entriesOf pcb (Runs.trace netStep Net.reply n events)

/-- The connection the callback is for, if it is served. -/
def keyOf (served : List Pcb) (ev : LwipEvent) : Option Pcb := ev.pcb.filter (· ∈ served)

abbrev progressOf (served : List Pcb) (ls : Pcb → Progress) (events : List LwipEvent) : Pcb → Progress :=
  Runs.run (joint Progress.client (keyOf served)) ls events

/-- The turns of a run, in order. -/
abbrev turns (served : List Pcb) (ls : Pcb → Progress) (events : List LwipEvent) : List (Pcb × Turn) :=
  commits Progress.client (keyOf served) ls events

def turnStep (s : Http) (x : Pcb × Turn) : Http := x.2.after s

abbrev turnRun (s : Http) (xs : List (Pcb × Turn)) : Http := Runs.run turnStep s xs

def turnReply (s : Http) (x : Pcb × Turn) : Option (Pcb × Bytes) := (x.2.reply s).map (x.1, ·)

/-- The request is one for a snapshot. -/
def Call.Snapshots (c : Call) : Prop := ∃ w st, c.event.dispatched = some (w, st) ∧ st.Snapshots w

def Turn.isRequest : Turn → Bool
  | .request _ _ => true
  | .tooLarge _ _ | .closed => false

/-- A served connection gets a slot, and nothing happens to the others. -/
def Admits (served : List Pcb) (n : Net) (ev : LwipEvent) : Prop :=
  match keyOf served ev with
  | none => netStep n ev = n ∧ n.Silent ev
  | some pcb => ev.isAccept = true → (netStep n ev).pcbs pcb ≠ none

theorem Admits.still {served : List Pcb} {n : Net} {ev : LwipEvent} (admits : Admits served n ev)
    (key : keyOf served ev = none) : netStep n ev = n ∧ n.Silent ev := by
  unfold Admits at admits
  rwa [key] at admits

theorem Admits.opens {served : List Pcb} {n : Net} {ev : LwipEvent} {pcb : Pcb} (admits : Admits served n ev)
    (key : keyOf served ev = some pcb) (accepts : ev.isAccept = true) : (netStep n ev).pcbs pcb ≠ none := by
  unfold Admits at admits
  rw [key] at admits
  exact admits accepts

/-- The server is where its connections and the turns so far lead. -/
structure Tracks (served : List Pcb) (n : Net) (ls : Pcb → Progress) (s : Http) (events : List LwipEvent) : Prop where
  sound : n.Sound
  here : ∀ pcb, n.At pcb (ls pcb)
  http : SameButCounts s n.http
  powered : ∀ ev ∈ events, ev.Powered
  accepts : ∀ pcb, (actionsOf (keyOf served) pcb events).countP LwipEvent.isAccept ≤ (ls pcb).credit

theorem keyOf_some {served : List Pcb} {ev : LwipEvent} {pcb : Pcb} (key : keyOf served ev = some pcb) :
    ev.pcb = some pcb ∧ pcb ∈ served := by
  unfold keyOf at key
  rw [Option.filter_eq_some_iff] at key
  exact ⟨key.1, by simpa using key.2⟩

theorem given_none {served : List Pcb} {ls : Pcb → Progress} {ev : LwipEvent} (key : keyOf served ev = none) :
    given Progress.client (keyOf served) ls ev = none := by
  unfold given
  rw [key]
  rfl

theorem given_key {served : List Pcb} {ls : Pcb → Progress} {ev : LwipEvent} {pcb : Pcb}
    (key : keyOf served ev = some pcb) :
    given Progress.client (keyOf served) ls ev = ((ls pcb).turn ev).map (pcb, ·) := by
  unfold given
  rw [key]
  rfl

theorem Net.At.receives {n : Net} {pcb : Pcb} {p : Progress} (here : n.At pcb p) : n.receives pcb = p.receives := by
  unfold Net.receives
  cases here with
  | unopened closed free | gone closed free | lost closed state only =>
      rw [connection_closed closed]
      rfl
  | receiving live only fresh unsent =>
      rw [live.connection, Option.any_some, fresh]
      rfl
  | answered live only done sent =>
      rw [live.connection, Option.any_some, done]
      rfl

/-- What a callback writes it writes on its connection. -/
theorem reply_pcb {n : Net} {ev : LwipEvent} {x : Pcb × Bytes} (replied : n.reply ev = some x) : ev.pcb = some x.1 := by
  unfold Net.reply at replied
  repeat' split at replied
  all_goals try cases replied
  obtain ⟨b, -, rfl⟩ := Option.map_eq_some_iff.mp replied
  rfl

namespace Tracks

section
variable {served : List Pcb} {n : Net} {ls : Pcb → Progress} {s : Http} {ev : LwipEvent} {events : List LwipEvent}
  (tracks : Tracks served n ls s (ev :: events)) (admits : Admits served n ev)
include tracks admits

omit admits in
/-- It is accepted only once. -/
theorem unopened {pcb : Pcb} (key : keyOf served ev = some pcb) (accepts : ev.isAccept = true) :
    ls pcb = .unopened := by
  have count := tracks.accepts pcb
  rw [actionsOf_cons, if_pos key, List.countP_cons_of_pos accepts] at count
  generalize ls pcb = p at count ⊢
  cases p with
  | unopened => rfl
  | receiving a st | answered a | lost a | gone => exact absurd count (Nat.not_succ_le_zero _)

/-- Every callback for a served connection moves it along. -/
theorem moves {pcb : Pcb} (key : keyOf served ev = some pcb) : n.Moves ev pcb (ls pcb) := by
  have own := (keyOf_some key).1
  have powered := tracks.powered ev (List.mem_cons_self ..)
  cases accepts : ev.isAccept with
  | false => exact (tracks.here pcb).moves own powered (isAccept_false accepts)
  | true =>
      have opens := admits.opens key accepts
      have here := tracks.here pcb
      rw [tracks.unopened key accepts] at here ⊢
      cases ev with
      | recv p data ok w next | sent p | err p => cases accepts
      | accept newpcb ok malloc =>
          cases own
          exact here.opens tracks.sound opens

/-- What one callback does. -/
theorem step : Tracks served (netStep n ev) (joint Progress.client (keyOf served) ls ev)
    (turnRun s (given Progress.client (keyOf served) ls ev).toList) events := by
  have powered := tracks.powered ev (List.mem_cons_self ..)
  have later := fun ev' member => tracks.powered ev' (List.mem_cons_of_mem ev member)
  have count := tracks.accepts
  cases key : keyOf served ev with
  | none =>
      have still := admits.still key
      have same : joint Progress.client (keyOf served) ls ev = ls := by
        unfold joint
        rw [key]
      rw [still.1, same, given_none key]
      refine ⟨tracks.sound, tracks.here, tracks.http, later, ?_⟩
      intro pcb
      have rest := count pcb
      rwa [actionsOf_cons, if_neg (by simp [key])] at rest
  | some pcb =>
      have moves := tracks.moves admits key
      refine ⟨netStep_sound tracks.sound ev, ?_, ?_, later, ?_⟩
      · intro p
        by_cases own : p = pcb
        · rw [own, joint_own ls key]
          exact moves.here
        · have other : keyOf served ev ≠ some p := by
            rw [key]
            rintro ⟨⟩
            exact own rfl
          have elsewhere : ev.pcb ≠ some p := by
            rw [(keyOf_some key).1]
            rintro ⟨⟩
            exact own rfl
          rw [joint_other ls other]
          exact (tracks.here p).transport (netStep_elsewhere tracks.sound elsewhere powered)
      · have after := moves.http s tracks.http
        rw [given_key key]
        cases turned : (ls pcb).turn ev with
        | none | some t =>
            rw [turned] at after
            exact after
      · intro p
        have rest := count p
        rw [actionsOf_cons] at rest
        by_cases own : keyOf served ev = some p
        · rw [if_pos own] at rest
          rw [joint_own ls own]
          cases accepts : ev.isAccept with
          | false =>
              rw [List.countP_cons_of_neg (by simp [accepts])] at rest
              exact rest.trans (Progress.next_credit _ _ accepts).ge
          | true =>
              rw [List.countP_cons_of_pos accepts, tracks.unopened own accepts] at rest
              exact (Nat.le_of_succ_le_succ rest).trans (Nat.zero_le _)
        · rw [if_neg own] at rest
          rw [joint_other ls own]
          exact rest

/-- Whoever takes a turn stops receiving. -/
theorem stops : n.stops ev = (given Progress.client (keyOf served) ls ev).map Prod.fst := by
  have after := (tracks.step admits).here
  cases key : keyOf served ev with
  | none =>
      unfold Net.stops
      rw [given_none key, (admits.still key).1]
      simp
  | some pcb =>
      have turn := Progress.turn_receives (ls pcb) ev
      have here := after pcb
      rw [joint_own ls key] at here
      unfold Net.stops
      rw [given_key key, (keyOf_some key).1, Option.filter_some, (tracks.here pcb).receives, here.receives]
      change (if (ls pcb).receives && !((ls pcb).next ev).receives then some pcb else none) = _
      rw [← turn]
      cases (ls pcb).turn ev with
      | none | some t => rfl

/-- The calls of `http_process_request` are the turns with a request. -/
theorem call : (n.call ev).map Call.pcb =
    ((given Progress.client (keyOf served) ls ev).filter (·.2.isRequest)).map Prod.fst := by
  cases key : keyOf served ev with
  | none =>
      rw [given_none key, (admits.still key).2.call]
      rfl
  | some pcb =>
      have calls := (tracks.moves admits key).calls
      rw [given_key key]
      cases turned : (ls pcb).turn ev with
      | none =>
          rw [turned] at calls
          rw [show n.call ev = none from calls]
          rfl
      | some t =>
          rw [turned] at calls
          cases t with
          | request w st =>
              obtain ⟨event, call, -⟩ := calls
              rw [call]
              rfl
          | tooLarge w st | closed =>
              rw [show n.call ev = none from calls]
              rfl

/-- A turn for a snapshot is a call for one. -/
theorem snapshots {x : Pcb × Turn} (taken : given Progress.client (keyOf served) ls ev = some x)
    (snapshots : x.2.Snapshots) : ∃ c, n.call ev = some c ∧ c.pcb = x.1 ∧ c.Snapshots := by
  cases key : keyOf served ev with
  | none =>
      rw [given_none key] at taken
      cases taken
  | some pcb =>
      have calls := (tracks.moves admits key).calls
      rw [given_key key] at taken
      obtain ⟨t, turned, rfl⟩ := Option.map_eq_some_iff.mp taken
      rw [turned] at calls
      cases t with
      | request w st =>
          obtain ⟨event, call, dispatched⟩ := calls
          exact ⟨_, call, rfl, _, _, dispatched, snapshots⟩
      | tooLarge w st | closed => cases snapshots

/-- What is written on a connection is the reply of its turn, if that is none for a snapshot. -/
theorem reply {pcb : Pcb}
    (other : ∀ t, given Progress.client (keyOf served) ls ev = some (pcb, t) → ¬ t.Snapshots) :
    entriesOf pcb (n.reply ev).toList =
      entriesOf pcb ((given Progress.client (keyOf served) ls ev).bind (turnReply s)).toList := by
  cases key : keyOf served ev with
  | none =>
      rw [given_none key, (admits.still key).2.reply]
      rfl
  | some p =>
      have moves := tracks.moves admits key
      rw [given_key key] at other ⊢
      have turn : (((ls p).turn ev).map (p, ·)).bind (turnReply s) =
          (((ls p).turn ev).bind (Turn.reply s)).map (p, ·) := by
        cases (ls p).turn ev with
        | none | some t => rfl
      rw [turn]
      by_cases own : p = pcb
      · rw [moves.reply s tracks.http]
        intro t turned
        exact other t (by rw [turned, own]; rfl)
      · have elsewhere : ∀ {r : Option (Pcb × Bytes)}, (∀ x, r = some x → x.1 = p) → entriesOf pcb r.toList = [] := by
          intro r inside
          cases r with
          | none => rfl
          | some x =>
              rw [Option.toList_some, entriesOf_cons, inside x rfl, if_neg own]
              rfl
        have replied : ∀ x, n.reply ev = some x → x.1 = p := by
          intro x replied
          have theirs := reply_pcb replied
          rw [(keyOf_some key).1, Option.some.injEq] at theirs
          exact theirs.symm
        rw [elsewhere replied, elsewhere]
        intro x taken
        obtain ⟨b, -, rfl⟩ := Option.map_eq_some_iff.mp taken
        rfl

end

section
variable {served : List Pcb} {n : Net} {ls : Pcb → Progress} {s : Http} {events rest : List LwipEvent}
  (tracks : Tracks served n ls s (events ++ rest)) (admitted : Runs.Along netStep (Admits served) n events)
include tracks admitted

/-- What a run does. -/
theorem run : Tracks served (netRun n events) (progressOf served ls events)
    (turnRun s (turns served ls events)) rest := by
  induction events generalizing n ls s with
  | nil => exact tracks
  | cons ev events ih =>
      have after := ih (tracks.step admitted.1) admitted.2
      unfold turnRun at after
      rw [← Runs.run_append] at after
      exact after

/-- The connections stop receiving in the order of their turns. -/
theorem stopped_eq : stopped n events = (turns served ls events).map Prod.fst := by
  induction events generalizing n ls s with
  | nil => rfl
  | cons ev events ih =>
      have after := ih (tracks.step admitted.1) admitted.2
      have here := tracks.stops admitted.1
      unfold stopped turns commits at after ⊢
      rw [Runs.trace_cons, Runs.trace_cons, List.map_append, after, here]
      cases given Progress.client (keyOf served) ls ev with
      | none | some x => rfl

theorem calls_eq : (calls n events).map Call.pcb =
    ((turns served ls events).filter (·.2.isRequest)).map Prod.fst := by
  induction events generalizing n ls s with
  | nil => rfl
  | cons ev events ih =>
      have after := ih (tracks.step admitted.1) admitted.2
      have here := congrArg Option.toList (tracks.call admitted.1)
      rw [Option.toList_map, Option.toList_map, Option.toList_filter] at here
      unfold calls turns commits at after ⊢
      rw [Runs.trace_cons, Runs.trace_cons, List.map_append, List.filter_append, List.map_append, after, here]

theorem repliesOn_eq {pcb : Pcb} (other : ∀ x ∈ turns served ls events, x.1 = pcb → ¬ x.2.Snapshots) :
    repliesOn pcb n events = entriesOf pcb (Runs.trace turnStep turnReply s (turns served ls events)) := by
  induction events generalizing n ls s with
  | nil => rfl
  | cons ev events ih =>
      unfold turns commits at other
      rw [Runs.trace_cons] at other
      have after := ih (tracks.step admitted.1) admitted.2 fun x member => other x (List.mem_append_right _ member)
      have here := @reply _ _ _ _ _ _ tracks admitted.1 pcb fun t taken => other (pcb, t) (by simp [taken]) rfl
      unfold repliesOn turns commits at after ⊢
      rw [Runs.trace_cons, Runs.trace_cons, Runs.trace_append, entriesOf_append, entriesOf_append, after, here]
      cases given Progress.client (keyOf served) ls ev with
      | none => rfl
      | some x => simp

/-- A connection that does not ask for a snapshot takes no turn for one. -/
theorem no_snapshots {pcb : Pcb} (other : ∀ c ∈ calls n events, c.pcb = pcb → ¬ c.Snapshots) :
    ∀ x ∈ turns served ls events, x.1 = pcb → ¬ x.2.Snapshots := by
  induction events generalizing n ls s with
  | nil => exact fun x member => absurd member List.not_mem_nil
  | cons ev events ih =>
      unfold calls at other
      rw [Runs.trace_cons] at other
      have after := ih (tracks.step admitted.1) admitted.2 fun c member => other c (List.mem_append_right _ member)
      unfold turns commits at after ⊢
      intro x member own snapshots
      rw [Runs.trace_cons, List.mem_append] at member
      rcases member with here | later
      · obtain ⟨c, called, same, asks⟩ := tracks.snapshots admitted.1 (Option.mem_toList.mp here) snapshots
        exact other c (by simp [called]) (same.trans own) asks
      · exact after x later own snapshots

end

end Tracks

end Roman
