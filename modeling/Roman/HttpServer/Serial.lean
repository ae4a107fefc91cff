import Roman.HttpServer.Interleaving

/-! # One connection after another

However the callbacks of the connections interleave, the server ends with the keystore it
has when it serves the connections one after another, each with all its callbacks, and
what it writes on each of them is the same. They are served in the order in which they
stop receiving, which for those that are answered is the order of the answers; a
connection that still receives in the end comes last.
-/

namespace Roman

open CMem CStr NorFlash Pool Sessions

/-- The connections that get a slot, in the order in which they are served. -/
def serviceOrder (n : Net) (events : List LwipEvent) : List Pcb :=
  stopped n events ++ (opened n events).filter (netRun n events).receives

/-- The same callbacks, connection by connection. -/
def oneByOne (n : Net) (events : List LwipEvent) : List LwipEvent :=
  serially LwipEvent.pcb (serviceOrder n events) events

/-- Every connection has a name of its own: it is accepted once. -/
def Named (events : List LwipEvent) : Prop :=
  ∀ pcb, (actionsOf LwipEvent.pcb pcb events).countP LwipEvent.isAccept ≤ 1

theorem opens_iff {n : Net} {ev : LwipEvent} {pcb : Pcb} :
    n.opens ev = some pcb ↔ ev.pcb = some pcb ∧ n.pcbs pcb = none ∧ (netStep n ev).pcbs pcb ≠ none := by
  unfold Net.opens
  rw [Option.filter_eq_some_iff, Bool.and_eq_true, Option.isNone_iff_eq_none, Option.isSome_iff_ne_none]

/-- What is closed stays closed when another connection closes. -/
theorem closed_update {pcbs : Pcb → Option (Option Addr)} {pcb : Pcb} (closed : pcbs pcb = none) (p : Pcb) :
    Function.update pcbs p none pcb = none := by
  rw [Function.update_apply, closed, ite_self]

/-- Only an accept opens a connection. -/
theorem opens_accept {n : Net} (sound : n.Sound) {ev : LwipEvent} {pcb : Pcb} (closed : n.pcbs pcb = none)
    (isOpen : (netStep n ev).pcbs pcb ≠ none) : n.opens ev = some pcb ∧ ev.isAccept = true := by
  have change := netStep_change sound ev
  have opens := fun own => opens_iff.mpr ⟨own, closed, isOpen⟩
  generalize netStep n ev = after at change isOpen
  cases change with
  | kept => exact absurd closed isOpen
  | @opened p a slot free unused empty =>
      refine ⟨opens ?_, rfl⟩
      by_cases same : pcb = p
      · rw [same]
        rfl
      · unfold Net.opened at isOpen
        dsimp only at isOpen
        rw [Function.update_of_ne same] at isOpen
        exact absurd closed isOpen
  | served live recv =>
      unfold Net.served at isOpen
      dsimp only at isOpen
      split at isOpen
      · exact absurd (closed_update closed _) isOpen
      · exact absurd closed isOpen
  | reset live recv => exact absurd rfl isOpen
  | released s live own => exact absurd (closed_update closed _) isOpen

/-- Every connection that is open was opened. -/
theorem open_opened {n : Net} (sound : n.Sound) {events : List LwipEvent} {pcb : Pcb} (closed : n.pcbs pcb = none)
    (isOpen : (netRun n events).pcbs pcb ≠ none) : pcb ∈ opened n events := by
  induction events generalizing n with
  | nil => exact absurd closed isOpen
  | cons ev events ih =>
      unfold opened at ih ⊢
      rw [Runs.trace_cons, List.mem_append]
      cases after : (netStep n ev).pcbs pcb with
      | none => exact .inr (ih (netStep_sound sound ev) after isOpen)
      | some arg =>
          have opens := (opens_accept sound closed (by rw [after]; exact Option.some_ne_none arg)).1
          exact .inl (by rw [opens]; exact List.mem_singleton_self pcb)

/-- A connection is opened no more often than it is accepted. -/
theorem opened_count {n : Net} (sound : n.Sound) (events : List LwipEvent) (pcb : Pcb) :
    (opened n events).count pcb ≤ (actionsOf LwipEvent.pcb pcb events).countP LwipEvent.isAccept := by
  induction events generalizing n with
  | nil => exact Nat.le_refl 0
  | cons ev events ih =>
      have rest := ih (netStep_sound sound ev)
      unfold opened at rest ⊢
      rw [Runs.trace_cons, List.count_append]
      by_cases opens : n.opens ev = some pcb
      · obtain ⟨own, closed, isOpen⟩ := opens_iff.mp opens
        have accepts := (opens_accept sound closed isOpen).2
        rw [opens, Option.toList_some, List.count_singleton_self, actionsOf_cons, if_pos own,
          List.countP_cons_of_pos accepts, Nat.add_comm]
        exact Nat.succ_le_succ rest
      · have none : (n.opens ev).toList.count pcb = 0 :=
          List.count_eq_zero.mpr fun member => opens (Option.mem_toList.mp member)
        rw [none, Nat.zero_add]
        exact rest.trans ((List.sublist_cons_self ev events).filter _).countP_le

theorem actionsOf_keyOf (served : List Pcb) (pcb : Pcb) (events : List LwipEvent) :
    actionsOf (keyOf served) pcb events = if pcb ∈ served then actionsOf LwipEvent.pcb pcb events else [] := by
  unfold actionsOf
  by_cases serves : pcb ∈ served
  · rw [if_pos serves]
    refine List.filter_congr fun ev _ => ?_
    rw [decide_eq_decide]
    unfold keyOf
    rw [Option.filter_eq_some_iff]
    exact and_iff_left (by simpa using serves)
  · rw [if_neg serves, List.filter_eq_nil_iff]
    intro ev _ key
    exact serves (keyOf_some (of_decide_eq_true key)).2

theorem keyOf_none {served : List Pcb} {ev : LwipEvent} {pcb : Pcb} (key : keyOf served ev = none)
    (own : ev.pcb = some pcb) : pcb ∉ served := by
  intro serves
  unfold keyOf at key
  rw [own, Option.filter_some, if_pos (by simpa using serves)] at key
  cases key

/-- Nothing happens to a connection that is not opened. -/
theorem netStep_unopened {n : Net} (sound : n.Sound) {ev : LwipEvent}
    (closed : ∀ pcb, ev.pcb = some pcb → n.pcbs pcb = none) (unopened : n.opens ev = none) : netStep n ev = n := by
  have still : ∀ pcb, ev.pcb = some pcb → (netStep n ev).pcbs pcb = none := by
    intro pcb own
    by_contra isOpen
    have opens := opens_iff.mpr ⟨own, closed pcb own, isOpen⟩
    rw [unopened] at opens
    cases opens
  have change := netStep_change sound ev
  generalize netStep n ev = after at change still
  cases change with
  | kept => rfl
  | opened free unused empty =>
      have isOpen := still _ rfl
      unfold Net.opened at isOpen
      dsimp only at isOpen
      rw [Function.update_self] at isOpen
      cases isOpen
  | served live recv | reset live recv =>
      have shut := closed _ rfl
      rw [live.isOpen] at shut
      cases shut
  | released s live own =>
      have shut := closed _ own
      rw [live.isOpen] at shut
      cases shut

/-- A run of named connections serves those that it opens. -/
theorem idle_admitted {s : Http} {events : List LwipEvent} (named : Named events) :
    Runs.Along netStep (Admits (opened (.idle s) events)) (.idle s) events := by
  refine Runs.along_of_splits ?_
  rintro before ev after rfl
  have sound := netRun_sound s before
  have all : opened (.idle s) (before ++ ev :: after) = opened (.idle s) before ++
      (((netRun (.idle s) before).opens ev).toList ++ opened (netStep (netRun (.idle s) before) ev) after) := by
    unfold opened
    rw [Runs.trace_append, Runs.trace_cons]
  have earlier := fun pcb => @open_opened _ (idle_sound s) before pcb rfl
  change Admits _ (netRun (.idle s) before) ev
  generalize netRun (.idle s) before = n at *
  unfold Admits
  cases key : keyOf (opened (.idle s) (before ++ ev :: after)) ev with
  | none =>
      have unserved := fun pcb => @keyOf_none _ _ pcb key
      rw [all] at unserved
      have closed : ∀ pcb, ev.pcb = some pcb → n.pcbs pcb = none := by
        intro pcb own
        by_contra isOpen
        exact unserved pcb own (List.mem_append_left _ (earlier pcb isOpen))
      have unopened : n.opens ev = none := by
        cases opens : n.opens ev with
        | none => rfl
        | some pcb =>
            rw [opens] at unserved
            refine absurd ?_ (unserved pcb (opens_iff.mp opens).1)
            exact List.mem_append_right _ (List.mem_append_left _ (List.mem_singleton_self pcb))
      refine ⟨netStep_unopened sound closed unopened, ?_⟩
      cases own : ev.pcb with
      | none =>
          cases ev with
          | accept newpcb ok malloc => exact ⟨rfl, rfl⟩
          | recv pcb data ok w next | sent pcb | err pcb => cases own
      | some pcb => exact silent_closed own (closed pcb own)
  | some pcb =>
      dsimp only
      intro accepts
      obtain ⟨own, serves⟩ := keyOf_some key
      have once := named pcb
      rw [actionsOf_append, actionsOf_cons, if_pos own, List.countP_append, List.countP_cons_of_pos accepts] at once
      rw [all, List.mem_append, List.mem_append] at serves
      rcases serves with before' | here | after'
      · have count := (List.count_pos_iff.mpr before').trans_le (opened_count (idle_sound s) before pcb)
        omega
      · exact (opens_iff.mp (Option.mem_toList.mp here)).2.2
      · have count := (List.count_pos_iff.mpr after').trans_le (opened_count (netStep_sound sound ev) after pcb)
        omega

theorem Net.At.holds {n : Net} {pcb : Pcb} {p : Progress} (here : n.At pcb p) {a : Addr} :
    p.addr = some a ↔ ∃ st, n.heap a = some (pcb, st) := by
  cases here with
  | unopened closed free | gone closed free =>
      refine iff_of_false (Option.some_ne_none a).symm ?_
      rintro ⟨st, state⟩
      exact free a st state
  | @receiving b st live only | @answered b st live only =>
      constructor
      · rintro ⟨⟩
        exact ⟨st, live.state⟩
      · rintro ⟨st', state⟩
        rw [only a st' state, Progress.addr]
  | @lost b st closed state only =>
      constructor
      · rintro ⟨⟩
        exact ⟨st, state⟩
      · rintro ⟨st', there⟩
        rw [only a st' there, Progress.addr]

/-- A server whose states all are states of another one, in which the connection has its
    own besides, has room for it. -/
theorem accept_opens {n m : Net} (soundN : n.Sound) (soundM : m.Sound) {ls ms : Pcb → Progress}
    (hereN : ∀ pcb, n.At pcb (ls pcb)) (hereM : ∀ pcb, m.At pcb (ms pcb))
    (inside : ∀ pcb a, (ls pcb).addr = some a → (ms pcb).addr = some a) {pcb : Pcb} {a : Addr}
    (unopened : ls pcb = .unopened) (there : (ms pcb).addr = some a) :
    (netStep n (.accept (some pcb) true (some a))).pcbs pcb ≠ none := by
  have isNew := hereN pcb
  rw [unopened] at isNew
  cases isNew with
  | unopened closed free =>
      have held : ∀ b p st, n.heap b = some (p, st) → ∃ st', m.heap b = some (p, st') := fun b p st state =>
        (hereM p).holds.mp (inside p b ((hereN p).holds.mpr ⟨st, state⟩))
      obtain ⟨st, state⟩ := (hereM pcb).holds.mp there
      have unused : n.heap a = none := by
        cases used : n.heap a with
        | none => rfl
        | some owned =>
            obtain ⟨p, st'⟩ := owned
            obtain ⟨st₁, other⟩ := held a p st' used
            rw [state] at other
            cases other
            exact absurd used (free a st')
      have slot : vacant n.httpStates ≠ none := by
        obtain ⟨j, registered⟩ := soundM.registered a (by rw [state]; rfl)
        refine vacant_of_more soundN.once ?_ registered ?_
        · intro i b there'
          obtain ⟨⟨p, st'⟩, state'⟩ := Option.isSome_iff_exists.mp (soundN.allocated i b there')
          obtain ⟨st₁, other⟩ := held b p st' state'
          exact soundM.registered b (by rw [other]; rfl)
        · intro i there'
          have used := soundN.allocated i a there'
          rw [unused] at used
          cases used
      obtain ⟨i, slot⟩ := Option.ne_none_iff_exists'.mp slot
      rw [netStep_accept closed unused slot]
      unfold Net.opened
      dsimp only
      rw [Function.update_self]
      exact Option.some_ne_none _

/-- Before any callback. -/
abbrev fresh : Pcb → Progress := fun _ => .unopened

theorem fresh_tracks {served : List Pcb} {events : List LwipEvent} (s : Http) (powered : ∀ ev ∈ events, ev.Powered)
    (once : ∀ pcb, (actionsOf (keyOf served) pcb events).countP LwipEvent.isAccept ≤ 1) :
    Tracks served (.idle s) fresh s events := by
  refine ⟨idle_sound s, ?_, .refl s, powered, once⟩
  intro pcb
  refine .unopened rfl ?_
  intro b st state
  cases state

/-- A connection whose callbacks come together is served if there is room for it. -/
theorem block_admitted {served : List Pcb} {n : Net} {ls : Pcb → Progress} {s : Http} {block rest : List LwipEvent}
    (tracks : Tracks served n ls s (block ++ rest)) {pcb : Pcb} (own : ∀ ev ∈ block, keyOf served ev = some pcb)
    (unopened : ls pcb = .unopened)
    (opens : ∀ n : Net, n.Sound → (∀ pcb, n.At pcb (ls pcb)) → ∀ ev ∈ block, ev.isAccept = true →
      (netStep n ev).pcbs pcb ≠ none) : Runs.Along netStep (Admits served) n block := by
  induction block generalizing n s with
  | nil => trivial
  | cons ev block ih =>
      have key := own ev (List.mem_cons_self ..)
      have later := fun ev' member => own ev' (List.mem_cons_of_mem ev member)
      have admits : Admits served n ev := by
        unfold Admits
        rw [key]
        exact opens n tracks.sound tracks.here ev (List.mem_cons_self ..)
      refine ⟨admits, ?_⟩
      cases accepts : ev.isAccept with
      | true =>
          -- no other accept follows
          have once := tracks.accepts pcb
          rw [List.cons_append, actionsOf_cons, if_pos key, List.countP_cons_of_pos accepts, unopened, actionsOf_append,
            List.countP_append] at once
          have none : (actionsOf (keyOf served) pcb block).countP LwipEvent.isAccept = 0 := by
            rw [Progress.credit] at once
            omega
          refine Runs.along_of_forall fun n ev' member => ?_
          unfold Admits
          rw [later ev' member]
          intro again
          exact absurd again (List.countP_eq_zero.mp none ev' (mem_actionsOf.mpr ⟨member, later ev' member⟩))
      | false =>
          have same : joint Progress.client (keyOf served) ls ev = ls := by
            funext p
            by_cases here : keyOf served ev = some p
            · rw [key, Option.some.injEq] at here
              rw [← here, joint_own ls key, unopened]
              exact Progress.next_unopened accepts
            · exact joint_other ls here
          have after := tracks.step admits
          rw [same] at after
          exact ih after later fun n sound here ev' member => opens n sound here ev' (List.mem_cons_of_mem ev member)

/-- The connection receives after the first callbacks, and whoever is served before it
    holds by then what it holds in the end. -/
structure Ready (served : List Pcb) (events : List LwipEvent) (before : List Pcb) (pcb : Pcb)
    (first : List LwipEvent) : Prop where
  early : first <+: events
  receives : (progressOf served fresh first pcb).receives = true
  kept : ∀ p ∈ before, ∀ a, (progressOf served fresh events p).addr = some a →
    (progressOf served fresh first p).addr = some a

theorem progressOf_own (served : List Pcb) (ls : Pcb → Progress) (events : List LwipEvent) (pcb : Pcb) :
    progressOf served ls events pcb = Runs.run Progress.next (ls pcb) (actionsOf (keyOf served) pcb events) :=
  run_joint ls events pcb

section
variable {served : List Pcb} {events : List LwipEvent} {s : Http} (tracks : Tracks served (.idle s) fresh s events)
include tracks

/-- It is accepted with the state that it has then. -/
theorem Ready.accepted {before : List Pcb} {pcb : Pcb} {first : List LwipEvent}
    (ready : Ready served events before pcb first) : ∃ a, (progressOf served fresh first pcb).addr = some a ∧
      ∀ ev ∈ actionsOf (keyOf served) pcb events, ev.isAccept = true → ev = .accept (some pcb) true (some a) := by
  obtain ⟨rest, rfl⟩ := ready.early
  obtain ⟨a, there⟩ := Progress.receives_addr ready.receives
  refine ⟨a, there, ?_⟩
  intro ev member accepts
  have once : (actionsOf (keyOf served) pcb (first ++ rest)).countP LwipEvent.isAccept ≤ 1 := tracks.accepts pcb
  rw [actionsOf_append, List.countP_append] at once
  rw [progressOf_own] at there
  rw [actionsOf_append, List.mem_append] at member
  rcases member with inside | later
  · obtain ⟨newpcb, rfl⟩ := Progress.accepted_at there (by omega) inside accepts
    have own : newpcb = some pcb := (keyOf_some (mem_actionsOf.mp inside).2).1
    rw [own]
  · -- it was accepted before
    have second := List.countP_pos_iff.mpr ⟨ev, later, accepts⟩
    rw [Progress.run_unopened (by omega)] at there
    cases there

variable (admitted : Runs.Along netStep (Admits served) (.idle s) events)
include admitted

theorem run_prior {first rest : List LwipEvent} (split : first ++ rest = events) :
    Tracks served (netRun (.idle s) first) (progressOf served fresh first)
      (turnRun s (turns served fresh first)) rest := by
  subst split
  exact tracks.run admitted.left

/-- Served in such an order, every connection finds room. -/
theorem serially_admitted {order : List Pcb} (nodup : order.Nodup)
    (ready : ∀ before pcb after, order = before ++ pcb :: after → ∃ first, Ready served events before pcb first)
    (serial : Tracks served (.idle s) fresh s (serially (keyOf served) order events)) :
    Runs.Along netStep (Admits served) (.idle s) (serially (keyOf served) order events) := by
  have later : ∀ after before n ls s', order = before ++ after →
      Tracks served n ls s' (serially (keyOf served) after events) →
      (∀ p, ls p = if p ∈ before then progressOf served fresh events p else .unopened) →
      Runs.Along netStep (Admits served) n (serially (keyOf served) after events) := by
    intro after
    induction after with
    | nil => exact fun _ _ _ _ _ _ _ => trivial
    | cons pcb after ih =>
        intro before n ls s' split here progress
        obtain ⟨first, isReady⟩ := ready before pcb after split
        obtain ⟨a, there, accept⟩ := isReady.accepted tracks
        obtain ⟨rest, eq⟩ := isReady.early
        have isNew : pcb ∉ before := by
          rw [split, List.nodup_append] at nodup
          exact fun member => nodup.2.2 pcb member pcb (List.mem_cons_self ..) rfl
        have unopened : ls pcb = .unopened := by rw [progress, if_neg isNew]
        have inside : ∀ p b, (ls p).addr = some b → (progressOf served fresh first p).addr = some b := by
          intro p b holds
          rw [progress] at holds
          by_cases served' : p ∈ before
          · rw [if_pos served'] at holds
            exact isReady.kept p served' b holds
          · rw [if_neg served'] at holds
            cases holds
        have prior := run_prior tracks admitted eq
        have block : Runs.Along netStep (Admits served) n (actionsOf (keyOf served) pcb events) := by
          refine block_admitted here (fun ev member => (mem_actionsOf.mp member).2) unopened ?_
          intro m sound states ev member accepts
          rw [accept ev member accepts]
          exact accept_opens sound prior.sound states prior.here inside unopened there
        refine block.append (ih (before ++ [pcb]) _ _ _ ?_ (here.run block) ?_)
        · rw [split, List.append_assoc, List.singleton_append]
        · intro p
          rw [progressOf_own, actionsOf_actionsOf, progress p]
          by_cases own : p = pcb
          · rw [own, if_neg isNew, if_pos rfl, if_pos (by simp), progressOf_own]
          · rw [if_neg own, Runs.run_nil]
            simp only [List.mem_append, List.mem_singleton, own, or_false]
  exact later order [] (.idle s) fresh s rfl serial fun p => (if_neg List.not_mem_nil).symm

/-- Whoever has stopped receiving has had its turn. -/
theorem stopped_ended {first : List LwipEvent} (early : first <+: events) {pcb : Pcb}
    (stops : pcb ∈ stopped (.idle s) first) : (progressOf served fresh first pcb).ended := by
  obtain ⟨rest, rfl⟩ := early
  rw [tracks.stopped_eq admitted.left] at stops
  exact ended_of_commits Progress.ended_of_turn Progress.next_ended stops

theorem ready_of_receives {pcb : Pcb} (receives : (netRun (.idle s) events).receives pcb = true) (before : List Pcb) :
    Ready served events before pcb events := by
  have whole := run_prior tracks admitted (List.append_nil events)
  refine ⟨List.prefix_refl events, ?_, fun p _ a there => there⟩
  rw [← (whole.here pcb).receives, receives]

theorem ready_of_stops {before after : List Pcb} {pcb : Pcb} (split : stopped (.idle s) events = before ++ pcb :: after) :
    ∃ first, Ready served events before pcb first := by
  obtain ⟨first, ev, rest, eq, earlier, stops, -⟩ := Runs.trace_split split
  have early : first <+: events := ⟨ev :: rest, eq.symm⟩
  have prior := run_prior tracks admitted eq.symm
  refine ⟨first, early, ?_, ?_⟩
  · unfold Net.stops at stops
    rw [Option.filter_eq_some_iff, Bool.and_eq_true] at stops
    rw [← (prior.here pcb).receives]
    exact stops.2.1
  · intro p member a there
    have ended : (progressOf served fresh first p).ended :=
      stopped_ended tracks admitted early (by unfold stopped; rw [earlier]; exact member)
    have opened : progressOf served fresh first p ≠ .unopened := by
      intro unopened
      rw [unopened] at ended
      exact ended
    rw [eq, progressOf, Runs.run_append, run_joint] at there
    exact Progress.run_addr opened there

/-- In this order the server finds room for everybody. -/
theorem serviceOrder_ready (before : List Pcb) (pcb : Pcb) (after : List Pcb)
    (split : serviceOrder (.idle s) events = before ++ pcb :: after) : ∃ first, Ready served events before pcb first := by
  have last : ∀ ahead behind, (opened (.idle s) events).filter (netRun (.idle s) events).receives = ahead ++ pcb :: behind →
      Ready served events before pcb events := by
    intro ahead behind eq
    have member : pcb ∈ (opened (.idle s) events).filter (netRun (.idle s) events).receives := by
      rw [eq]
      exact List.mem_append_right _ (List.mem_cons_self ..)
    exact ready_of_receives tracks admitted (List.mem_filter.mp member).2 before
  rcases List.append_eq_append_iff.mp split with ⟨ahead, -, rest⟩ | ⟨behind, front, rest⟩
  · exact ⟨events, last ahead after rest⟩
  · cases behind with
    | nil => exact ⟨events, last [] after rest.symm⟩
    | cons p behind =>
        rw [List.cons_append, List.cons.injEq] at rest
        rw [← rest.1] at front
        exact ready_of_stops tracks admitted front

omit tracks admitted in
theorem turns_once : ((turns served fresh events).map Prod.fst).Nodup :=
  commits_once fun _ => own_once Progress.ended_of_turn Progress.next_ended _ _

theorem serviceOrder_eq : serviceOrder (.idle s) events = (turns served fresh events).map Prod.fst ++
    (opened (.idle s) events).filter (netRun (.idle s) events).receives := by
  have whole : Tracks served (.idle s) fresh s (events ++ []) := by rwa [List.append_nil]
  unfold serviceOrder
  rw [whole.stopped_eq admitted]

theorem serviceOrder_nodup (once : (opened (.idle s) events).Nodup) : (serviceOrder (.idle s) events).Nodup := by
  rw [serviceOrder_eq tracks admitted, List.nodup_append]
  refine ⟨turns_once, once.filter _, ?_⟩
  rintro pcb stops p waits rfl
  have ended : (progressOf served fresh events pcb).ended :=
    ended_of_commits Progress.ended_of_turn Progress.next_ended stops
  have receives := (List.mem_filter.mp waits).2
  rw [((run_prior tracks admitted (List.append_nil events)).here pcb).receives] at receives
  generalize progressOf served fresh events pcb = p at ended receives
  cases p with
  | receiving a st => exact ended
  | unopened | answered a | lost a | gone => cases receives

end

end Roman
