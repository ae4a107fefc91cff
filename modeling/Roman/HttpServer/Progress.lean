import Roman.HttpServer.Turns

/-! # How far a connection comes

A connection is accepted, has one turn and is gone: what can become of it in one callback,
and what that says about all its callbacks together.
-/

namespace Roman

open CMem CStr NorFlash Pool Sessions

def LwipEvent.isAccept : LwipEvent → Bool
  | .accept _ _ _ => true
  | _ => false

theorem isAccept_false {ev : LwipEvent} (later : ev.isAccept = false) (newpcb : Option Pcb) (ok : Bool)
    (malloc : Option Addr) : ev ≠ .accept newpcb ok malloc := by
  rintro rfl
  cases later

namespace Progress

/-- How many accepts are still to come. -/
def credit : Progress → Nat
  | .unopened => 1
  | _ => 0

def receives : Progress → Bool
  | .receiving _ _ => true
  | _ => false

/-- Where its state is. -/
def addr : Progress → Option Addr
  | .receiving a _ | .answered a | .lost a => some a
  | .unopened | .gone => none

/-- The connection has had its turn. -/
def ended : Progress → Prop
  | .answered _ | .lost _ | .gone => True
  | .unopened | .receiving _ _ => False

end Progress

/-- Everything a callback can do to the connection it is for. -/
inductive ProgressChange : Progress → LwipEvent → Progress → Option Turn → Prop where
  | kept (p : Progress) (ev : LwipEvent) : ProgressChange p ev p none
  | opened (newpcb : Option Pcb) (a : Addr) :
      ProgressChange .unopened (.accept newpcb true (some a)) (.receiving a .accepted) none
  | waited (ev : LwipEvent) (a : Addr) (st st' : HttpState) :
      ProgressChange (.receiving a st) ev (.receiving a st') none
  | turned {ev : LwipEvent} {a : Addr} {st : HttpState} {p : Progress} (t : Turn)
      (last : p = .answered a ∨ p = .lost a ∨ p = .gone) : ProgressChange (.receiving a st) ev p (some t)
  | released (ev : LwipEvent) (a : Addr) : ProgressChange (.answered a) ev .gone none

namespace Progress

theorem change_answer (ev : LwipEvent) (a : Addr) (st : HttpState) (t : Turn) (writes : Bool) :
    ProgressChange (.receiving a st) ev (if writes then .answered a else .lost a) (some t) := by
  cases writes with
  | true => exact .turned t (.inl rfl)
  | false => exact .turned t (.inr (.inl rfl))

theorem change (p : Progress) (ev : LwipEvent) : ProgressChange p ev (p.next ev) (p.turn ev) := by
  cases p with
  | unopened =>
      cases ev with
      | accept newpcb ok malloc =>
          cases ok with
          | false => exact .kept _ _
          | true =>
              cases malloc with
              | none => exact .kept _ _
              | some a => exact .opened newpcb a
      | recv pcb data ok w entropy | sent pcb | err pcb => exact .kept _ _
  | gone | lost a => cases ev <;> exact .kept _ _
  | answered a =>
      cases ev with
      | accept newpcb ok malloc => exact .kept _ _
      | sent pcb | err pcb => exact .released _ a
      | recv pcb data ok w entropy =>
          cases data with
          | none => exact .released _ a
          | some data => exact .kept _ _
  | receiving a st =>
      cases ev with
      | accept newpcb ok malloc | sent pcb => exact .kept _ _
      | err pcb => exact .turned .closed (.inr (.inr rfl))
      | recv pcb data ok w entropy =>
          cases data with
          | none => exact .turned .closed (.inr (.inr rfl))
          | some data =>
              cases ok with
              | false => exact .kept _ _
              | true =>
                  unfold next turn
                  dsimp only
                  cases httpReceive st data with
                  | ignored => exact .kept _ _
                  | waiting st' => exact .waited _ a st st'
                  | tooLarge st' => exact change_answer _ a st (.tooLarge w st') w.tcpWrites
                  | complete st' => exact change_answer _ a st (.request w st') w.tcpWrites

theorem next_unopened {ev : LwipEvent} (later : ev.isAccept = false) : unopened.next ev = unopened := by
  have change := unopened.change ev
  generalize unopened.next ev = after, unopened.turn ev = t at change
  cases change with
  | kept => rfl
  | opened newpcb a => cases later

section
variable (p : Progress) (ev : LwipEvent)

theorem next_credit (later : ev.isAccept = false) : (p.next ev).credit = p.credit := by
  have change := p.change ev
  generalize p.next ev = after, p.turn ev = t at change
  cases change with
  | kept | waited | released => rfl
  | opened newpcb a => cases later
  | turned t last => rcases last with rfl | rfl | rfl <;> rfl

/-- A turn is what ends the receiving. -/
theorem turn_receives : (p.turn ev).isSome = (p.receives && !(p.next ev).receives) := by
  have change := p.change ev
  generalize p.next ev = after, p.turn ev = t at change
  cases change with
  | kept => simp
  | opened | waited | released => rfl
  | turned t last => rcases last with rfl | rfl | rfl <;> rfl

theorem next_opened (opened : p ≠ unopened) : p.next ev ≠ unopened := by
  have change := p.change ev
  generalize p.next ev = after, p.turn ev = t at change
  cases change with
  | kept => exact opened
  | opened newpcb a => exact absurd rfl opened
  | waited | released => nofun
  | turned t last => rcases last with rfl | rfl | rfl <;> nofun

theorem next_addr {a : Addr} (opened : p ≠ unopened) (there : (p.next ev).addr = some a) : p.addr = some a := by
  have change := p.change ev
  generalize p.next ev = after, p.turn ev = t at change there
  cases change with
  | kept | waited => exact there
  | opened newpcb b => exact absurd rfl opened
  | turned t last => rcases last with rfl | rfl | rfl <;> first | exact there | cases there
  | released => cases there

theorem ended_of_turn (t : Turn) (turn : p.turn ev = some t) : (p.next ev).ended := by
  have change := p.change ev
  rw [turn] at change
  generalize p.next ev = after at change
  cases change with
  | turned t last => rcases last with rfl | rfl | rfl <;> trivial

theorem next_ended (ended : p.ended) : p.turn ev = none ∧ (p.next ev).ended := by
  have change := p.change ev
  generalize p.next ev = after, p.turn ev = t at change
  cases change with
  | kept => exact ⟨rfl, ended⟩
  | released => exact ⟨rfl, trivial⟩
  | opened | waited | turned => cases ended

end

theorem receives_addr {p : Progress} (receives : p.receives = true) : ∃ a, p.addr = some a := by
  cases p with
  | receiving a st => exact ⟨a, rfl⟩
  | unopened | answered a | lost a | gone => cases receives

theorem run_addr {p : Progress} (opened : p ≠ unopened) {events : List LwipEvent} {a : Addr}
    (there : (Runs.run next p events).addr = some a) : p.addr = some a := by
  induction events generalizing p with
  | nil => exact there
  | cons ev events ih => exact next_addr p ev opened (ih (next_opened p ev opened) there)

theorem run_unopened {events : List LwipEvent} (none : events.countP LwipEvent.isAccept = 0) :
    Runs.run next unopened events = unopened := by
  induction events with
  | nil => rfl
  | cons ev events ih =>
      cases accepts : ev.isAccept with
      | true =>
          rw [List.countP_cons_of_pos accepts] at none
          cases none
      | false =>
          rw [List.countP_cons_of_neg (by simp [accepts])] at none
          rw [Runs.run_cons, next_unopened accepts]
          exact ih none

/-- A connection that has a state was accepted with it. -/
theorem accepted_at {events : List LwipEvent} {a : Addr} (there : (Runs.run next unopened events).addr = some a)
    (once : events.countP LwipEvent.isAccept ≤ 1) {ev : LwipEvent} (member : ev ∈ events) (accepts : ev.isAccept = true) :
    ∃ newpcb, ev = .accept newpcb true (some a) := by
  induction events with
  | nil => cases member
  | cons first events ih =>
      rw [Runs.run_cons] at there
      cases early : first.isAccept with
      | false =>
          rw [List.countP_cons_of_neg (by simp [early])] at once
          rw [next_unopened early] at there
          rcases List.mem_cons.mp member with rfl | later
          · rw [early] at accepts
            cases accepts
          · exact ih there once later
      | true =>
          rw [List.countP_cons_of_pos early] at once
          have none : events.countP LwipEvent.isAccept = 0 := by omega
          rcases List.mem_cons.mp member with rfl | later
          · have change := unopened.change ev
            generalize after : unopened.next ev = q, unopened.turn ev = t at change
            rw [after] at there
            cases change with
            | kept =>
                rw [run_unopened none] at there
                cases there
            | opened newpcb b =>
                have isOpen : receiving b .accepted ≠ unopened := by simp
                have same := run_addr isOpen there
                rw [addr, Option.some.injEq] at same
                exact ⟨newpcb, by rw [same]⟩
          · exact absurd accepts (List.countP_eq_zero.mp none ev later)

end Progress

end Roman
