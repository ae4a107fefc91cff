import Mathlib.Data.List.Basic
import Mathlib.Tactic.Common

/-! # Runs of a deterministic system

Everything the environment decides is part of the action, so a step is a
function and a run is a list of actions. A condition on single steps may look at
the state before the step; `Along` says that every step of a run meets it.
-/

namespace Runs

variable {State Action : Type}

/-- The state after a list of actions. -/
def run (step : State → Action → State) (s : State) (acts : List Action) : State :=
  acts.foldl step s

/-- Every step of the run meets the condition, in the state it is taken from. -/
def Along (step : State → Action → State) (ok : State → Action → Prop) :
    State → List Action → Prop
  | _, [] => True
  | s, a :: acts => ok s a ∧ Along step ok (step s a) acts

variable {step : State → Action → State} {ok : State → Action → Prop}

@[simp] theorem run_nil (s : State) : run step s [] = s := rfl

@[simp] theorem run_cons (s : State) (a : Action) (acts : List Action) :
    run step s (a :: acts) = run step (step s a) acts := rfl

theorem run_append (s : State) (first second : List Action) :
    run step s (first ++ second) = run step (run step s first) second :=
  List.foldl_append

section
variable {Out : Type} {out : State → Action → Option Out}

/-- What the steps of a run give out, in order. -/
def trace (step : State → Action → State) (out : State → Action → Option Out) :
    State → List Action → List Out
  | _, [] => []
  | s, a :: acts => (out s a).toList ++ trace step out (step s a) acts

@[simp] theorem trace_nil (s : State) : trace step out s [] = [] := rfl

@[simp] theorem trace_cons (s : State) (a : Action) (acts : List Action) :
    trace step out s (a :: acts) = (out s a).toList ++ trace step out (step s a) acts := rfl

theorem trace_append (s : State) (first second : List Action) :
    trace step out s (first ++ second) = trace step out s first ++ trace step out (run step s first) second := by
  induction first generalizing s with
  | nil => rfl
  | cons a first ih =>
      rw [List.cons_append, trace_cons, trace_cons, run_cons, ih, List.append_assoc]

/-- Whatever is given out is given out at one step, after what comes before it. -/
theorem trace_split {s : State} {acts : List Action} {before after : List Out} {x : Out}
    (split : trace step out s acts = before ++ x :: after) :
    ∃ first a rest, acts = first ++ a :: rest ∧ trace step out s first = before ∧
      out (run step s first) a = some x ∧ trace step out (step (run step s first) a) rest = after := by
  induction acts generalizing s before with
  | nil =>
      rw [trace_nil] at split
      simp at split
  | cons a acts ih =>
      rw [trace_cons] at split
      cases given : out s a with
      | none =>
          rw [given, Option.toList_none, List.nil_append] at split
          obtain ⟨first, b, rest, rfl, eq, there, later⟩ := ih split
          refine ⟨a :: first, b, rest, rfl, ?_, there, later⟩
          rw [trace_cons, given, eq]
          rfl
      | some y =>
          rw [given, Option.toList_some, List.singleton_append] at split
          cases before with
          | nil =>
              rw [List.nil_append, List.cons.injEq] at split
              exact ⟨[], a, acts, rfl, rfl, by rw [run_nil, given, split.1], split.2⟩
          | cons z before =>
              rw [List.cons_append, List.cons.injEq] at split
              obtain ⟨first, b, rest, rfl, eq, there, later⟩ := ih split.2
              refine ⟨a :: first, b, rest, rfl, ?_, there, later⟩
              rw [trace_cons, given, eq, split.1]
              rfl

end

/-- A condition that holds of every action, whatever the state, holds along every run. -/
theorem along_of_forall {s : State} {acts : List Action} (all : ∀ s, ∀ a ∈ acts, ok s a) :
    Along step ok s acts := by
  induction acts generalizing s with
  | nil => trivial
  | cons a acts ih =>
      exact ⟨all s a (List.mem_cons_self ..), ih fun s b member => all s b (List.mem_cons_of_mem a member)⟩

/-- A property that every admitted step preserves holds at the end of every admitted run. -/
theorem Along.invariant (inv : State → Prop) {s : State} (start : inv s) {acts : List Action}
    (preserved : ∀ s, ∀ a ∈ acts, inv s → ok s a → inv (step s a)) (along : Along step ok s acts) :
    inv (run step s acts) := by
  induction acts generalizing s with
  | nil => exact start
  | cons a acts ih =>
      exact ih (preserved s a (List.mem_cons_self ..) start along.1)
        (fun s b member => preserved s b (List.mem_cons_of_mem a member)) along.2

/-- The same without a condition on the steps. -/
theorem run_invariant (inv : State → Prop) {s : State} (start : inv s) (acts : List Action)
    (preserved : ∀ s, ∀ a ∈ acts, inv s → inv (step s a)) : inv (run step s acts) := by
  induction acts generalizing s with
  | nil => exact start
  | cons a acts ih =>
      exact ih (preserved s a (List.mem_cons_self ..) start)
        fun s b member => preserved s b (List.mem_cons_of_mem a member)

/-- If from a good state exactly the admitted steps lead to good states, then all
    states of a run are good exactly when all its steps are admitted. -/
theorem along_iff (inv : State → Prop) {s : State} (start : inv s) (acts : List Action)
    (decides : ∀ s, ∀ a ∈ acts, inv s → (inv (step s a) ↔ ok s a)) :
    Along step ok s acts ↔ ∀ before, before <+: acts → inv (run step s before) := by
  induction acts generalizing s with
  | nil =>
      refine iff_of_true trivial fun before isPrefix => ?_
      rw [List.prefix_nil.mp isPrefix]
      exact start
  | cons a acts ih =>
      have here := fun s => decides s a (List.mem_cons_self ..)
      have later := fun s b member => decides s b (List.mem_cons_of_mem a member)
      constructor
      · rintro ⟨first, rest⟩ before isPrefix
        cases before with
        | nil => exact start
        | cons b before =>
            obtain ⟨rfl, shorter⟩ := List.cons_prefix_cons.mp isPrefix
            have next := (here s start).mpr first
            exact (ih next later).mp rest before shorter
      · intro all
        have next : inv (step s a) := all [a] (List.cons_prefix_cons.mpr ⟨rfl, List.nil_prefix⟩)
        exact ⟨(here s start).mp next, (ih next later).mpr fun before shorter =>
          all (a :: before) (List.cons_prefix_cons.mpr ⟨rfl, shorter⟩)⟩

/-- Two conditions that agree on the steps of a run, where an invariant holds, admit the same run. -/
theorem along_congr {ok' : State → Action → Prop} (inv : State → Prop) {s : State} (start : inv s)
    {acts : List Action} (preserved : ∀ s, ∀ a ∈ acts, inv s → inv (step s a))
    (same : ∀ s, ∀ a ∈ acts, inv s → (ok s a ↔ ok' s a)) : Along step ok s acts ↔ Along step ok' s acts := by
  induction acts generalizing s with
  | nil => exact Iff.rfl
  | cons a acts ih =>
      have member := List.mem_cons_self (a := a) (l := acts)
      have rest := ih (preserved s a member start) (fun s b inside => preserved s b (List.mem_cons_of_mem a inside))
        fun s b inside => same s b (List.mem_cons_of_mem a inside)
      exact and_congr (same s a member start) rest

theorem along_of_splits {s : State} {acts : List Action}
    (all : ∀ before a after, acts = before ++ a :: after → ok (run step s before) a) : Along step ok s acts := by
  induction acts generalizing s with
  | nil => trivial
  | cons a acts ih =>
      refine ⟨all [] a acts rfl, ih ?_⟩
      rintro before b after rfl
      exact all (a :: before) b after rfl

theorem Along.append {s : State} {first second : List Action} (along : Along step ok s first)
    (later : Along step ok (run step s first) second) : Along step ok s (first ++ second) := by
  induction first generalizing s with
  | nil => exact later
  | cons a first ih => exact ⟨along.1, ih along.2 later⟩

theorem Along.left {s : State} {first second : List Action}
    (along : Along step ok s (first ++ second)) : Along step ok s first := by
  induction first generalizing s with
  | nil => trivial
  | cons a first ih => exact ⟨along.1, ih along.2⟩

theorem Along.right {s : State} {first second : List Action}
    (along : Along step ok s (first ++ second)) : Along step ok (run step s first) second := by
  induction first generalizing s with
  | nil => exact along
  | cons a first ih => exact ih along.2

section
variable (inv locked : State → Prop) {fires : State → Action → Prop} {acts : List Action}

/-- Once an action has locked the system it stays locked, through every admitted step. -/
theorem Along.stays_locked {s : State} (start : inv s)
    (preserved : ∀ s a, inv s → inv (step s a))
    (locks : ∀ s a, inv s → fires s a → locked (step s a))
    (keeps : ∀ s, ∀ a ∈ acts, inv s → locked s → ok s a → locked (step s a))
    (along : Along step ok s acts) {first : List Action} {a : Action} (one : first ++ [a] <+: acts)
    (fired : fires (run step s first) a) : locked (run step s acts) := by
  obtain ⟨rest, rfl⟩ := one
  have before : inv (run step s first) := run_invariant inv start first fun s a _ => preserved s a
  have here : inv (run step s (first ++ [a])) ∧ locked (run step s (first ++ [a])) := by
    rw [run_append]
    exact ⟨preserved _ _ before, locks _ a before fired⟩
  rw [run_append]
  refine (Along.invariant (fun s => inv s ∧ locked s) here ?_ along.right).2
  intro s b member good admitted
  exact ⟨preserved s b good.1, keeps s b (by simp [member]) good.1 good.2 admitted⟩

/-- An action that locks itself out happens at most once in an admitted run. -/
theorem Along.once {s : State} (start : inv s) (preserved : ∀ s a, inv s → inv (step s a))
    (locks : ∀ s a, inv s → fires s a → locked (step s a))
    (keeps : ∀ s, ∀ a ∈ acts, inv s → locked s → ok s a → locked (step s a))
    (blocks : ∀ s a, locked s → ¬ fires s a)
    (along : Along step ok s acts) {first second : List Action} {a b : Action}
    (one : first ++ [a] <+: acts) (other : second ++ [b] <+: acts)
    (fired : fires (run step s first) a) (again : fires (run step s second) b) :
    first.length = second.length := by
  have excluded : ∀ {first second : List Action} {a b : Action}, first ++ [a] <+: acts →
      second ++ [b] <+: acts → fires (run step s first) a → fires (run step s second) b →
      ¬ first.length < second.length := by
    intro first second a b one other fired again shorter
    obtain ⟨rest, split⟩ := (List.prefix_append second [b]).trans other
    have earlier : first ++ [a] <+: second :=
      List.prefix_of_prefix_length_le one ⟨rest, split⟩ (by
        rw [List.length_append, List.length_singleton]
        exact shorter)
    have member : ∀ c ∈ second, c ∈ acts := fun c inside => by
      rw [← split]
      exact List.mem_append_left rest inside
    rw [← split] at along
    exact blocks _ b (Along.stays_locked inv locked start preserved locks
      (fun s c inside => keeps s c (member c inside)) along.left earlier fired) again
  have notBefore := excluded one other fired again
  have notAfter := excluded other one again fired
  omega

end

end Runs
