import Mathlib.Data.List.Nodup
import Mathlib.Logic.Function.Basic
import Roman.Lib.Runs

/-! # Sessions

Many clients take turns. Each has a state that only its own actions move, and once an
action may commit something to what they share; whatever is shared does not come back
into the states of the clients. Then it does not matter how their actions interleave:
served one after another, in the order in which they commit, they commit the same.
-/

namespace Sessions

open Runs

variable {C A L D : Type} [DecidableEq C]

/-- How the actions of one client move its state, and what they commit. -/
structure Client (A L D : Type) where
  next : L → A → L
  commit : L → A → Option D

/-- What a client commits that is by itself. -/
abbrev Client.own (m : Client A L D) (l : L) (acts : List A) : List D := trace m.next m.commit l acts

section
variable (m : Client A L D) (key : A → Option C)

/-- An action moves the state of the client it belongs to. -/
def joint (ls : C → L) (a : A) : C → L :=
  match key a with
  | some c => Function.update ls c (m.next (ls c) a)
  | none => ls

def given (ls : C → L) (a : A) : Option (C × D) := (key a).bind fun c => (m.commit (ls c) a).map (c, ·)

/-- What is committed, and by whom. -/
abbrev commits (ls : C → L) (acts : List A) : List (C × D) := trace (joint m key) (given m key) ls acts

end

section
variable (key : A → Option C)

/-- The actions of one client. -/
def actionsOf (c : C) (acts : List A) : List A := acts.filter fun a => key a = some c

/-- The clients one after another, each with all its actions. -/
def serially (order : List C) (acts : List A) : List A := order.flatMap fun c => actionsOf key c acts

end

section
variable {key : A → Option C}

theorem actionsOf_cons (c : C) (a : A) (acts : List A) :
    actionsOf key c (a :: acts) = if key a = some c then a :: actionsOf key c acts else actionsOf key c acts := by
  unfold actionsOf
  by_cases own : key a = some c
  · rw [List.filter_cons_of_pos (by simp [own]), if_pos own]
  · rw [List.filter_cons_of_neg (by simp [own]), if_neg own]

theorem actionsOf_append (c : C) (first second : List A) :
    actionsOf key c (first ++ second) = actionsOf key c first ++ actionsOf key c second :=
  List.filter_append ..

theorem mem_actionsOf {c : C} {acts : List A} {a : A} : a ∈ actionsOf key c acts ↔ a ∈ acts ∧ key a = some c := by
  unfold actionsOf
  rw [List.mem_filter, decide_eq_true_eq]

/-- One client's actions are not another's. -/
theorem actionsOf_actionsOf (c d : C) (acts : List A) :
    actionsOf key c (actionsOf key d acts) = if c = d then actionsOf key c acts else [] := by
  by_cases same : c = d
  · rw [if_pos same, ← same]
    unfold actionsOf
    rw [List.filter_filter]
    simp only [Bool.and_self]
  · rw [if_neg same, actionsOf, List.filter_eq_nil_iff]
    intro a member own
    rw [decide_eq_true_eq, (mem_actionsOf.mp member).2, Option.some.injEq] at own
    exact same own.symm

/-- Served one after another each client does what it does. -/
theorem actionsOf_serially {order : List C} (once : order.Nodup) (acts : List A) (c : C) :
    actionsOf key c (serially key order acts) = if c ∈ order then actionsOf key c acts else [] := by
  induction order with
  | nil => rfl
  | cons d order ih =>
      rw [List.nodup_cons] at once
      have rest := ih once.2
      unfold serially at rest ⊢
      rw [List.flatMap_cons, actionsOf_append, actionsOf_actionsOf, rest]
      by_cases same : c = d
      · rw [if_pos same, if_neg (same ▸ once.1), if_pos (by simp [same]), List.append_nil]
      · rw [if_neg same, List.nil_append]
        simp only [List.mem_cons, same, false_or]

theorem mem_serially {order : List C} {acts : List A} {a : A} (member : a ∈ serially key order acts) : a ∈ acts := by
  obtain ⟨c, -, inside⟩ := List.mem_flatMap.mp member
  exact (mem_actionsOf.mp inside).1

end

/-- What belongs to one client. -/
def entriesOf {B : Type} (c : C) (xs : List (C × B)) : List B :=
  xs.filterMap fun x => if x.1 = c then some x.2 else none

section
variable {B : Type}

@[simp] theorem entriesOf_nil (c : C) : entriesOf c ([] : List (C × B)) = [] := rfl

theorem entriesOf_cons (c : C) (x : C × B) (xs : List (C × B)) :
    entriesOf c (x :: xs) = if x.1 = c then x.2 :: entriesOf c xs else entriesOf c xs := by
  unfold entriesOf
  by_cases own : x.1 = c
  · rw [List.filterMap_cons_some (by rw [if_pos own]), if_pos own]
  · rw [List.filterMap_cons_none (by rw [if_neg own]), if_neg own]

theorem entriesOf_append (c : C) (xs ys : List (C × B)) : entriesOf c (xs ++ ys) = entriesOf c xs ++ entriesOf c ys :=
  List.filterMap_append

theorem entriesOf_absent {c : C} {xs : List (C × B)} (absent : c ∉ xs.map Prod.fst) : entriesOf c xs = [] := by
  induction xs with
  | nil => rfl
  | cons x xs ih =>
      rw [List.map_cons, List.mem_cons, not_or] at absent
      rw [entriesOf_cons, if_neg (Ne.symm absent.1), ih absent.2]

theorem entriesOf_length (c : C) (xs : List (C × B)) : (entriesOf c xs).length = (xs.map Prod.fst).count c := by
  induction xs with
  | nil => rfl
  | cons x xs ih =>
      rw [entriesOf_cons, List.map_cons, List.count_cons]
      by_cases own : x.1 = c
      · rw [if_pos own, List.length_cons, ih, if_pos (beq_iff_eq.mpr own)]
      · rw [if_neg own, ih, if_neg (fun same => own (beq_iff_eq.mp same))]
        rfl

/-- A list in which every client comes once is put together again from the clients' parts. -/
theorem regroup {xs : List (C × B)} (once : (xs.map Prod.fst).Nodup) :
    (xs.map Prod.fst).flatMap (fun c => (entriesOf c xs).map (c, ·)) = xs := by
  induction xs with
  | nil => rfl
  | cons x xs ih =>
      rw [List.map_cons, List.nodup_cons] at once
      have others : ∀ c ∈ xs.map Prod.fst, (entriesOf c (x :: xs)).map (c, ·) = (entriesOf c xs).map (c, ·) := by
        intro c member
        have other : x.1 ≠ c := by
          rintro rfl
          exact once.1 member
        rw [entriesOf_cons, if_neg other]
      rw [List.map_cons, List.flatMap_cons, entriesOf_cons, if_pos rfl, entriesOf_absent once.1,
        List.flatMap_congr others, ih once.2]
      rfl

end

section
variable {m : Client A L D} {key : A → Option C}

theorem joint_own (ls : C → L) {a : A} {c : C} (owner : key a = some c) :
    joint m key ls a c = m.next (ls c) a := by
  unfold joint
  rw [owner]
  exact Function.update_self ..

theorem joint_other (ls : C → L) {a : A} {c : C} (other : key a ≠ some c) : joint m key ls a c = ls c := by
  unfold joint
  cases owner : key a with
  | none => rfl
  | some d =>
      refine Function.update_of_ne ?_ ..
      rintro rfl
      exact other owner

/-- A client's state after a run is where its own actions lead. -/
theorem run_joint (ls : C → L) (acts : List A) (c : C) :
    run (joint m key) ls acts c = run m.next (ls c) (actionsOf key c acts) := by
  induction acts generalizing ls with
  | nil => rfl
  | cons a acts ih =>
      rw [run_cons, ih, actionsOf_cons]
      by_cases owner : key a = some c
      · rw [if_pos owner, run_cons, joint_own ls owner]
      · rw [if_neg owner, joint_other ls owner]

/-- What a client commits in a run is what it commits by itself. -/
theorem entriesOf_commits (ls : C → L) (acts : List A) (c : C) :
    entriesOf c (commits m key ls acts) = m.own (ls c) (actionsOf key c acts) := by
  induction acts generalizing ls with
  | nil => rfl
  | cons a acts ih =>
      have rest := ih (joint m key ls a)
      unfold commits at rest ⊢
      rw [trace_cons, actionsOf_cons]
      by_cases owner : key a = some c
      · rw [joint_own ls owner] at rest
        rw [if_pos owner, Client.own, trace_cons, given, owner, Option.bind_some]
        cases m.commit (ls c) a with
        | none => exact rest
        | some x =>
            rw [Option.map_some, Option.toList_some, List.singleton_append, entriesOf_cons, if_pos rfl, rest]
            rfl
      · rw [joint_other ls owner] at rest
        rw [if_neg owner]
        cases step : given m key ls a with
        | none => exact rest
        | some x =>
            have other : x.1 ≠ c := by
              rintro rfl
              obtain ⟨d, owned, committed⟩ := Option.bind_eq_some_iff.mp step
              obtain ⟨y, -, rfl⟩ := Option.map_eq_some_iff.mp committed
              exact owner owned
            rw [Option.toList_some, List.singleton_append, entriesOf_cons, if_neg other, rest]

/-- One client alone moves its own state, and commits what it commits by itself. -/
theorem commits_block (ls : C → L) {c : C} {acts : List A} (own : ∀ a ∈ acts, key a = some c) :
    commits m key ls acts = (m.own (ls c) acts).map (c, ·) ∧
      run (joint m key) ls acts = Function.update ls c (run m.next (ls c) acts) := by
  induction acts generalizing ls with
  | nil =>
      refine ⟨rfl, ?_⟩
      rw [run_nil, run_nil, Function.update_eq_self]
  | cons a acts ih =>
      have owner := own a (List.mem_cons_self ..)
      have step : joint m key ls a = Function.update ls c (m.next (ls c) a) := by
        unfold joint
        rw [owner]
      obtain ⟨committed, after⟩ := ih (joint m key ls a) fun b member => own b (List.mem_cons_of_mem a member)
      rw [step, Function.update_self] at committed after
      constructor
      · unfold commits Client.own at committed ⊢
        rw [trace_cons, trace_cons, step, committed, List.map_append]
        simp only [given, owner, Option.bind_some]
        cases m.commit (ls c) a <;> rfl
      · rw [run_cons, run_cons, step, after, Function.update_idem]

/-- Served one after another, each client commits what it commits by itself. -/
theorem commits_serially {l : L} {order : List C} (once : order.Nodup) (acts : List A) {ls : C → L}
    (fresh : ∀ c ∈ order, ls c = l) :
    commits m key ls (serially key order acts) =
      order.flatMap fun c => (m.own l (actionsOf key c acts)).map (c, ·) := by
  induction order generalizing ls with
  | nil => rfl
  | cons c order ih =>
      rw [List.nodup_cons] at once
      have own : ∀ a ∈ actionsOf key c acts, key a = some c := fun a member => by
        simpa using (List.mem_filter.mp member).2
      obtain ⟨block, after⟩ := commits_block (m := m) ls own
      have later : ∀ d ∈ order, run (joint m key) ls (actionsOf key c acts) d = l := by
        intro d member
        have other : d ≠ c := by
          rintro rfl
          exact once.1 member
        rw [after, Function.update_of_ne other]
        exact fresh d (List.mem_cons_of_mem c member)
      have rest := ih once.2 later
      unfold commits at block rest ⊢
      rw [serially, List.flatMap_cons, trace_append, block, List.flatMap_cons, fresh c (List.mem_cons_self ..)]
      exact congrArg _ rest

theorem key_of_commits {ls : C → L} {acts : List A} {c : C} (committed : c ∈ (commits m key ls acts).map Prod.fst) :
    ∃ a ∈ acts, key a = some c := by
  have some := List.count_pos_iff.mpr committed
  rw [← entriesOf_length, entriesOf_commits] at some
  cases own : actionsOf key c acts with
  | nil =>
      rw [own] at some
      exact absurd some (Nat.lt_irrefl 0)
  | cons a rest =>
      obtain ⟨inside, owner⟩ := mem_actionsOf.mp (by rw [own]; exact List.mem_cons_self .. : a ∈ actionsOf key c acts)
      exact ⟨a, inside, owner⟩

section
variable {ended : L → Prop} (ends : ∀ l a d, m.commit l a = some d → ended (m.next l a))
  (stays : ∀ l a, ended l → m.commit l a = none ∧ ended (m.next l a))
include stays

theorem run_ended {l : L} (isEnded : ended l) (acts : List A) : ended (run m.next l acts) :=
  run_invariant ended isEnded acts fun l a _ isEnded => (stays l a isEnded).2

theorem own_ended {l : L} (isEnded : ended l) (acts : List A) : m.own l acts = [] := by
  induction acts generalizing l with
  | nil => rfl
  | cons a acts ih =>
      obtain ⟨none, still⟩ := stays l a isEnded
      rw [Client.own, trace_cons, none]
      exact ih still

include ends

/-- A client that is done once it has committed commits at most once. -/
theorem own_once (l : L) (acts : List A) : (m.own l acts).length ≤ 1 := by
  induction acts generalizing l with
  | nil => exact Nat.zero_le 1
  | cons a acts ih =>
      rw [Client.own, trace_cons]
      cases committed : m.commit l a with
      | none => exact ih (m.next l a)
      | some d =>
          have rest := own_ended stays (ends l a d committed) acts
          unfold Client.own at rest
          rw [rest]
          exact Nat.le_refl 1

/-- One that has committed is done. -/
theorem ended_of_own {l : L} {acts : List A} (committed : m.own l acts ≠ []) : ended (run m.next l acts) := by
  induction acts generalizing l with
  | nil => exact absurd rfl committed
  | cons a acts ih =>
      rw [Client.own, trace_cons] at committed
      rw [run_cons]
      cases commit : m.commit l a with
      | none =>
          rw [commit] at committed
          exact ih committed
      | some d => exact run_ended stays (ends l a d commit) acts

theorem ended_of_commits {ls : C → L} {acts : List A} {c : C} (committed : c ∈ (commits m key ls acts).map Prod.fst) :
    ended (run (joint m key) ls acts c) := by
  rw [run_joint]
  refine ended_of_own ends stays ?_
  rw [← entriesOf_commits, ← List.length_pos_iff, entriesOf_length]
  exact List.count_pos_iff.mpr committed

end

/-- If every client commits at most once by itself, none comes twice in what is committed. -/
theorem commits_once {l : L} {acts : List A} (once : ∀ c, (m.own l (actionsOf key c acts)).length ≤ 1) :
    ((commits m key (fun _ => l) acts).map Prod.fst).Nodup := by
  rw [List.nodup_iff_count_le_one]
  intro c
  rw [← entriesOf_length, entriesOf_commits]
  exact once c

/-- However the actions of the clients interleave, the clients commit the same one after
    another, if they come in the order in which they commit, and the others behind. -/
theorem commits_serial {l : L} {acts : List A} {rest : List C}
    (order : ((commits m key (fun _ => l) acts).map Prod.fst ++ rest).Nodup) :
    commits m key (fun _ => l) (serially key ((commits m key (fun _ => l) acts).map Prod.fst ++ rest) acts) =
      commits m key (fun _ => l) acts := by
  have parts : ∀ c, (m.own l (actionsOf key c acts)).map (c, ·) =
      (entriesOf c (commits m key (fun _ => l) acts)).map (c, ·) := fun c => by rw [entriesOf_commits]
  obtain ⟨first, -, apart⟩ := List.nodup_append.mp order
  have nothing : rest.flatMap (fun c => (entriesOf c (commits m key (fun _ => l) acts)).map (c, ·)) = [] := by
    rw [List.flatMap_eq_nil_iff]
    intro c member
    rw [entriesOf_absent fun inside => apart c inside c member rfl]
    rfl
  rw [commits_serially order acts fun _ _ => rfl]
  simp only [parts]
  rw [List.flatMap_append, nothing, regroup first, List.append_nil]

end

end Sessions
