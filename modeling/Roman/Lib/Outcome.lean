import Roman.Lib.NorFlash

/-! # Programs that may lose power

A computation on flash either returns or is cut short, and then flash is all that
is left of it. `Lift` relates two such computations through what they return.
-/

namespace NorFlash

/-- A function that uses flash returns, or the power fails in it. -/
inductive Outcome (α : Type) where
  | done (result : α)
  | cut (flash : Flash)

namespace Outcome

variable {α β γ δ : Type}

def map (g : α → β) : Outcome α → Outcome β
  | .done a => .done (g a)
  | .cut f => .cut f

@[simp] theorem map_done (g : α → β) (a : α) : (done a).map g = .done (g a) := rfl

@[simp] theorem map_cut (g : α → β) (f : Flash) : (cut f : Outcome α).map g = .cut f := rfl

theorem map_map (g : α → β) (h : β → γ) (o : Outcome α) : (o.map g).map h = o.map (h ∘ g) := by
  cases o <;> rfl

/-- An outcome that returns after a map returned before it. -/
theorem map_done_iff {g : α → β} {o : Outcome α} {b : β} : o.map g = .done b ↔ ∃ a, o = .done a ∧ g a = b := by
  cases o with
  | done a => simp
  | cut f => simp

theorem map_cut_iff {g : α → β} {o : Outcome α} {f : Flash} : o.map g = .cut f ↔ o = .cut f := by
  cases o with
  | done a => simp
  | cut f' => simp

theorem of_map_done {g : α → β} {o : Outcome α} {b : β} (done : o.map g = .done b) : ∃ a, g a = b := by
  obtain ⟨a, -, eq⟩ := map_done_iff.mp done
  exact ⟨a, eq⟩

theorem map_congr {g h : α → β} (same : ∀ a, g a = h a) (o : Outcome α) : o.map g = o.map h := by
  cases o with
  | cut f => rfl
  | done a => exact congrArg done (same a)

/-- Two outcomes that agree on the cut and are related in what they return. -/
inductive Lift (R : α → β → Prop) : Outcome α → Outcome β → Prop where
  | done {a : α} {b : β} (related : R a b) : Lift R (.done a) (.done b)
  | cut (f : Flash) : Lift R (.cut f) (.cut f)

theorem lift_map {R : γ → δ → Prop} {g : α → γ} {h : β → δ} {o : Outcome α} {o' : Outcome β} :
    Lift R (o.map g) (o'.map h) ↔ Lift (fun a b => R (g a) (h b)) o o' := by
  constructor
  · intro lift
    cases o <;> cases o' <;> cases lift
    · rename_i related
      exact .done related
    · exact .cut _
  · intro lift
    cases lift with
    | done related => exact .done related
    | cut f => exact .cut f

theorem Lift.mono {R S : α → β → Prop} (weaker : ∀ a b, R a b → S a b) {o : Outcome α}
    {o' : Outcome β} (lift : Lift R o o') : Lift S o o' := by
  cases lift with
  | done related => exact .done (weaker _ _ related)
  | cut f => exact .cut f

theorem lift_self {R : α → α → Prop} (refl : ∀ a, R a a) (o : Outcome α) : Lift R o o := by
  cases o with
  | cut f => exact .cut f
  | done a => exact .done (refl a)

/-- Both computations return, and what they return is related. -/
inductive BothReturn (R : α → β → Prop) : Outcome α → Outcome β → Prop where
  | done {a : α} {b : β} (related : R a b) : BothReturn R (.done a) (.done b)

theorem BothReturn.map {R : α → β → Prop} {S : γ → δ → Prop} {g : α → γ} {h : β → δ} {o : Outcome α}
    {o' : Outcome β} (both : BothReturn R o o') (mono : ∀ a b, R a b → S (g a) (h b)) :
    BothReturn S (o.map g) (o'.map h) := by
  cases both with
  | done related => exact .done (mono _ _ related)

end Outcome

end NorFlash
