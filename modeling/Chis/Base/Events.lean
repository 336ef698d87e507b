/-!
# Machines that react to events

A machine reacts to an event in a state, or refuses it. A run may be held to a condition on each
event and the state that it meets.
-/

namespace Events

variable {σ ε : Type}

/-- The states that events lead to, where each of them meets the condition. -/
inductive Run (step : σ → ε → Option σ) (ok : σ → ε → Prop) (s₀ : σ) : σ → Prop
  | start : Run step ok s₀ s₀
  | event {s s' : σ} (e : ε) : Run step ok s₀ s → ok s e → step s e = some s' → Run step ok s₀ s'

variable {step : σ → ε → Option σ} {ok : σ → ε → Prop} {s₀ s : σ}

/-- What every event keeps holds throughout a run. -/
theorem Run.invariant {I : σ → Prop} (h : Run step ok s₀ s) (h0 : I s₀)
    (hs : ∀ s e s', I s → ok s e → step s e = some s' → I s') : I s := by
  induction h with
  | start => exact h0
  | event e _ hok hstep ih => exact hs _ e _ ih hok hstep

/-- The state after a list of events. -/
def play (step : σ → ε → Option σ) (s : σ) : List ε → Option σ
  | [] => some s
  | e :: es => (step s e).bind fun s' ↦ play step s' es

/-- Every event of a list meets the condition. -/
def Meets (step : σ → ε → Option σ) (ok : σ → ε → Prop) (s : σ) : List ε → Prop
  | [] => True
  | e :: es => ok s e ∧ ∀ s', step s e = some s' → Meets step ok s' es

private theorem Run.play_from {es : List ε} {s' : σ} (hr : Run step ok s₀ s)
    (h : play step s es = some s') (hok : Meets step ok s es) : Run step ok s₀ s' := by
  induction es generalizing s with
  | nil =>
    cases h
    exact hr
  | cons e es ih =>
    obtain ⟨s₁, h₁, h⟩ := Option.bind_eq_some_iff.mp h
    exact ih (.event e hr hok.1 h₁) h (hok.2 s₁ h₁)

/-- A list of events that meet the condition makes a run. -/
theorem Run.of_play {es : List ε} (h : play step s₀ es = some s) (hok : Meets step ok s₀ es) :
    Run step ok s₀ s :=
  .play_from .start h hok

theorem meets_true (es : List ε) : Meets step (fun _ _ ↦ True) s es := by
  induction es generalizing s with
  | nil => trivial
  | cons e es ih => exact ⟨trivial, fun _ _ ↦ ih⟩

end Events
