import Mathlib.Logic.Basic

/-!
# Program trees over atomic operations

A program performs operations from a signature `Op`, each answered by a value of `Res o`, and
chooses what to do next from the answer. Programs carry no meaning of their own: `wp` runs one
alone over a state, and the interleaved meaning is given in `Chis.Base.Interleave`.
-/

namespace Program

/-- A finite program: a result, or one operation and what follows each of its answers. -/
inductive Prog (Op : Type) (Res : Op → Type) (α : Type) : Type where
  | pure (a : α)
  | op (o : Op) (k : Res o → Prog Op Res α)

namespace Prog

variable {Op : Type} {Res : Op → Type} {α β γ σ : Type}

/-- Sequential composition. -/
def bind : Prog Op Res α → (α → Prog Op Res β) → Prog Op Res β
  | .pure a, f => f a
  | .op o k, f => .op o fun r ↦ (k r).bind f

instance : Monad (Prog Op Res) where
  pure := .pure
  bind := bind

/-- Perform one operation and return its answer. -/
def call (o : Op) : Prog Op Res (Res o) := .op o .pure

/-- Run a program for each element of a list, in order. -/
def forEach (f : α → Prog Op Res Unit) : List α → Prog Op Res Unit
  | [] => .pure ()
  | a :: rest => (f a).bind fun _ ↦ forEach f rest

@[simp] theorem monad_pure (a : α) : (Pure.pure a : Prog Op Res α) = .pure a := rfl

@[simp] theorem monad_bind (p : Prog Op Res α) (f : α → Prog Op Res β) : p >>= f = p.bind f := rfl

@[simp] theorem bind_pure (a : α) (f : α → Prog Op Res β) : (Prog.pure a).bind f = f a := rfl

@[simp] theorem bind_op (o : Op) (k : Res o → Prog Op Res α) (f : α → Prog Op Res β) :
    (Prog.op o k).bind f = .op o fun r ↦ (k r).bind f := rfl

@[simp] theorem bind_call (o : Op) (f : Res o → Prog Op Res β) :
    (call o).bind f = .op o f := rfl

/-- Composition is associative. -/
@[simp] theorem bind_bind (p : Prog Op Res α) (f : α → Prog Op Res β) (g : β → Prog Op Res γ) :
    (p.bind f).bind g = p.bind fun a ↦ (f a).bind g := by
  induction p with
  | pure a => rfl
  | op o k ih =>
    simp only [bind_op]
    congr 1
    funext r
    exact ih r

/-! ### Programs over part of the signature -/

/-- Every operation the program can perform satisfies `P`. -/
def Uses (P : Op → Prop) : Prog Op Res α → Prop
  | .pure _ => True
  | .op o k => P o ∧ ∀ r, (k r).Uses P

@[simp] theorem uses_pure (P : Op → Prop) (a : α) : (Prog.pure a : Prog Op Res α).Uses P := trivial

@[simp] theorem uses_op (P : Op → Prop) (o : Op) (k : Res o → Prog Op Res α) :
    (Prog.op o k).Uses P ↔ P o ∧ ∀ r, (k r).Uses P := Iff.rfl

/-- A composition uses what its parts use. -/
theorem Uses.bind {P : Op → Prop} {p : Prog Op Res α} {f : α → Prog Op Res β}
    (hp : p.Uses P) (hf : ∀ a, (f a).Uses P) : (p.bind f).Uses P := by
  induction p with
  | pure a => exact hf a
  | op o k ih => exact ⟨hp.1, fun r ↦ ih r (hp.2 r)⟩

theorem uses_anything (p : Prog Op Res α) : p.Uses fun _ ↦ True := by
  induction p with
  | pure a => trivial
  | op o k ih => exact ⟨trivial, ih⟩

theorem Uses.mono {P Q : Op → Prop} (h : ∀ o, P o → Q o) {p : Prog Op Res α} (hp : p.Uses P) :
    p.Uses Q := by
  induction p with
  | pure a => trivial
  | op o k ih => exact ⟨h o hp.1, fun r ↦ ih r (hp.2 r)⟩

/-! ### Running alone -/

section Alone

variable (exec : (o : Op) → σ → Res o → σ → Prop)

/-- The program, run alone from `s`, can end with result `a` in state `s'`. -/
def Runs : Prog Op Res α → σ → α → σ → Prop
  | .pure b, s, a, s' => a = b ∧ s' = s
  | .op o k, s, a, s' => ∃ r s₁, exec o s r s₁ ∧ (k r).Runs s₁ a s'

/-- Weakest precondition of a program run alone: every way to end satisfies `Q`. -/
def wp (Q : α → σ → Prop) : Prog Op Res α → σ → Prop
  | .pure a, s => Q a s
  | .op o k, s => ∀ r s₁, exec o s r s₁ → (k r).wp Q s₁

variable {exec}

@[simp] theorem wp_pure (Q : α → σ → Prop) (a : α) (s : σ) :
    (Prog.pure a : Prog Op Res α).wp exec Q s ↔ Q a s := Iff.rfl

@[simp] theorem wp_op (Q : α → σ → Prop) (o : Op) (k : Res o → Prog Op Res α) (s : σ) :
    (Prog.op o k).wp exec Q s ↔ ∀ r s₁, exec o s r s₁ → (k r).wp exec Q s₁ := Iff.rfl

/-- The precondition of a composition is that of its first part. -/
@[simp] theorem wp_bind (Q : β → σ → Prop) (p : Prog Op Res α) (f : α → Prog Op Res β) (s : σ) :
    (p.bind f).wp exec Q s ↔ p.wp exec (fun a s' ↦ (f a).wp exec Q s') s := by
  induction p generalizing s with
  | pure a => exact Iff.rfl
  | op o k ih => exact forall_congr' fun r ↦ forall_congr' fun s₁ ↦ imp_congr_right fun _ ↦ ih r s₁

/-- A weaker postcondition has a weaker precondition. -/
theorem wp.mono {Q R : α → σ → Prop} (h : ∀ a s, Q a s → R a s) {p : Prog Op Res α} {s : σ}
    (hp : p.wp exec Q s) : p.wp exec R s := by
  induction p generalizing s with
  | pure a => exact h a s hp
  | op o k ih => exact fun r s₁ he ↦ ih r (hp r s₁ he)

/-- Two postconditions hold together. -/
theorem wp.and {Q R : α → σ → Prop} {p : Prog Op Res α} {s : σ} (hq : p.wp exec Q s)
    (hr : p.wp exec R s) : p.wp exec (fun a s' ↦ Q a s' ∧ R a s') s := by
  induction p generalizing s with
  | pure a => exact ⟨hq, hr⟩
  | op o k ih => exact fun r s₁ he ↦ ih r (hq r s₁ he) (hr r s₁ he)

/-- A loop over a list: what holds before an element holds before the next. -/
theorem wp_forEach {f : α → Prog Op Res Unit} {P : List α → σ → Prop}
    (step : ∀ a rest s, P (a :: rest) s → (f a).wp exec (fun _ ↦ P rest) s) (xs : List α) {s : σ}
    (h : P xs s) : (forEach f xs).wp exec (fun _ ↦ P []) s := by
  induction xs generalizing s with
  | nil => exact h
  | cons a rest ih =>
    rw [forEach, wp_bind]
    exact wp.mono (fun _ s' h' ↦ ih h') (step a rest s h)

/-- Every run ends in the postcondition of a precondition that holds at its start. -/
theorem Runs.post {Q : α → σ → Prop} {p : Prog Op Res α} {s s' : σ} {a : α}
    (hr : p.Runs exec s a s') (hp : p.wp exec Q s) : Q a s' := by
  induction p generalizing s with
  | pure b =>
    obtain ⟨rfl, rfl⟩ := hr
    exact hp
  | op o k ih =>
    obtain ⟨r, s₁, he, hk⟩ := hr
    exact ih r hk (hp r s₁ he)

/-- The program, run alone from `s`, has come to `p'` in state `s'`, where it may go on, have ended
or have been stopped. -/
inductive Path (exec : (o : Op) → σ → Res o → σ → Prop) :
    Prog Op Res α → σ → Prog Op Res α → σ → Prop
  | here (p : Prog Op Res α) (s : σ) : Path exec p s p s
  | step {o : Op} {k : Res o → Prog Op Res α} {s : σ} {r : Res o} {s₁ : σ} {p' : Prog Op Res α}
      {s' : σ} : exec o s r s₁ → Path exec (k r) s₁ p' s' → Path exec (.op o k) s p' s'

/-- `R` holds at the start, between any two operations and at the end of a program run alone. -/
def Always (exec : (o : Op) → σ → Res o → σ → Prop) (R : Prog Op Res α → σ → Prop) :
    Prog Op Res α → σ → Prop
  | .pure a, s => R (.pure a) s
  | .op o k, s => R (.op o k) s ∧ ∀ r s₁, exec o s r s₁ → Always exec R (k r) s₁

/-- What always holds, holds wherever the program has come. -/
theorem Path.always {R : Prog Op Res α → σ → Prop} {p p' : Prog Op Res α} {s s' : σ}
    (h : Path exec p s p' s') (ha : p.Always exec R s) : R p' s' := by
  induction h with
  | here p s =>
    cases p with
    | pure a => exact ha
    | op o k => exact ha.1
  | step hx _ ih => exact ih (ha.2 _ _ hx)

/-- A program that has ended took one operation after the other to its result. -/
theorem Runs.path {p : Prog Op Res α} {s s' : σ} {a : α} (h : p.Runs exec s a s') :
    Path exec p s (.pure a) s' := by
  induction p generalizing s with
  | pure b =>
    obtain ⟨rfl, rfl⟩ := h
    exact .here _ _
  | op o k ih =>
    obtain ⟨r, s₁, he, hk⟩ := h
    exact .step he (ih r hk)

theorem Runs.mono {exec' : (o : Op) → σ → Res o → σ → Prop}
    (hx : ∀ o s r s', exec o s r s' → exec' o s r s') {p : Prog Op Res α} {s s' : σ} {a : α}
    (h : p.Runs exec s a s') : p.Runs exec' s a s' := by
  induction p generalizing s with
  | pure b => exact h
  | op o k ih =>
    obtain ⟨r, s₁, he, hk⟩ := h
    exact ⟨r, s₁, hx _ _ _ _ he, ih r hk⟩

/-- A run alone, given by choices that determine what each operation does. -/
def play {χ : Type} (step : χ → (o : Op) → σ → Option (Res o × σ)) :
    Prog Op Res α → List χ → σ → Option (α × σ)
  | .pure a, _, s => some (a, s)
  | .op _ _, [], _ => none
  | .op o k, ch :: rest, s => (step ch o s).bind fun (r, s₁) ↦ (k r).play step rest s₁

theorem Runs.of_play {χ : Type} {step : χ → (o : Op) → σ → Option (Res o × σ)}
    (hx : ∀ ch o s r s', step ch o s = some (r, s') → exec o s r s') {p : Prog Op Res α}
    {choices : List χ} {s s' : σ} {a : α} (h : p.play step choices s = some (a, s')) :
    p.Runs exec s a s' := by
  induction p generalizing s choices with
  | pure b =>
    cases h
    exact ⟨rfl, rfl⟩
  | op o k ih =>
    cases choices with
    | nil => cases h
    | cons ch rest =>
      obtain ⟨⟨r, s₁⟩, hstep, h⟩ := Option.bind_eq_some_iff.mp h
      exact ⟨r, s₁, hx _ _ _ _ _ hstep, ih r h⟩

end Alone

end Prog

end Program
