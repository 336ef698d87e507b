import Chis.Base.Prog
import Mathlib.Logic.Function.Basic
import Mathlib.Logic.Relation

/-!
# Interleaved programs over a shared state

Any number of processes, each a program tree, take turns performing one operation at a time on a
shared state. `Safe` is the rely-guarantee judgement of one process: whatever the others do within
its rely, each of its operations keeps the invariant and stays within what the others rely on.
`System.sound` assembles the processes: every reachable configuration satisfies the invariant.
-/

namespace Program

open Relation

/-- A family of processes and the meaning of their operations. -/
structure System (ι σ : Type) (Op : Type) (Res : Op → Type) where
  /-- What one operation of process `i` may answer, and the state it may leave. -/
  exec : ι → (o : Op) → σ → Res o → σ → Prop
  /-- The program of each process. -/
  body : ι → Prog Op Res Unit
  /-- The processes that start again once their program has ended. -/
  loops : ι → Prop

/-- The shared state and what each process has still to run. -/
structure Config (ι σ : Type) (Op : Type) (Res : Op → Type) where
  state : σ
  procs : ι → Prog Op Res Unit

namespace System

variable {ι σ α β : Type} {Op : Type} {Res : Op → Type} [DecidableEq ι]

/-- One operation of one process, or a loop that starts again. -/
inductive Step (S : System ι σ Op Res) : Config ι σ Op Res → Config ι σ Op Res → Prop
  | act {c : Config ι σ Op Res} {i : ι} {o : Op} {k : Res o → Prog Op Res Unit} {r : Res o}
      {s' : σ} : c.procs i = .op o k → S.exec i o c.state r s' →
      S.Step c ⟨s', Function.update c.procs i (k r)⟩
  | again {c : Config ι σ Op Res} {i : ι} : S.loops i → c.procs i = .pure () →
      S.Step c ⟨c.state, Function.update c.procs i (S.body i)⟩

/-- All processes at the start of their programs. -/
def init (S : System ι σ Op Res) (s : σ) : Config ι σ Op Res := ⟨s, S.body⟩

/-- The configurations of the runs that start in state `s`. -/
def Reachable (S : System ι σ Op Res) (s : σ) (c : Config ι σ Op Res) : Prop :=
  ReflTransGen S.Step (S.init s) c

/-- An invariant that every step keeps holds in every reachable configuration. -/
theorem Reachable.induct {S : System ι σ Op Res} {s : σ} {I : Config ι σ Op Res → Prop}
    (h0 : I (S.init s)) (hs : ∀ c c', S.Reachable s c → I c → S.Step c c' → I c')
    {c : Config ι σ Op Res} (h : S.Reachable s c) : I c := by
  induction h with
  | refl => exact h0
  | tail hr hstep ih => exact hs _ _ hr ih hstep

/-- A process can be run to its end while the others wait. -/
theorem steps_of_runs {S : System ι σ Op Res} {i : ι} {p : Prog Op Res Unit} {a : Unit}
    {c : Config ι σ Op Res} {s' : σ} (hp : c.procs i = p) (h : p.Runs (S.exec i) c.state a s') :
    ReflTransGen S.Step c ⟨s', Function.update c.procs i (.pure a)⟩ := by
  induction p generalizing c with
  | pure b =>
    obtain ⟨rfl, rfl⟩ := h
    rw [← hp, Function.update_eq_self]
  | op o k ih =>
    obtain ⟨r, s₁, hx, hk⟩ := h
    have hrest := ih r (c := ⟨s₁, Function.update c.procs i (k r)⟩) (Function.update_self ..) hk
    rw [Function.update_idem] at hrest
    exact .head (.act hp hx) hrest

/-! ### Runs by schedule -/

section Schedule

variable {χ : Type}

/-- The next operation of process `i`, where a choice determines what it does. -/
def turn (step : ι → χ → (o : Op) → σ → Option (Res o × σ)) (c : Config ι σ Op Res) (i : ι)
    (ch : χ) : Option (Config ι σ Op Res) :=
  match c.procs i with
  | .op o k => (step i ch o c.state).map fun (r, s) ↦ ⟨s, Function.update c.procs i (k r)⟩
  | .pure _ => none

/-- A run, given by who takes each step and by the choices. -/
def play (step : ι → χ → (o : Op) → σ → Option (Res o × σ)) (c : Config ι σ Op Res) :
    List (ι × χ) → Option (Config ι σ Op Res)
  | [] => some c
  | (i, ch) :: rest => (turn step c i ch).bind fun c' ↦ play step c' rest

/-- A turn performs the next operation of its process. -/
theorem turn_inv {step : ι → χ → (o : Op) → σ → Option (Res o × σ)}
    {c c' : Config ι σ Op Res} {i : ι} {ch : χ} (h : turn step c i ch = some c') :
    ∃ o k r s', c.procs i = .op o k ∧ step i ch o c.state = some (r, s') ∧
      c' = ⟨s', Function.update c.procs i (k r)⟩ := by
  unfold turn at h
  split at h
  · next o k hp =>
    obtain ⟨⟨r, s'⟩, hs, rfl⟩ := Option.map_eq_some_iff.mp h
    exact ⟨o, k, r, s', hp, hs, rfl⟩
  · cases h

/-- What a schedule reaches is reached by steps. -/
theorem play_steps {S : System ι σ Op Res} {step : ι → χ → (o : Op) → σ → Option (Res o × σ)}
    (hx : ∀ i ch o s r s', step i ch o s = some (r, s') → S.exec i o s r s')
    {schedule : List (ι × χ)} {c c' : Config ι σ Op Res} (h : play step c schedule = some c') :
    ReflTransGen S.Step c c' := by
  induction schedule generalizing c with
  | nil =>
    cases h
    exact .refl
  | cons p rest ih =>
    obtain ⟨i, ch⟩ := p
    obtain ⟨c₁, h₁, h⟩ := Option.bind_eq_some_iff.mp h
    obtain ⟨o, k, r, s, hp, hs, rfl⟩ := turn_inv h₁
    exact .head (.act hp (hx _ _ _ _ _ _ hs)) (ih h)

end Schedule

end System

/-! ### Rely and guarantee -/

/-- A global invariant, and for each process what it relies on between its own operations. -/
structure Contract (ι σ : Type) where
  inv : σ → Prop
  rely : ι → σ → σ → Prop

namespace Contract

/-- One step of the environment of process `i`. -/
def Env {ι σ : Type} (C : Contract ι σ) (i : ι) (s s' : σ) : Prop := C.rely i s s' ∧ C.inv s'

end Contract

section Safe

variable {ι σ α β : Type} {Op : Type} {Res : Op → Type}

/-- Process `i` runs `p` safely from `s` and ends in `Q`, whatever its environment does: each of
its operations keeps the invariant and what every other process relies on. -/
def Safe (S : System ι σ Op Res) (C : Contract ι σ) (i : ι) (Q : α → σ → Prop) :
    Prog Op Res α → σ → Prop
  | .pure a, s => ∀ s', ReflTransGen (C.Env i) s s' → Q a s'
  | .op o k, s => ∀ s₁, ReflTransGen (C.Env i) s s₁ → C.inv s₁ → ∀ r s₂, S.exec i o s₁ r s₂ →
      C.inv s₂ ∧ (∀ j, j ≠ i → C.rely j s₁ s₂) ∧ Safe S C i Q (k r) s₂

variable {S : System ι σ Op Res} {C : Contract ι σ} {i : ι}

namespace Safe

/-- Safety is stable under the environment. -/
theorem env {Q : α → σ → Prop} {p : Prog Op Res α} {s s' : σ} (h : Safe S C i Q p s)
    (he : ReflTransGen (C.Env i) s s') : Safe S C i Q p s' := by
  cases p with
  | pure a => exact fun s₁ h₁ ↦ h s₁ (he.trans h₁)
  | op o k => exact fun s₁ h₁ ↦ h s₁ (he.trans h₁)

private theorem stable_env {P : σ → Prop}
    (hs : ∀ s s', P s → C.rely i s s' → C.inv s' → P s') {s s' : σ} (hp : P s)
    (he : ReflTransGen (C.Env i) s s') : P s' := by
  induction he with
  | refl => exact hp
  | tail _ hstep ih => exact hs _ _ ih hstep.1 hstep.2

/-- The rule of one operation: an assertion the environment keeps, and what the operation does
from it. -/
theorem op {Q : α → σ → Prop} {o : Op} {k : Res o → Prog Op Res α} {s : σ} (P : σ → Prop)
    (hp : P s) (stable : ∀ s s', P s → C.rely i s s' → C.inv s' → P s')
    (next : ∀ s r s', P s → C.inv s → S.exec i o s r s' →
      C.inv s' ∧ (∀ j, j ≠ i → C.rely j s s') ∧ Safe S C i Q (k r) s') :
    Safe S C i Q (.op o k) s := by
  intro s₁ he hi r s₂ hx
  exact next s₁ r s₂ (stable_env stable hp he) hi hx

/-- The rule of a finished program. -/
theorem done {Q : α → σ → Prop} {a : α} {s : σ} (hq : Q a s)
    (stable : ∀ s s', Q a s → C.rely i s s' → C.inv s' → Q a s') :
    Safe S C i Q (.pure a) s :=
  fun _ he ↦ stable_env stable hq he

/-- The rule of composition. -/
theorem bind {Q : α → σ → Prop} {R : β → σ → Prop} {p : Prog Op Res α}
    {f : α → Prog Op Res β} {s : σ} (hp : Safe S C i Q p s)
    (hf : ∀ a s, Q a s → Safe S C i R (f a) s) : Safe S C i R (p.bind f) s := by
  induction p generalizing s with
  | pure a => exact hf a s (hp s .refl)
  | op o k ih =>
    intro s₁ he hi r s₂ hx
    obtain ⟨h₂, hg, hk⟩ := hp s₁ he hi r s₂ hx
    exact ⟨h₂, hg, ih r hk⟩

/-- The rule of a loop over a list: what holds before an element holds before the next. -/
theorem forEach {f : α → Prog Op Res Unit} {P : List α → σ → Prop}
    (step : ∀ a rest s, P (a :: rest) s → Safe S C i (fun _ ↦ P rest) (f a) s)
    (stable : ∀ s s', P [] s → C.rely i s s' → C.inv s' → P [] s')
    (xs : List α) {s : σ} (h : P xs s) :
    Safe S C i (fun _ ↦ P []) (Prog.forEach f xs) s := by
  induction xs generalizing s with
  | nil => exact done h stable
  | cons a rest ih => exact bind (step a rest s h) fun _ s' h' ↦ ih h'

/-- A program whose every operation is harmless from any state of the invariant is safe. -/
theorem of_uses {Q : α → σ → Prop} {p : Prog Op Res α} {P : Op → Prop} (hu : p.Uses P)
    (hx : ∀ o s r s', P o → C.inv s → S.exec i o s r s' →
      C.inv s' ∧ ∀ j, j ≠ i → C.rely j s s')
    (hQ : ∀ a s, Q a s) (s : σ) : Safe S C i Q p s := by
  induction p generalizing s with
  | pure a => exact fun s' _ ↦ hQ a s'
  | op o k ih =>
    intro s₁ _ hi r s₂ he
    obtain ⟨h₂, hg⟩ := hx o s₁ r s₂ hu.1 hi he
    exact ⟨h₂, hg, ih r (hu.2 r) s₂⟩

end Safe

end Safe

/-! ### Soundness -/

section Sound

variable {ι σ : Type} {Op : Type} {Res : Op → Type} [DecidableEq ι]

/-- If each process is safe from the start, and each loop from any state in which it has ended,
then every reachable configuration satisfies the invariant and every process is still safe. -/
theorem System.sound {S : System ι σ Op Res} {C : Contract ι σ} {rest : ι → σ → Prop} {s₀ : σ}
    (h0 : C.inv s₀)
    (hstart : ∀ i, Safe S C i (fun _ ↦ rest i) (S.body i) s₀)
    (hagain : ∀ i, S.loops i → ∀ s, rest i s → C.inv s →
      Safe S C i (fun _ ↦ rest i) (S.body i) s)
    {c : Config ι σ Op Res} (h : S.Reachable s₀ c) :
    C.inv c.state ∧ ∀ i, Safe S C i (fun _ ↦ rest i) (c.procs i) c.state := by
  refine h.induct (I := fun c ↦ C.inv c.state ∧
    ∀ i, Safe S C i (fun _ ↦ rest i) (c.procs i) c.state) ⟨h0, hstart⟩ ?_
  rintro c c' - ⟨hi, hsafe⟩ hstep
  cases hstep with
  | @act i o k r s' hp hx =>
    have hs := hsafe i
    rw [hp] at hs
    obtain ⟨hi', hg, hk⟩ := hs c.state .refl hi r s' hx
    refine ⟨hi', fun j ↦ ?_⟩
    by_cases hj : j = i
    · subst hj
      simpa only [Function.update_self] using hk
    · simp only [Function.update_of_ne hj]
      exact (hsafe j).env (.single ⟨hg j hj, hi'⟩)
  | @again i hl hp =>
    refine ⟨hi, fun j ↦ ?_⟩
    by_cases hj : j = i
    · subst hj
      have hs := hsafe j
      rw [hp] at hs
      simpa only [Function.update_self] using hagain j hl c.state (hs c.state .refl) hi
    · simp only [Function.update_of_ne hj]
      exact hsafe j

end Sound

end Program
