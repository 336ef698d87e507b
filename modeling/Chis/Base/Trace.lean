import Chis.Base.Interleave

/-!
# What a program has done before

`Traces P Q` speaks of the operations of one program only: each of them satisfies `P` after the
earlier ones, whatever their answers were. A run alone and a run among other processes both keep to
it.
-/

namespace Program

open Relation

/-- One operation with its answer. -/
abbrev Event {Op : Type} (Res : Op → Type) : Type := (o : Op) × Res o

namespace Prog

variable {Op : Type} {Res : Op → Type} {α β σ : Type}

/-- After the events `past`, newest first, every operation of the program satisfies `P`, and its
end satisfies `Q`. -/
def Traces (P : List (Event Res) → Op → Prop) (Q : List (Event Res) → α → Prop) :
    Prog Op Res α → List (Event Res) → Prop
  | .pure a, past => Q past a
  | .op o k, past => P past o ∧ ∀ r, (k r).Traces P Q (⟨o, r⟩ :: past)

/-- From `past` on, the program can come to the operation `o`, after the events `past'`. -/
def Performs (past' : List (Event Res)) (o : Op) : Prog Op Res α → List (Event Res) → Prop
  | .pure _, _ => False
  | .op o₀ k, past => (o = o₀ ∧ past' = past) ∨ ∃ r, (k r).Performs past' o (⟨o₀, r⟩ :: past)

variable {P : List (Event Res) → Op → Prop} {Q R : List (Event Res) → α → Prop}

@[simp] theorem traces_pure (a : α) (past : List (Event Res)) :
    (Prog.pure a : Prog Op Res α).Traces P Q past ↔ Q past a := Iff.rfl

@[simp] theorem traces_op (o : Op) (k : Res o → Prog Op Res α) (past : List (Event Res)) :
    (Prog.op o k).Traces P Q past ↔
      P past o ∧ ∀ r, (k r).Traces P Q (⟨o, r⟩ :: past) := Iff.rfl

/-- The second part of a composition goes on where the first has ended. -/
theorem traces_bind {Q : List (Event Res) → β → Prop} (p : Prog Op Res α) (f : α → Prog Op Res β)
    (past : List (Event Res)) :
    (p.bind f).Traces P Q past ↔ p.Traces P (fun past a ↦ (f a).Traces P Q past) past := by
  induction p generalizing past with
  | pure a => exact Iff.rfl
  | op o k ih => exact and_congr_right fun _ ↦ forall_congr' fun r ↦ ih r _

namespace Traces

/-- What a program promises of its operations, it keeps in each that it can come to. -/
theorem performs {p : Prog Op Res α} {past past' : List (Event Res)} {o : Op}
    (h : p.Traces P Q past) (ho : p.Performs past' o past) : P past' o := by
  induction p generalizing past with
  | pure a => exact ho.elim
  | op o₀ k ih =>
    rcases ho with ⟨rfl, rfl⟩ | ⟨r, ho⟩
    · exact h.1
    · exact ih r (h.2 r) ho

theorem mono {P' : List (Event Res) → Op → Prop} (hP : ∀ past o, P past o → P' past o)
    (hQ : ∀ past a, Q past a → R past a) {p : Prog Op Res α} {past : List (Event Res)}
    (h : p.Traces P Q past) : p.Traces P' R past := by
  induction p generalizing past with
  | pure a => exact hQ past a h
  | op o k ih => exact ⟨hP past o h.1, fun r ↦ ih r (h.2 r)⟩

/-- A program all of whose operations are allowed at any time. -/
theorem of_uses {U : Op → Prop} (hU : ∀ past o, U o → P past o) (hQ : ∀ past a, Q past a)
    {p : Prog Op Res α} (h : p.Uses U) (past : List (Event Res)) : p.Traces P Q past := by
  induction p generalizing past with
  | pure a => exact hQ past a
  | op o k ih => exact ⟨hU past o h.1, fun r ↦ ih r (h.2 r) _⟩

theorem uses {U : Op → Prop} {p : Prog Op Res α} {past : List (Event Res)}
    (h : p.Traces (fun _ o ↦ U o) Q past) : p.Uses U := by
  induction p generalizing past with
  | pure a => trivial
  | op o k ih => exact ⟨h.1, fun r ↦ ih r (h.2 r)⟩

/-- Run alone, a program takes a state that fits its past to one that fits what it has done. -/
theorem wp {exec : (o : Op) → σ → Res o → σ → Prop} {I : List (Event Res) → σ → Prop}
    (step : ∀ past o s r s', I past s → exec o s r s' → P past o → I (⟨o, r⟩ :: past) s')
    {p : Prog Op Res α} {past : List (Event Res)} {s : σ} (h : p.Traces P Q past)
    (hI : I past s) : p.wp exec (fun a s' ↦ ∃ past', I past' s' ∧ Q past' a) s := by
  induction p generalizing past s with
  | pure a => exact ⟨past, hI, h⟩
  | op o k ih => exact fun r s' hx ↦ ih r (h.2 r) (step past o s r s' hI hx h.1)

end Traces

end Prog

/-! ### Among other processes -/

section Processes

variable {ι σ : Type} {Op : Type} {Res : Op → Type}

/-- Every operation satisfies `P` after the earlier ones. -/
def Valid (P : List (Event Res) → Op → Prop) : List (Event Res) → Prop
  | [] => True
  | e :: past => P past e.1 ∧ Valid P past

/-- An operation of a valid past is justified by the events before it. -/
theorem Valid.justified {P : List (Event Res) → Op → Prop} {past : List (Event Res)}
    (h : Valid P past) {e : Event Res} (he : e ∈ past) :
    ∃ newer older, past = newer ++ e :: older ∧ P older e.1 := by
  induction past with
  | nil => cases he
  | cons e' past ih =>
    cases he with
    | head => exact ⟨[], past, rfl, h.1⟩
    | tail _ he =>
      obtain ⟨newer, older, rfl, hP⟩ := ih h.2 he
      exact ⟨e' :: newer, older, rfl, hP⟩

theorem Valid.split {P : List (Event Res) → Op → Prop} {newer older : List (Event Res)}
    {e : Event Res} (h : Valid P (newer ++ e :: older)) : P older e.1 := by
  induction newer with
  | nil => exact h.1
  | cons _ newer ih => exact ih h.2

namespace System

variable [DecidableEq ι] {S : System ι σ Op Res}

/-- `past` tells from a state what each process has done. -/
def Records (S : System ι σ Op Res) (past : σ → ι → List (Event Res)) : Prop :=
  ∀ i o s r s', S.exec i o s r s' →
    past s' i = ⟨o, r⟩ :: past s i ∧ ∀ j, j ≠ i → past s' j = past s j

variable {past : σ → ι → List (Event Res)} {s₀ : σ} {c c' : Config ι σ Op Res}

omit [DecidableEq ι] in
/-- The operation of a step is justified by the events before it. -/
theorem Records.justified (hr : S.Records past) {P : List (Event Res) → Op → Prop} {i : ι} {o : Op}
    {s s' : σ} {r : Res o} (hv : Valid P (past s' i)) (hx : S.exec i o s r s') : P (past s i) o := by
  rw [(hr i o s r s' hx).1] at hv
  exact hv.1

/-- What the processes have done stays in their past. -/
theorem Records.subset (hr : S.Records past) (h : ReflTransGen S.Step c c') (i : ι) :
    past c.state i ⊆ past c'.state i := by
  induction h with
  | refl => exact List.Subset.refl _
  | tail _ hstep ih =>
    refine List.Subset.trans ih ?_
    cases hstep with
    | @act j o k r s' _ hx =>
      obtain ⟨hi, hj⟩ := hr j o _ r s' hx
      by_cases h : i = j
      · rw [h, hi]
        exact List.subset_cons_self _ _
      · rw [hj i h]
        exact List.Subset.refl _
    | again => exact List.Subset.refl _

/-- Whatever the other processes do, the operations of a process satisfy what its program promises,
and so will those it has still to perform. A loop starts again where its last turn has ended. -/
theorem Records.traces_again (hr : S.Records past) {P : ι → List (Event Res) → Op → Prop}
    {Q : ι → List (Event Res) → Unit → Prop} (h0 : ∀ i, past s₀ i = [])
    (hstart : ∀ i, (S.body i).Traces (P i) (Q i) [])
    (hagain : ∀ i p, S.loops i → Q i p () → (S.body i).Traces (P i) (Q i) p)
    (h : S.Reachable s₀ c) (i : ι) :
    (c.procs i).Traces (P i) (Q i) (past c.state i) ∧ Valid (P i) (past c.state i) := by
  refine h.induct (I := fun c ↦ ∀ i, (c.procs i).Traces (P i) (Q i) (past c.state i) ∧
    Valid (P i) (past c.state i)) (fun i ↦ ?_) (fun c c' _ ih hstep i ↦ ?_) i
  · rw [init, h0 i]
    exact ⟨hstart i, trivial⟩
  · cases hstep with
    | @act j o k r s' hp hx =>
      obtain ⟨hi, hj⟩ := hr j o _ r s' hx
      by_cases h : i = j
      · subst h
        obtain ⟨ht, hv⟩ := ih i
        rw [hp] at ht
        simp only [Function.update_self, hi]
        exact ⟨ht.2 r, ht.1, hv⟩
      · simp only [Function.update_of_ne h, hj i h]
        exact ih i
    | @again j hl hp =>
      by_cases h : i = j
      · subst h
        obtain ⟨ht, hv⟩ := ih i
        rw [hp] at ht
        simp only [Function.update_self]
        exact ⟨hagain i _ hl ht, hv⟩
      · simp only [Function.update_of_ne h]
        exact ih i

theorem Records.traces (hr : S.Records past) {P : ι → List (Event Res) → Op → Prop}
    {Q : ι → List (Event Res) → Unit → Prop} (h0 : ∀ i, past s₀ i = [])
    (hbody : ∀ i p, S.loops i ∨ p = [] → (S.body i).Traces (P i) (Q i) p)
    (h : S.Reachable s₀ c) (i : ι) :
    (c.procs i).Traces (P i) (Q i) (past c.state i) ∧ Valid (P i) (past c.state i) :=
  hr.traces_again h0 (fun i ↦ hbody i [] (.inr rfl)) (fun i p hl _ ↦ hbody i p (.inl hl)) h i

theorem Records.valid (hr : S.Records past) {P : ι → List (Event Res) → Op → Prop}
    (h0 : ∀ i, past s₀ i = [])
    (hbody : ∀ i p, S.loops i ∨ p = [] → (S.body i).Traces (P i) (fun _ _ ↦ True) p)
    (h : S.Reachable s₀ c) (i : ι) :
    Valid (P i) (past c.state i) := (hr.traces (Q := fun _ _ _ ↦ True) h0 hbody h i).2

/-- Every event of a run happened in a step of it, after the events before it. -/
theorem Records.happened_after (hr : S.Records past) (h0 : ∀ i, past s₀ i = [])
    (h : S.Reachable s₀ c) {i : ι} {e : Event Res} {newer older : List (Event Res)}
    (he : past c.state i = newer ++ e :: older) :
    ∃ c₀ c₁, S.Reachable s₀ c₀ ∧ past c₀.state i = older ∧ S.exec i e.1 c₀.state e.2 c₁.state ∧
      S.Step c₀ c₁ ∧ ReflTransGen S.Step c₁ c := by
  induction h generalizing newer with
  | refl =>
    rw [init, h0 i] at he
    exact absurd he.symm (List.append_ne_nil_of_right_ne_nil _ (List.cons_ne_nil _ _))
  | @tail c c' hreach hstep ih =>
    have hold {newer : List (Event Res)} (he : past c.state i = newer ++ e :: older) :
        ∃ c₀ c₁, S.Reachable s₀ c₀ ∧ past c₀.state i = older ∧
          S.exec i e.1 c₀.state e.2 c₁.state ∧ S.Step c₀ c₁ ∧ ReflTransGen S.Step c₁ c' := by
      obtain ⟨c₀, c₁, h₀, hp, hx, hs, h₁⟩ := ih he
      exact ⟨c₀, c₁, h₀, hp, hx, hs, h₁.tail hstep⟩
    cases hstep with
    | @act j o k r s' hp hx =>
      obtain ⟨hi, hj⟩ := hr j o _ r s' hx
      by_cases h : i = j
      · subst h
        rw [hi] at he
        cases newer with
        | nil =>
          cases he
          exact ⟨c, _, hreach, rfl, hx, .act hp hx, .refl⟩
        | cons e' newer => exact hold (List.cons.inj he).2
      · rw [hj i h] at he
        exact hold he
    | again => exact hold he

theorem Records.happened (hr : S.Records past) (h0 : ∀ i, past s₀ i = []) (h : S.Reachable s₀ c)
    {i : ι} {e : Event Res} (he : e ∈ past c.state i) :
    ∃ c₀ c₁, S.Reachable s₀ c₀ ∧ S.exec i e.1 c₀.state e.2 c₁.state ∧ S.Step c₀ c₁ ∧
      ReflTransGen S.Step c₁ c := by
  obtain ⟨newer, older, he⟩ := List.append_of_mem he
  obtain ⟨c₀, c₁, h₀, -, hx, hs, h₁⟩ := hr.happened_after h0 h he
  exact ⟨c₀, c₁, h₀, hx, hs, h₁⟩

/-- What an operation leaves has come from what was there before, or from the operation itself. Then
everything goes back to an event. -/
theorem Records.goes_back (hr : S.Records past) {α : Type} {I : σ → α → Prop}
    {E : α → Event Res → Prop} (h0 : ∀ x, ¬ I s₀ x)
    (hexec : ∀ i o s r s', S.exec i o s r s' → ∀ x, I s' x →
      (∃ x₀, I s x₀ ∧ ∀ e, E x₀ e → E x e) ∨ E x ⟨o, r⟩)
    (h : S.Reachable s₀ c) {x : α} (hx : I c.state x) :
    ∃ i, ∃ e ∈ past c.state i, E x e := by
  induction h generalizing x with
  | refl => exact absurd hx (h0 x)
  | @tail c c' _ hstep ih =>
    cases hstep with
    | @act i o k r s' _ hexec' =>
      obtain ⟨hi, hj⟩ := hr i o _ r s' hexec'
      rcases hexec i o _ r s' hexec' x hx with ⟨x₀, hx₀, hE⟩ | hE
      · obtain ⟨j, e, he, hxe⟩ := ih hx₀
        apply Exists.intro j
        apply Exists.intro e
        by_cases h : j = i
        · subst h
          rw [hi]
          exact ⟨List.mem_cons_of_mem _ he, hE e hxe⟩
        · rw [hj j h]
          exact ⟨he, hE e hxe⟩
      · refine ⟨i, ⟨o, r⟩, ?_, hE⟩
        rw [hi]
        exact List.mem_cons_self
    | again => exact ih hx

end System

end Processes

end Program
