import Chis.Base.Prog

/-!
# Two runs of a program

Two programs are alike, in two states, if the same choices make them do the same operations and end
with the same value. What an operation returns may differ, as long as what follows it is alike.
-/

namespace Program

namespace Prog

variable {Op : Type} {Res : Op → Type} {α β σ χ : Type}

/-- Alike under choices that satisfy `C`, with an end in states related by `R`. -/
inductive Alike (step : χ → (o : Op) → σ → Option (Res o × σ)) (C : χ → Prop) (R : σ → σ → Prop) :
    Prog Op Res α → σ → Prog Op Res α → σ → Prop
  | pure {a : α} {s s' : σ} : R s s' → Alike step C R (.pure a) s (.pure a) s'
  | op {o : Op} {k k' : Res o → Prog Op Res α} {s s' : σ} :
    (∀ ch, C ch → (step ch o s).isSome = (step ch o s').isSome) →
    (∀ ch r t r' t', C ch → step ch o s = some (r, t) → step ch o s' = some (r', t') →
      Alike step C R (k r) t (k' r') t') →
    Alike step C R (.op o k) s (.op o k') s'

namespace Alike

variable {step : χ → (o : Op) → σ → Option (Res o × σ)} {C : χ → Prop} {R : σ → σ → Prop}

/-- Alike programs end with the same value, or neither ends. -/
theorem play {p q : Prog Op Res α} {s s' : σ} (h : Alike step C R p s q s') {choices : List χ}
    (hc : ∀ ch ∈ choices, C ch) :
    (p.play step choices s).map Prod.fst = (q.play step choices s').map Prod.fst := by
  induction h generalizing choices with
  | pure _ => rfl
  | @op o k k' s s' hdone _ ih =>
    cases choices with
    | nil => rfl
    | cons ch rest =>
      have hch := hc ch List.mem_cons_self
      have hrest : ∀ ch ∈ rest, C ch := fun c hmem ↦ hc c (List.mem_cons_of_mem _ hmem)
      have hboth := hdone ch hch
      simp only [Prog.play]
      cases hs : step ch o s with
      | none =>
        cases hs' : step ch o s' with
        | none => rfl
        | some x =>
          rw [hs, hs'] at hboth
          cases hboth
      | some x =>
        rw [hs] at hboth
        obtain ⟨x', hs'⟩ := Option.isSome_iff_exists.mp hboth.symm
        rw [hs']
        exact ih ch x.1 x.2 x'.1 x'.2 hch hs hs' hrest

/-- A composition is alike if its parts are. -/
theorem bind {S : σ → σ → Prop} {p q : Prog Op Res α} {f g : α → Prog Op Res β} {s s' : σ}
    (h : Alike step C S p s q s')
    (hf : ∀ a t t', S t t' → Alike step C R (f a) t (g a) t') :
    Alike step C R (p.bind f) s (q.bind g) s' := by
  induction h with
  | pure hs => exact hf _ _ _ hs
  | op hdone _ ih => exact .op hdone ih

end Alike

end Prog

end Program
