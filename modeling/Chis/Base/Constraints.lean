import Chis.Base.Table

/-!
# Constraints on tables

A foreign key refers to rows of another table and a `UNIQUE` constraint tells rows apart by more than
their key. Each operation on a table keeps both, an insertion under the condition that is checked
for it and a deletion together with its cascade.
-/

namespace Relational

namespace Table

variable {κ κ' ρ ρ' β : Type} {key : ρ → κ} {key' : ρ' → κ'}

/-! ### Foreign keys -/

/-- Every row refers to a row of the target. -/
def Refers (t : Table key) (ref : ρ → κ') (target : Table key') : Prop :=
  ∀ r ∈ t, ∃ x ∈ target, key' x = ref r

theorem refers_empty (ref : ρ → κ') (target : Table key') :
    Refers (empty : Table key) ref target := by
  intro r hr
  cases hr

section Keep

variable {t : Table key} {ref : ρ → κ'} {target target' : Table key'}

/-- A target may change as long as no key is lost. -/
theorem Refers.retarget (h : t.Refers ref target)
    (hkeys : ∀ x ∈ target, ∃ x' ∈ target', key' x' = key' x) : t.Refers ref target' := by
  intro r hr
  obtain ⟨x, hx, he⟩ := h r hr
  obtain ⟨x', hx', he'⟩ := hkeys x hx
  exact ⟨x', hx', he'.trans he⟩

/-- Deleting rows keeps what the others refer to. -/
theorem Refers.subset {t' : Table key} (h : t.Refers ref target) (hsub : ∀ r ∈ t', r ∈ t) :
    t'.Refers ref target := fun r hr ↦ h r (hsub r hr)

/-- `ON DELETE CASCADE`: the rows that refer to a deleted row go with it. -/
theorem Refers.cascade [DecidableEq κ'] (h : t.Refers ref target) (k : κ') :
    (t.filter fun r ↦ ref r ≠ k).Refers ref (target.filter fun x ↦ key' x ≠ k) := by
  intro r hr
  obtain ⟨hr, hk⟩ := (mem_filter _ _ _).mp hr
  obtain ⟨x, hx, he⟩ := h r hr
  refine ⟨x, (mem_filter _ _ _).mpr ⟨hx, ?_⟩, he⟩
  rw [he]
  exact hk

/-- An insertion that has been checked. -/
theorem Refers.insert [DecidableEq κ] {t' : Table key} {r : ρ} (h : t.Refers ref target)
    (hins : t.insert? r = some t') (hr : ∃ x ∈ target, key' x = ref r) :
    t'.Refers ref target := by
  intro r' hr'
  rcases (mem_of_insert? hins r').mp hr' with hr' | rfl
  · exact h r' hr'
  · exact hr

/-- An update that does not touch the foreign key. -/
theorem Refers.modify [DecidableEq κ] {k : κ} {f : ρ → ρ} (h : t.Refers ref target)
    (hf : ∀ r, key (f r) = key r) (href : ∀ r, ref (f r) = ref r) : (t.modify k f hf).Refers ref target := by
  intro r hr
  rcases mem_modify_cases hf hr with ⟨hr, -⟩ | ⟨r₀, h₀, -, rfl⟩
  · exact h r hr
  · rw [href]
    exact h r₀ h₀

theorem insert_keys [DecidableEq κ'] {x : ρ'} (hins : target.insert? x = some target') :
    ∀ y ∈ target, ∃ y' ∈ target', key' y' = key' y :=
  fun y hy ↦ ⟨y, (mem_of_insert? hins y).mpr (.inl hy), rfl⟩

theorem modify_keys [DecidableEq κ'] {k : κ'} {f : ρ' → ρ'} (hf : ∀ x, key' (f x) = key' x) :
    ∀ y ∈ target, ∃ y' ∈ target.modify k f hf, key' y' = key' y := by
  intro y hy
  refine ⟨_, (mem_modify _ _ _ _ _).mpr ⟨y, hy, rfl⟩, ?_⟩
  split
  · exact hf y
  · rfl

end Keep

/-! ### Unique columns -/

/-- Rows with the same value are the same row. -/
def Distinct (t : Table key) (f : ρ → β) : Prop := ∀ r ∈ t, ∀ r' ∈ t, f r = f r' → r = r'

theorem distinct_empty (f : ρ → β) : Distinct (empty : Table key) f := by
  intro r hr
  cases hr

section Keep

variable {t t' : Table key} {f : ρ → β}

theorem Distinct.subset (h : t.Distinct f) (hsub : ∀ r ∈ t', r ∈ t) : t'.Distinct f :=
  fun r hr r' hr' he ↦ h r (hsub r hr) r' (hsub r' hr') he

variable [DecidableEq κ]

/-- An insertion that has been checked. -/
theorem Distinct.insert {r : ρ} (h : t.Distinct f) (hins : t.insert? r = some t')
    (hnew : ∀ r' ∈ t, f r' ≠ f r) : t'.Distinct f := by
  intro r₁ h₁ r₂ h₂ he
  rcases (mem_of_insert? hins r₁).mp h₁ with h₁ | rfl
  · rcases (mem_of_insert? hins r₂).mp h₂ with h₂ | rfl
    · exact h r₁ h₁ r₂ h₂ he
    · exact absurd he (hnew r₁ h₁)
  · rcases (mem_of_insert? hins r₂).mp h₂ with h₂ | rfl
    · exact absurd he.symm (hnew r₂ h₂)
    · rfl

/-- An update that does not touch the unique columns. -/
theorem Distinct.modify {k : κ} {g : ρ → ρ} (h : t.Distinct f)
    (hg : ∀ r, key (g r) = key r) (hf : ∀ r, f (g r) = f r) : (t.modify k g hg).Distinct f := by
  intro r₁ h₁ r₂ h₂ he
  obtain ⟨s₁, hs₁, rfl⟩ := (mem_modify _ _ _ _ _).mp h₁
  obtain ⟨s₂, hs₂, rfl⟩ := (mem_modify _ _ _ _ _).mp h₂
  have hsame : ∀ s, f (if key s = k then g s else s) = f s := by
    intro s
    split
    · exact hf s
    · rfl
  rw [hsame, hsame] at he
  rw [h s₁ hs₁ s₂ hs₂ he]

end Keep

/-! ### Keys in use -/

/-- Every key in use satisfies `P`. -/
def Keys (t : Table key) (P : κ → Prop) : Prop := ∀ r ∈ t, P (key r)

section Keep

variable {t t' : Table key} {P Q : κ → Prop}

theorem keys_empty : (empty : Table key).Keys P := by
  intro r hr
  cases hr

theorem Keys.mono (h : t.Keys P) (hPQ : ∀ k, P k → Q k) : t.Keys Q := fun r hr ↦ hPQ _ (h r hr)

theorem Keys.subset (h : t.Keys P) (hsub : ∀ r ∈ t', r ∈ t) : t'.Keys P :=
  fun r hr ↦ h r (hsub r hr)

variable [DecidableEq κ]

theorem Keys.insert {r : ρ} (h : t.Keys P) (hins : t.insert? r = some t') (hr : P (key r)) :
    t'.Keys P := by
  intro r' hr'
  rcases (mem_of_insert? hins r').mp hr' with hr' | rfl
  · exact h r' hr'
  · exact hr

theorem Keys.modify {k : κ} {f : ρ → ρ} (h : t.Keys P) (hf : ∀ r, key (f r) = key r) :
    (t.modify k f hf).Keys P := by
  intro r hr
  rcases mem_modify_cases hf hr with ⟨hr, -⟩ | ⟨r₀, h₀, -, rfl⟩
  · exact h r hr
  · rw [hf]
    exact h r₀ h₀

end Keep

end Table

end Relational
