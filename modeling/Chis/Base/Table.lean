import Mathlib.Data.List.Nodup

/-!
# Tables with a primary key

A table is a list of rows in which no two rows have the same key. Every operation keeps that, so
a lookup by key and membership say the same thing.
-/

namespace Relational

/-- Rows in physical order, with pairwise distinct keys. -/
structure Table {κ ρ : Type} (key : ρ → κ) where
  rows : List ρ
  nodup : (rows.map key).Nodup

namespace Table

variable {κ ρ : Type} {key : ρ → κ}

/-- The table without rows. -/
def empty : Table key := ⟨[], List.nodup_nil⟩

instance : Membership ρ (Table key) where
  mem t r := r ∈ t.rows

theorem mem_def (t : Table key) (r : ρ) : r ∈ t ↔ r ∈ t.rows := Iff.rfl

@[ext] theorem ext {s t : Table key} (h : s.rows = t.rows) : s = t := by
  cases s
  cases t
  congr

/-- The rows that satisfy a predicate: what `DELETE ... WHERE NOT p` leaves. -/
def filter (p : ρ → Bool) (t : Table key) : Table key :=
  ⟨t.rows.filter p, t.nodup.sublist (List.filter_sublist.map key)⟩

@[simp] theorem mem_filter (p : ρ → Bool) (t : Table key) (r : ρ) :
    r ∈ t.filter p ↔ r ∈ t ∧ p r = true := List.mem_filter

/-- Rows of one key are one row. -/
theorem eq_of_key (t : Table key) {r r' : ρ} (hr : r ∈ t) (hr' : r' ∈ t) (h : key r = key r') :
    r = r' := List.inj_on_of_nodup_map t.nodup hr hr' h

variable [DecidableEq κ]

/-- The row of a key: `SELECT ... WHERE key = k`. -/
def find? (t : Table key) (k : κ) : Option ρ := t.rows.find? fun r ↦ key r = k

/-- A lookup succeeds exactly with the row of that key. -/
theorem find?_eq_some_iff (t : Table key) (k : κ) (r : ρ) :
    t.find? k = some r ↔ r ∈ t ∧ key r = k := by
  constructor
  · intro h
    exact ⟨List.mem_of_find?_eq_some h, by simpa using List.find?_some h⟩
  · rintro ⟨hr, rfl⟩
    cases h : t.find? (key r) with
    | none =>
      have hn := List.find?_eq_none.mp h r hr
      simp at hn
    | some r' =>
      have hk : key r' = key r := by simpa using List.find?_some h
      rw [t.eq_of_key hr (List.mem_of_find?_eq_some h) hk.symm]

/-- A lookup fails exactly when no row has the key. -/
theorem find?_eq_none_iff (t : Table key) (k : κ) : t.find? k = none ↔ ∀ r ∈ t, key r ≠ k := by
  simp [find?, mem_def]

/-- Two tables with the same lookups have the same rows. -/
theorem mem_congr {s t : Table key} (h : ∀ k, s.find? k = t.find? k) (r : ρ) : r ∈ s ↔ r ∈ t := by
  have hs := s.find?_eq_some_iff (key r) r
  have ht := t.find?_eq_some_iff (key r) r
  simp only [and_true] at hs ht
  rw [← hs, ← ht, h]

@[simp] theorem find?_empty (k : κ) : (empty : Table key).find? k = none := rfl

/-- Filtering filters each lookup. -/
@[simp] theorem find?_filter (p : ρ → Bool) (t : Table key) (k : κ) :
    (t.filter p).find? k = (t.find? k).filter p := by
  ext r
  simp only [find?_eq_some_iff, mem_filter, Option.filter_eq_some_iff]
  tauto

/-- Add a row at the end, unless its key is taken. -/
def insert? (t : Table key) (r : ρ) : Option (Table key) :=
  if h : ∀ x ∈ t.rows, key x ≠ key r then
    some ⟨t.rows ++ [r], by
      rw [List.map_append, List.map_singleton]
      exact List.nodup_append.mpr ⟨t.nodup, by simp, by simpa using h⟩⟩
  else none

/-- An insertion succeeds exactly on a new key, and then appends the row. -/
theorem insert?_eq_some_iff (t t' : Table key) (r : ρ) :
    t.insert? r = some t' ↔ t.find? (key r) = none ∧ t'.rows = t.rows ++ [r] := by
  rw [find?_eq_none_iff]
  unfold insert?
  split
  · next h =>
    simp only [Option.some.injEq, Table.ext_iff]
    exact ⟨fun e ↦ ⟨h, e.symm⟩, fun e ↦ e.2.symm⟩
  · next h =>
    simp only [reduceCtorEq, false_iff, not_and]
    exact fun h' ↦ absurd h' h

/-- An insertion adds one row. -/
theorem mem_of_insert? {t t' : Table key} {r : ρ} (h : t.insert? r = some t') (r' : ρ) :
    r' ∈ t' ↔ r' ∈ t ∨ r' = r := by
  obtain ⟨-, hr⟩ := (t.insert?_eq_some_iff t' r).mp h
  rw [mem_def, hr, List.mem_append, List.mem_singleton, mem_def]

/-- An insertion answers lookups of the new key with the new row, and all others as before. -/
theorem find?_of_insert? {t t' : Table key} {r : ρ} (h : t.insert? r = some t') (k : κ) :
    t'.find? k = if key r = k then some r else t.find? k := by
  obtain ⟨hn, hr⟩ := (t.insert?_eq_some_iff t' r).mp h
  rw [find?, hr, List.find?_append]
  split
  · next hk =>
    subst hk
    change (t.find? (key r)).or _ = _
    simp [hn]
  · next hk =>
    simp [hk, find?]

/-- Change the row of key `k` by a function that keeps keys: `UPDATE ... WHERE key = k`. -/
def modify (t : Table key) (k : κ) (f : ρ → ρ) (hf : ∀ r, key (f r) = key r) : Table key :=
  ⟨t.rows.map fun r ↦ if key r = k then f r else r, by
    have he : (key ∘ fun r ↦ if key r = k then f r else r) = key := by
      funext r
      simp only [Function.comp_apply]
      split
      · exact hf r
      · rfl
    rw [List.map_map, he]
    exact t.nodup⟩

/-- An update changes the row of its key only. -/
theorem mem_modify (t : Table key) (k : κ) (f : ρ → ρ) (hf : ∀ r, key (f r) = key r) (r : ρ) :
    r ∈ t.modify k f hf ↔ ∃ r₀ ∈ t, r = if key r₀ = k then f r₀ else r₀ := by
  simp only [mem_def, modify, List.mem_map, eq_comm]

/-- A row after an update is another row than the one updated, or the new one. -/
theorem mem_modify_cases {t : Table key} {k : κ} {f : ρ → ρ} (hf : ∀ r, key (f r) = key r) {r : ρ}
    (h : r ∈ t.modify k f hf) : (r ∈ t ∧ key r ≠ k) ∨ ∃ r₀ ∈ t, key r₀ = k ∧ r = f r₀ := by
  obtain ⟨r₀, h₀, hr⟩ := (t.mem_modify k f hf r).mp h
  by_cases hk : key r₀ = k
  · rw [if_pos hk] at hr
    exact .inr ⟨r₀, h₀, hk, hr⟩
  · rw [if_neg hk] at hr
    exact .inl (hr ▸ ⟨h₀, hk⟩)

/-- A row that an update adds or removes is the new one or the one updated. -/
theorem modify_changed {t : Table key} {k : κ} {f : ρ → ρ} (hf : ∀ r, key (f r) = key r) {r : ρ}
    (h : ¬ (r ∈ t ↔ r ∈ t.modify k f hf)) :
    ∃ r₀ ∈ t, key r₀ = k ∧ f r₀ ∈ t.modify k f hf ∧ (r = r₀ ∨ r = f r₀) := by
  have hupdated {r₀ : ρ} (h₀ : r₀ ∈ t) (hk : key r₀ = k) : f r₀ ∈ t.modify k f hf :=
    (t.mem_modify k f hf _).mpr ⟨r₀, h₀, (if_pos hk).symm⟩
  by_cases hr : r ∈ t
  · have hk : key r = k := by
      by_contra hk
      exact h (iff_of_true hr ((t.mem_modify k f hf r).mpr ⟨r, hr, (if_neg hk).symm⟩))
    exact ⟨r, hr, hk, hupdated hr hk, .inl rfl⟩
  · have hr' : r ∈ t.modify k f hf := by
      by_contra hr'
      exact h (iff_of_false hr hr')
    rcases mem_modify_cases hf hr' with ⟨hr', -⟩ | ⟨r₀, h₀, hk, rfl⟩
    · exact absurd hr' hr
    · exact ⟨r₀, h₀, hk, hr', .inr rfl⟩

/-- An update changes the lookup of its key only. -/
@[simp] theorem find?_modify (t : Table key) (k : κ) (f : ρ → ρ) (hf : ∀ r, key (f r) = key r)
    (j : κ) : (t.modify k f hf).find? j = if k = j then (t.find? j).map f else t.find? j := by
  have hc : ((fun r ↦ decide (key r = j)) ∘ fun r ↦ if key r = k then f r else r) =
      fun r ↦ decide (key r = j) := by
    funext r
    simp only [Function.comp_apply]
    split
    · rw [hf]
    · rfl
  simp only [find?, modify, List.find?_map, hc]
  split
  · next hk =>
    subst hk
    cases h : t.rows.find? fun r ↦ key r = k with
    | none => rfl
    | some r =>
      have hr : key r = k := by simpa using List.find?_some h
      simp [hr]
  · next hk =>
    cases h : t.rows.find? fun r ↦ key r = j with
    | none => rfl
    | some r =>
      have hr : key r = j := by simpa using List.find?_some h
      simp [hr, Ne.symm hk]

end Table

end Relational
