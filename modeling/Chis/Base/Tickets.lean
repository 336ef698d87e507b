import Mathlib.Data.List.Basic
import Mathlib.Data.List.Nodup
import Mathlib.Data.List.Perm.Subperm

/-!
# Numbers drawn from counters

Holders draw numbers, each from the counter of a key. Where every counter goes up by one, no two
holders have the same number of one key, so at most `limit` of them have one up to `limit`.
-/

namespace Tickets

/-- A number that a holder has drawn from the counter of a key. -/
structure Ticket (ι κ : Type) where
  holder : ι
  key : κ
  number : Nat

variable {ι κ : Type} [DecidableEq κ]

/-- The numbers drawn from the counter of a key, the last one first. -/
def drawn (key : κ) (log : List (Ticket ι κ)) : List Nat :=
  (log.filter fun t ↦ t.key = key).map Ticket.number

/-- Each counter has counted from 1 without a gap. -/
def Counted (log : List (Ticket ι κ)) : Prop :=
  ∀ key, drawn key log = (List.range' 1 (drawn key log).length).reverse

theorem drawn_cons (key : κ) (t : Ticket ι κ) (log : List (Ticket ι κ)) :
    drawn key (t :: log) = if t.key = key then t.number :: drawn key log else drawn key log := by
  unfold drawn
  rw [List.filter_cons]
  split
  · next h => rw [if_pos (of_decide_eq_true h), List.map_cons]
  · next h => rw [if_neg (fun he ↦ h (decide_eq_true he))]

theorem counted_nil : Counted ([] : List (Ticket ι κ)) := fun _ ↦ rfl

/-- The next number of a counter. -/
theorem Counted.cons {log : List (Ticket ι κ)} (h : Counted log) {t : Ticket ι κ}
    (ht : t.number = (drawn t.key log).length + 1) : Counted (t :: log) := by
  intro key
  rw [drawn_cons]
  split
  · next he =>
    subst he
    rw [List.length_cons, List.range'_1_concat, List.reverse_append, ← h t.key, ht, Nat.add_comm]
    rfl
  · exact h key

/-- Two tickets of a key with the same number are one. -/
theorem Counted.inj {log : List (Ticket ι κ)} (h : Counted log) {t t' : Ticket ι κ}
    (ht : t ∈ log) (ht' : t' ∈ log) (hkey : t.key = t'.key) (hn : t.number = t'.number) : t = t' := by
  have hnodup : (drawn t'.key log).Nodup := by
    rw [h t'.key]
    exact List.nodup_reverse.mpr List.nodup_range'
  exact List.inj_on_of_nodup_map hnodup (List.mem_filter.mpr ⟨ht, decide_eq_true hkey⟩)
    (List.mem_filter.mpr ⟨ht', decide_eq_true rfl⟩) hn

/-- Numbers start at 1. -/
theorem Counted.pos {log : List (Ticket ι κ)} (h : Counted log) {t : Ticket ι κ} (ht : t ∈ log) :
    1 ≤ t.number := by
  have hmem : t.number ∈ drawn t.key log :=
    List.mem_map_of_mem (List.mem_filter.mpr ⟨ht, decide_eq_true rfl⟩)
  rw [h t.key, List.mem_reverse, List.mem_range'_1] at hmem
  exact hmem.1

/-- No more holders than numbers. -/
theorem Counted.length_le {log : List (Ticket ι κ)} (h : Counted log) {holders : List ι}
    (hnodup : holders.Nodup) {key : κ} {limit : Nat}
    (hold : ∀ i ∈ holders, ∃ n ≤ limit, (⟨i, key, n⟩ : Ticket ι κ) ∈ log) :
    holders.length ≤ limit := by
  have hchoice (i : ι) : ∃ n, i ∈ holders → n ≤ limit ∧ (⟨i, key, n⟩ : Ticket ι κ) ∈ log := by
    by_cases hi : i ∈ holders
    · obtain ⟨n, hn⟩ := hold i hi
      exact ⟨n, fun _ ↦ hn⟩
    · exact ⟨0, fun hm ↦ absurd hm hi⟩
  choose number hnumber using hchoice
  have hinj : (holders.map number).Nodup :=
    List.Nodup.map_on (fun i hi j hj he ↦ by
      have hone := h.inj (hnumber i hi).2 (hnumber j hj).2 rfl he
      exact congrArg Ticket.holder hone) hnodup
  have hsub : holders.map number ⊆ List.range' 1 limit := by
    intro n hn
    obtain ⟨i, hi, rfl⟩ := List.mem_map.mp hn
    have hpos := h.pos (hnumber i hi).2
    have hle := (hnumber i hi).1
    rw [List.mem_range'_1]
    change 1 ≤ number i at hpos
    omega
  have hlen := (List.subperm_of_subset hinj hsub).length_le
  rwa [List.length_map, List.length_range'] at hlen

end Tickets
