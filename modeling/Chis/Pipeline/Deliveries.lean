import Chis.Pipeline.Protocol
import Mathlib.Data.List.Basic

/-!
# The deliveries of a message

In a valid history where a message stands tells which deliveries it has had: all but the last were
refused, there are at most six, and the backoff lies between a refusal and the next start.
-/

namespace Chis.Pipeline

/-- The delivery was answered without a 2xx status. -/
def Delivery.Refused (d : Delivery) : Prop := ∃ t, d.answer = some (false, t)

/-- Between a refusal and the next delivery the backoff passes. -/
def Spaced (ds : List Delivery) : Prop :=
  ∀ k d d' t, ds[k]? = some d → ds[k + 1]? = some d' → d.answer = some (false, t) →
    t + delay k ≤ d'.start

/-- All `n` deliveries so far were refused, and `due` is late enough for the next. -/
structure Waiting (ds : List Delivery) (n : Nat) (due : Time) : Prop where
  length : ds.length = n
  bound : n ≤ 5
  refused : ∀ d ∈ ds, d.Refused
  spaced : Spaced ds
  due : ∀ k d t, ds[k]? = some d → k + 1 = n → d.answer = some (false, t) → t + delay k ≤ due

/-- The last delivery is `d`, after `n` refused ones. -/
def Turn (ds : List Delivery) (n : Nat) (d : Delivery) : Prop :=
  ∃ prev due, Waiting prev n due ∧ due ≤ d.start ∧ ds = prev ++ [d]

theorem waiting_nil (due : Time) : Waiting [] 0 due := by
  constructor <;> simp [Spaced]

theorem Waiting.mono {ds : List Delivery} {n : Nat} {due due' : Time} (hw : Waiting ds n due)
    (hd : due ≤ due') : Waiting ds n due' :=
  { hw with due := fun k d t hk hn ha ↦ le_trans (hw.due k d t hk hn ha) hd }

namespace Turn

variable {ds : List Delivery} {n : Nat} {d : Delivery}

theorem length (ht : Turn ds n d) : ds.length = n + 1 := by
  obtain ⟨prev, due, hw, -, rfl⟩ := ht
  rw [List.length_append, hw.length, List.length_singleton]

theorem bound (ht : Turn ds n d) : n ≤ 5 := by
  obtain ⟨prev, due, hw, -, -⟩ := ht
  exact hw.bound

/-- Only the last delivery may have been anything but refused. -/
theorem refused (ht : Turn ds n d) : ∀ d' ∈ ds.dropLast, d'.Refused := by
  obtain ⟨prev, due, hw, -, rfl⟩ := ht
  rw [List.dropLast_concat]
  exact hw.refused

theorem last (ht : Turn ds n d) : ds.getLast? = some d := by
  obtain ⟨prev, due, -, -, rfl⟩ := ht
  exact List.getLast?_concat

theorem spaced (ht : Turn ds n d) : Spaced ds := by
  obtain ⟨prev, due, hw, hd, rfl⟩ := ht
  intro k e e' t hk hk' ha
  have hlen : k + 1 < (prev ++ [d]).length := (List.getElem?_eq_some_iff.mp hk').1
  rw [List.length_append, List.length_singleton] at hlen
  rw [List.getElem?_append_left (by omega)] at hk
  by_cases hlast : k + 1 < prev.length
  · rw [List.getElem?_append_left hlast] at hk'
    exact hw.spaced k e e' t hk hk' ha
  · have hkn : k + 1 = prev.length := by omega
    rw [hkn, List.getElem?_concat_length] at hk'
    cases hk'
    exact le_trans (hw.due k e t hk (hkn.trans hw.length) ha) hd

/-- A refused delivery leaves the message waiting for the backoff. -/
theorem park {t due : Time} (ht : Turn ds n d) (hd : d.answer = some (false, t)) (hn : n < 5)
    (hdue : t + delay n ≤ due) : Waiting ds (n + 1) due := by
  refine ⟨ht.length, by omega, ?_, ht.spaced, ?_⟩
  · obtain ⟨prev, due, hw, -, rfl⟩ := ht
    intro d' hm
    rcases List.mem_append.mp hm with hm | hm
    · exact hw.refused d' hm
    · rw [List.mem_singleton.mp hm]
      exact ⟨t, hd⟩
  · intro k d' t' hk hkn ha
    obtain ⟨prev, due, hw, -, rfl⟩ := ht
    have hk' : k = prev.length := by
      rw [hw.length]
      omega
    rw [hk', List.getElem?_concat_length] at hk
    cases hk
    rw [hd] at ha
    cases ha
    rw [hk', hw.length]
    exact hdue

/-- The answer of the delivery under way. -/
theorem answer {w : Nat} {start t : Time} {ok : Bool} (ht : Turn ds n ⟨w, start, none⟩) :
    Turn (ds.map (Delivery.answeredBy w ok t)) n ⟨w, start, some (ok, t)⟩ := by
  obtain ⟨prev, due, hw, hd, rfl⟩ := ht
  refine ⟨prev, due, hw, hd, ?_⟩
  rw [List.map_append]
  congr 1
  · conv_rhs => rw [← List.map_id prev]
    refine List.map_congr_left fun d hm ↦ ?_
    obtain ⟨t, ha⟩ := hw.refused d hm
    simp [Delivery.answeredBy, ha]
  · simp [Delivery.answeredBy]

end Turn

/-- The deliveries a message has had, by where it stands. -/
def Told (ds : List Delivery) : Life → Prop
  | .absent | .accepted _ => ds = []
  | .queued n due | .held _ n due | .parked n due | .listed n due => Waiting ds n due
  | .sent w n => ∃ start, Turn ds n ⟨w, start, none⟩
  | .answered w n ok since => ∃ start, Turn ds n ⟨w, start, some (ok, since)⟩
  | .settled st => (st = .failed ∧ ds = []) ∨ ∃ n d t ok, Turn ds n d ∧ d.answer = some (ok, t) ∧
      (st = .success ∧ ok = true ∨ st = .failed ∧ ok = false ∧ n = 5)
  | .lost | .dropped => (∃ n due, Waiting ds n due) ∨ ∃ n d, Turn ds n d ∧ d.answer ≠ none

variable {h : History} {t : Time} {ev : Event} {m : Uuid} {ds : List Delivery} {ℓ : Life}

theorem Told.enqueue (ht : Told ds ℓ) : Told ds (ℓ.enqueue t) := by
  cases ℓ with
  | accepted c =>
    cases (show ds = [] from ht)
    exact waiting_nil t
  | _ => exact ht

theorem Told.list (ht : Told ds ℓ) : Told ds ℓ.list := by
  cases ℓ <;> exact ht

theorem Told.write_scheduler {msg : Message} (ht : Told ds ℓ) :
    Told ds (ℓ.write msg .scheduler) := by
  cases ℓ with
  | parked n due => exact .inl ⟨n, due, ht⟩
  | settled st =>
    obtain ⟨-, rfl⟩ | ⟨n, d, t, ok, ht, ha, -⟩ := ht
    · exact .inl ⟨0, 0, waiting_nil 0⟩
    · exact .inr ⟨n, d, ht, by simp [ha]⟩
  | _ => exact ht

/-- A worker's outcome after a refusal. -/
theorem Told.write_worker {msg : Message} {w n : Nat} {since : Time}
    (ht : Told ds (.answered w n false since)) (hr : Refusal n since msg) :
    Told ds (Life.write msg (.worker w) (.answered w n false since)) := by
  obtain ⟨start, ht⟩ := ht
  rcases hr with ⟨hs, hn, -, due, hdue, hd⟩ | ⟨hs, hn⟩
  · simp only [Life.write, hs, if_true, hdue, Option.getD_some]
    exact ht.park rfl (by unfold Worker.maxAttempts at hn; omega) hd
  · have h5 : n = 5 := by
      have := ht.bound
      unfold Worker.maxAttempts at hn
      omega
    simp only [Life.write, hs, reduceCtorEq, if_false]
    exact .inr ⟨n, _, since, false, ht, rfl, .inr ⟨rfl, rfl, h5⟩⟩

/-- In a valid history the deliveries of each message are as where it stands tells. -/
theorem told {h : History} (hv : Valid h) (m : Uuid) : Told (deliveries h m) (life h m) := by
  induction h with
  | nil => rfl
  | cons e h ih =>
    obtain ⟨ev, t⟩ := e
    obtain ⟨hv, ha⟩ := hv
    have ih := ih hv
    rw [life_cons, deliveries_cons]
    cases ev with
    | inserted c id =>
      simp only [deliveriesNext, Life.next]
      split
      · next he =>
        subst he
        rw [ha.1] at ih
        exact ih
      · exact ih
    | pushed i id =>
      simp only [deliveriesNext, Life.next]
      split
      · exact ih.enqueue
      · exact ih
    | popped w id =>
      simp only [deliveriesNext, Life.next]
      split
      · next he =>
        subst he
        obtain ⟨-, n, due, hl⟩ := ha
        rw [hl] at ih ⊢
        exact ih
      · exact ih
    | missing w id =>
      simp only [deliveriesNext, Life.next]
      split
      · next he =>
        subst he
        rcases ha with ⟨n, due, hl⟩ | ⟨n, since, hl⟩
        · rw [hl] at ih
          exact .inl ⟨n, due, ih⟩
        · rw [hl] at ih
          obtain ⟨start, ih⟩ := ih
          exact .inr ⟨n, _, ih, by simp⟩
      · exact ih
    | started w id =>
      simp only [deliveriesNext, Life.next]
      split
      · next he =>
        subst he
        obtain ⟨n, due, hl, hd⟩ := ha
        rw [hl] at ih ⊢
        exact ⟨t, deliveries h id, due, ih, hd, rfl⟩
      · exact ih
    | answered w id ok =>
      simp only [deliveriesNext, Life.next]
      split
      · next he =>
        subst he
        obtain ⟨n, hl⟩ := ha
        rw [hl] at ih ⊢
        obtain ⟨start, ih⟩ := ih
        exact ⟨start, ih.answer⟩
      · exact ih
    | marked w id st =>
      simp only [deliveriesNext, Life.next]
      split
      · next he =>
        subst he
        rcases ha with ⟨rfl, due, hl⟩ | ⟨rfl, n, since, hl⟩
        · rw [hl] at ih
          exact .inl ⟨rfl, List.eq_nil_of_length_eq_zero ih.length⟩
        · rw [hl] at ih
          obtain ⟨start, ih⟩ := ih
          exact .inr ⟨n, _, since, true, ih, rfl, .inl ⟨rfl, rfl⟩⟩
      · exact ih
    | updated i msg =>
      simp only [deliveriesNext, Life.next]
      split
      · next he =>
        subst he
        cases i with
        | worker w =>
          obtain ⟨n, since, hl, hr⟩ := ha
          rw [hl] at ih ⊢
          exact ih.write_worker hr
        | scheduler => exact ih.write_scheduler
        | client c => exact ha.elim
      · exact ih
    | listed msgs =>
      simp only [deliveriesNext, Life.next]
      split
      · exact ih.list
      · exact ih
    | other => exact ih
end Chis.Pipeline
