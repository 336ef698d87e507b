import Chis.Pipeline.Tokens

/-!
# Outcomes and the scheduler's copies

The scheduler writes back whole rows that are as old as its round. While no outcome is written for
a message between its push and that write, the write does no harm: no message is lost, and no
final status is undone.
-/

namespace Chis.Pipeline

/-- The status an event writes as the outcome of a delivery. -/
def Event.outcome : Event → Option (Uuid × MessageStatus)
  | .marked _ m st => some (m, st)
  | .updated (.worker _) msg => some (msg.id, msg.status)
  | _ => none

/-- The outcome that stands for a message. -/
def Life.outcome : Life → Option MessageStatus
  | .parked _ _ => some .retry
  | .settled st => some st
  | _ => none

/-- No outcome with `P` is written for the message that the scheduler has pushed and not yet
written back. -/
def Clear (P : MessageStatus → Prop) (h : History) (ev : Event) : Prop :=
  ∀ msg st, (round h).current = some msg → ev.outcome = some (msg.id, st) → ¬ P st

/-- Every event satisfied `P` when it happened. -/
def Throughout (P : History → Event → Prop) : History → Prop
  | [] => True
  | (ev, _) :: h => Throughout P h ∧ P h ev

variable {h : History} {t : Time} {ev : Event} {m : Uuid}

/-- An outcome is there because it was there before or has just been written. -/
theorem outcome_from {st : MessageStatus} (ho : ((life h m).next m t ev).outcome = some st) :
    (life h m).outcome = some st ∨ ev.outcome = some (m, st) := by
  cases ev with
  | updated i msg =>
    simp only [Life.next] at ho
    split at ho
    · next he =>
      subst he
      cases i <;> cases hl : life h msg.id <;>
        grind [Life.write, Life.outcome, Event.outcome]
    · exact .inl ho
  | listed msgs =>
    simp only [Life.next] at ho
    split at ho
    · cases hl : life h m <;> grind [Life.list, Life.outcome]
    · exact .inl ho
  | _ =>
    cases hl : life h m <;>
      grind [Life.next, Life.enqueue, Life.take, Life.start, Life.answer, Life.outcome,
        Event.outcome]

/-- What the scheduler has in hand, it had before or has just pushed. -/
theorem current_from {msg : Message} (hv : Valid h) (ha : Allowed h t ev)
    (hc : ((round h).next ev).current = some msg) :
    ((round h).current = some msg) ∨ ((life h msg.id).next msg.id t ev).outcome = none := by
  cases ev with
  | pushed i m =>
    cases i with
    | scheduler =>
      obtain ⟨n, due, hl⟩ := pushed_scheduler hv ha
      obtain ⟨msg', todo, hr, rfl⟩ := ha
      rw [hr] at hc
      cases hc
      right
      rw [Life.next, if_pos rfl, hl]
      rfl
    | _ => exact .inl hc
  | listed msgs => cases hc
  | updated i msg' =>
    cases i with
    | scheduler =>
      obtain ⟨m₀, todo, hr, -⟩ := ha
      rw [hr] at hc
      cases hc
    | _ => exact .inl hc
  | _ => exact .inl hc

/-- No outcome with `P` stands for the message whose copy the scheduler has in hand. -/
theorem current_clear {P : MessageStatus → Prop} {h : History} (hv : Valid h)
    (hp : Throughout (Clear P) h) (msg : Message) (hc : (round h).current = some msg)
    {st : MessageStatus} (ho : (life h msg.id).outcome = some st) : ¬ P st := by
  induction h with
  | nil => cases hc
  | cons e h ih =>
    obtain ⟨ev, t⟩ := e
    obtain ⟨hv, ha⟩ := hv
    obtain ⟨hp, hclear⟩ := hp
    rw [life_cons] at ho
    rcases current_from hv ha hc with hc' | hn
    · rcases outcome_from ho with ho | ho
      · exact ih hv hp hc' ho
      · exact hclear msg st hc' ho
    · rw [hn] at ho
      cases ho

/-- A message gets lost only when the scheduler writes over an outcome. -/
theorem lost_from (hl : (life h m).next m t ev = .lost) : life h m = .lost ∨
    ∃ msg, ev = .updated .scheduler msg ∧ msg.id = m ∧ (life h m).outcome ≠ none := by
  cases ev with
  | updated i msg =>
    simp only [Life.next] at hl
    split at hl
    · next he =>
      subst he
      cases i <;> cases hl : life h msg.id <;>
        grind [Life.write, Life.outcome, Event.outcome]
    · exact .inl hl
  | listed msgs =>
    simp only [Life.next] at hl
    split at hl
    · cases hl' : life h m <;> grind [Life.list, Life.outcome]
    · exact .inl hl
  | _ =>
    cases hl : life h m <;>
      grind [Life.next, Life.enqueue, Life.take, Life.start, Life.answer]

/-- Without an outcome in that window no message gets lost. -/
theorem never_lost {h : History} (hv : Valid h) (hp : Throughout (Clear fun _ ↦ True) h)
    (m : Uuid) : life h m ≠ .lost := by
  induction h with
  | nil => simp
  | cons e h ih =>
    obtain ⟨ev, t⟩ := e
    obtain ⟨hv, ha⟩ := hv
    intro hl
    rcases lost_from hl with hl | ⟨msg, rfl, rfl, ho⟩
    · exact ih hv hp.1 hl
    · obtain ⟨m₀, todo, hr, rfl⟩ := ha
      obtain ⟨st, ho⟩ := Option.ne_none_iff_exists'.mp ho
      exact current_clear hv hp.1 m₀ (by rw [hr]; rfl) ho trivial

/-- Without a final status in that window a final status stands. -/
theorem settled_stays {st : MessageStatus} (hv : Valid h)
    (hp : Throughout (Clear (· ≠ .retry)) h) (hst : st ≠ .retry) (ha : Allowed h t ev)
    (hl : life h m = .settled st) : (life h m).next m t ev = .settled st := by
  cases ev with
  | updated i msg =>
    simp only [Life.next]
    split
    · next he =>
      subst he
      cases i with
      | worker w =>
        rw [hl]
        rfl
      | scheduler =>
        obtain ⟨m₀, todo, hr, rfl⟩ := ha
        exact absurd hst (current_clear hv hp m₀ (by rw [hr]; rfl) (by rw [hl]; rfl))
      | client c => exact ha.elim
    · exact hl
  | pushed i id =>
    rw [hl]
    simp only [Life.next, Life.enqueue, ite_self]
  | listed msgs =>
    rw [hl]
    simp only [Life.next, Life.list, ite_self]
  | _ => grind [Life.next, Life.take, Life.start, Life.answer, Allowed]
end Chis.Pipeline
