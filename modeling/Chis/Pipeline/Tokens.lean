import Chis.Pipeline.Protocol

/-!
# Who has a message

In a valid history the scheduler's copies agree with where their messages stand, a worker has in
hand exactly what is with it, and a call owes exactly what waits for its push. So a message is with
at most one process at a time.
-/

namespace Chis.Pipeline

namespace Life

/-- What a copy of its row that the scheduler has pushed and not yet written back says of a
message, wherever the message has gone since. -/
def Snapshot (msg : Message) : Life → Prop
  | .absent | .accepted _ | .listed _ _ => False
  | .queued n _ | .held _ n _ | .sent _ n | .answered _ n _ _ => msg.attemptCount = n
  | _ => True

end Life

variable {h : History} {t : Time} {ev : Event} {m : Uuid}

/-- A listed message stays listed until it is pushed. -/
theorem listed_stays {n : Nat} {due : Time} (ha : Allowed h t ev)
    (hl : life h m = .listed n due) (hp : ∀ i, ev ≠ .pushed i m) :
    (life h m).next m t ev = .listed n due := by
  cases ev with
  | updated i msg => cases i <;> grind [Life.next, Allowed, Life.write]
  | listed msgs =>
    rw [hl]
    simp only [Life.next, Life.list, ite_self]
  | _ => grind [Life.next, Allowed, Life.take, Life.start, Life.answer]

/-- Only a listing lists a message. -/
theorem listed_from {n : Nat} {due : Time} (hl : (life h m).next m t ev = .listed n due) :
    life h m = .listed n due ∨ ∃ msgs, ev = .listed msgs ∧ ∃ msg ∈ msgs, msg.id = m := by
  cases ev with
  | updated i msg => cases i <;> cases hm : life h m <;> grind [Life.next, Life.write]
  | listed msgs =>
    simp only [Life.next] at hl
    split at hl
    · next he => exact .inr ⟨msgs, rfl, he⟩
    · exact .inl hl
  | _ => cases hm : life h m <;> grind [Life.next, Life.enqueue, Life.take, Life.start, Life.answer]

/-- A copy pushed earlier stays right while no listing happens. -/
theorem snapshot_stays {msg : Message} (ha : Allowed h t ev) (hs : (life h m).Snapshot msg)
    (hn : ∀ msgs, ev ≠ .listed msgs) : ((life h m).next m t ev).Snapshot msg := by
  cases ev with
  | updated i msg => cases i <;> cases hm : life h m <;> grind [Life.next, Life.write, Life.Snapshot, Allowed]
  | listed msgs => exact absurd rfl (hn msgs)
  | _ => cases hm : life h m <;> grind [Life.next, Life.enqueue, Life.take, Life.start, Life.answer, Life.Snapshot, Allowed]

/-- The scheduler's copies agree with where their messages stand. -/
structure RoundOk (h : History) : Prop where
  nodup : ((round h).todo.map Message.id).Nodup
  listed : ∀ msg ∈ (round h).todo, ∃ n due, life h msg.id = .listed n due ∧
    msg.attemptCount = n ∧ msg.nextRetryAt = some due
  todo : ∀ m n due, life h m = .listed n due → ∃ msg ∈ (round h).todo, msg.id = m
  current : ∀ msg, (round h).current = some msg →
    (life h msg.id).Snapshot msg ∧ ∀ msg' ∈ (round h).todo, msg'.id ≠ msg.id

private theorem RoundOk.quiet (ok : RoundOk h) (ha : Allowed h t ev)
    (hr : (round h).next ev = round h) (hl : ∀ msgs, ev ≠ .listed msgs)
    (hp : ∀ i m n due, ev = .pushed i m → life h m ≠ .listed n due) :
    RoundOk ((ev, t) :: h) := by
  constructor
  · rw [round_cons, hr]
    exact ok.nodup
  · rw [round_cons, hr]
    intro msg hm
    obtain ⟨n, due, hlife, hs⟩ := ok.listed msg hm
    exact ⟨n, due, listed_stays ha hlife fun i he ↦ hp i _ n due he hlife, hs⟩
  · rw [round_cons, hr]
    intro m n due hlife
    obtain hlife | ⟨msgs, he, -⟩ := listed_from hlife
    · exact ok.todo m n due hlife
    · exact absurd he (hl msgs)
  · rw [round_cons, hr]
    intro msg hc
    obtain ⟨hs, ht⟩ := ok.current msg hc
    exact ⟨snapshot_stays ha hs hl, ht⟩

private theorem RoundOk.list {msgs : List Message} (ok : RoundOk h)
    (ha : Allowed h t (.listed msgs)) : RoundOk ((.listed msgs, t) :: h) := by
  obtain ⟨hr, hd, hp⟩ := ha
  constructor
  · exact hd
  · intro msg hm
    obtain ⟨n, due, hlife, -, hn, hdue⟩ := hp msg hm
    refine ⟨n, due, ?_, hn, hdue⟩
    rw [life_cons, Life.next, if_pos ⟨msg, hm, rfl⟩, hlife, Life.list]
  · intro m n due hlife
    obtain hlife | ⟨msgs', he, hm⟩ := listed_from hlife
    · obtain ⟨msg, hm, -⟩ := ok.todo m n due hlife
      rw [hr] at hm
      cases hm
    · cases he
      exact hm
  · intro msg hc
    cases hc

private theorem RoundOk.push {m : Uuid} (ok : RoundOk h)
    (ha : Allowed h t (.pushed .scheduler m)) : RoundOk ((.pushed .scheduler m, t) :: h) := by
  obtain ⟨msg, todo, hr, rfl⟩ := ha
  have hd := ok.nodup
  have hlisted := ok.listed
  have htodo := ok.todo
  rw [hr] at hd hlisted htodo
  obtain ⟨hfresh, hd⟩ := List.nodup_cons.mp hd
  have hne : ∀ msg' ∈ todo, msg'.id ≠ msg.id := 
    fun msg' hm he ↦ hfresh (he ▸ List.mem_map_of_mem hm)
  obtain ⟨n, due, hlife, hn, -⟩ := hlisted msg List.mem_cons_self
  have hr' : round ((.pushed .scheduler msg.id, t) :: h) = .pushed msg todo := by
    rw [round_cons, hr, Round.next]
  constructor
  · rw [hr']
    exact hd
  · rw [hr']
    intro msg' hm
    obtain ⟨n', due', hlife', hs⟩ := hlisted msg' (List.mem_cons_of_mem _ hm)
    refine ⟨n', due', ?_, hs⟩
    rw [life_cons, Life.next, if_neg (hne msg' hm).symm, hlife']
  · rw [hr']
    intro m n' due' hl
    by_cases he : msg.id = m
    · subst he
      rw [life_cons, Life.next, if_pos rfl, hlife] at hl
      cases hl
    · rw [life_cons, Life.next, if_neg he] at hl
      obtain ⟨msg', hm, rfl⟩ := htodo m n' due' hl
      rcases List.mem_cons.mp hm with rfl | hm
      · exact absurd rfl he
      · exact ⟨msg', hm, rfl⟩
  · rw [hr']
    rintro _ ⟨⟩
    refine ⟨?_, hne⟩
    rw [life_cons, Life.next, if_pos rfl, hlife]
    exact hn

private theorem RoundOk.write {msg : Message} (ok : RoundOk h)
    (ha : Allowed h t (.updated .scheduler msg)) :
    RoundOk ((.updated .scheduler msg, t) :: h) := by
  obtain ⟨m₀, todo, hr, rfl⟩ := id ha
  have hd := ok.nodup
  have hlisted := ok.listed
  have htodo := ok.todo
  rw [hr] at hd hlisted htodo
  constructor
  · rw [round_cons, hr]
    exact hd
  · rw [round_cons, hr]
    intro msg hm
    obtain ⟨n, due, hlife, hs⟩ := hlisted msg hm
    exact ⟨n, due, listed_stays ha hlife (by simp), hs⟩
  · rw [round_cons, hr]
    intro m n due hl
    obtain hl | ⟨msgs, he, -⟩ := listed_from hl
    · exact htodo m n due hl
    · cases he
  · rw [round_cons, hr]
    rintro _ ⟨⟩

/-- In a valid history the scheduler's copies agree with where their messages stand. -/
theorem roundOk {h : History} (hv : Valid h) : RoundOk h := by
  induction h with
  | nil => exact ⟨List.nodup_nil, by simp [round, Round.todo], by simp, by simp [round, Round.current]⟩
  | cons e h ih =>
    obtain ⟨ev, t⟩ := e
    obtain ⟨hv, ha⟩ := hv
    have ok := ih hv
    have quiet := ok.quiet ha
    cases ev with
    | listed msgs => exact ok.list ha
    | pushed i m =>
      cases i with
      | scheduler => exact ok.push ha
      | worker w => exact ha.elim
      | client c =>
        refine quiet rfl (by simp) ?_
        rintro i m n due ⟨⟩ hl
        rw [show life h m = _ from ha] at hl
        cases hl
    | updated i msg =>
      cases i with
      | scheduler => exact ok.write ha
      | worker w => exact quiet rfl (by simp) (by simp)
      | client c => exact ha.elim
    | _ => exact quiet rfl (by simp) (by simp)

namespace Life

@[simp] theorem holder_enqueue (ℓ : Life) (t : Time) : (ℓ.enqueue t).holder = ℓ.holder := by
  cases ℓ <;> rfl

@[simp] theorem holder_list (ℓ : Life) : ℓ.list.holder = ℓ.holder := by
  cases ℓ <;> rfl

@[simp] theorem holder_write_scheduler (ℓ : Life) (msg : Message) :
    (ℓ.write msg .scheduler).holder = ℓ.holder := by
  cases ℓ <;> rfl

@[simp] theorem caller_list (ℓ : Life) : ℓ.list.caller = ℓ.caller := by
  cases ℓ <;> rfl

@[simp] theorem caller_write (ℓ : Life) (i : Proc) (msg : Message) :
    (ℓ.write msg i).caller = ℓ.caller := by
  cases i <;> cases ℓ <;> grind [write, caller]

end Life

/-- What the scheduler pushes is listed. -/
theorem pushed_scheduler {h : History} {t : Time} {m : Uuid} (hv : Valid h)
    (ha : Allowed h t (.pushed .scheduler m)) : ∃ n due, life h m = .listed n due := by
  obtain ⟨msg, todo, hr, rfl⟩ := ha
  have hl := (roundOk hv).listed msg
  rw [hr] at hl
  obtain ⟨n, due, hlife, -⟩ := hl List.mem_cons_self
  exact ⟨n, due, hlife⟩

/-- A worker has a message in hand exactly when the message is with that worker. -/
theorem hand_iff {h : History} (hv : Valid h) (w : Nat) (m : Uuid) :
    hand h w = some m ↔ (life h m).holder = some w := by
  induction h generalizing w m with
  | nil => simp [hand, Life.holder]
  | cons e h ih =>
    obtain ⟨ev, t⟩ := e
    obtain ⟨hv, ha⟩ := hv
    have ih := ih hv
    have hm := ih w m
    simp only [hand_cons, life_cons]
    cases ev with
    | inserted c id => grind [handNext, Life.next, Life.holder, Allowed]
    | pushed i id => grind [handNext, Life.next, Life.holder_enqueue]
    | popped w' id =>
      obtain ⟨hn, n, due, hl⟩ := ha
      grind [handNext, Life.next, Life.holder, Life.take]
    | missing w' id =>
      have hw := ih w' id
      grind [handNext, Life.next, Life.holder, Allowed]
    | started w' id => grind [handNext, Life.next, Life.holder, Allowed, Life.start]
    | answered w' id ok => grind [handNext, Life.next, Life.holder, Allowed, Life.answer]
    | marked w' id st =>
      have hw := ih w' id
      grind [handNext, Life.next, Life.holder, Allowed]
    | updated i msg =>
      cases i with
      | worker w' =>
        have hw := ih w' msg.id
        grind [handNext, Life.next, Life.holder, Allowed, Life.write]
      | scheduler => grind [handNext, Life.next, Life.holder_write_scheduler]
      | client c => grind [Allowed]
    | listed msgs =>
      simp only [handNext, Life.next]
      split
      · rwa [Life.holder_list]
      · exact hm
    | other => exact hm

/-- A call owes the push of a message exactly when the message waits for that push. -/
theorem owes_iff {h : History} (hv : Valid h) (c : Nat) (m : Uuid) :
    owes h c = some m ↔ (life h m).caller = some c := by
  induction h generalizing c m with
  | nil => simp [owes, Life.caller]
  | cons e h ih =>
    obtain ⟨ev, t⟩ := e
    obtain ⟨hv, ha⟩ := hv
    have ih := ih hv
    have hm := ih c m
    simp only [owes_cons, life_cons]
    cases ev with
    | inserted c' id =>
      obtain ⟨hl, ho⟩ := ha
      grind [owesNext, Life.next, Life.caller]
    | pushed i id =>
      cases i with
      | client c' =>
        have hc := ih c' id
        grind [owesNext, Life.next, Life.caller, Life.enqueue, Allowed]
      | scheduler =>
        obtain ⟨n, due, hl⟩ := pushed_scheduler hv ha
        grind [owesNext, Life.next, Life.caller, Life.enqueue]
      | worker w => exact ha.elim
    | popped w' id => grind [owesNext, Life.next, Life.caller, Life.take, Allowed]
    | missing w' id => grind [owesNext, Life.next, Life.caller, Allowed]
    | started w' id => grind [owesNext, Life.next, Life.caller, Allowed, Life.start]
    | answered w' id ok => grind [owesNext, Life.next, Life.caller, Allowed, Life.answer]
    | marked w' id st => grind [owesNext, Life.next, Life.caller, Allowed]
    | updated i msg =>
      simp only [owesNext, Life.next]
      split
      · rwa [Life.caller_write]
      · exact hm
    | listed msgs =>
      simp only [owesNext, Life.next]
      split
      · rwa [Life.caller_list]
      · exact hm
    | other => exact hm

end Chis.Pipeline
