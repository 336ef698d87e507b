import Chis.Pipeline.System
import Chis.Pipeline.Outcomes
import Chis.Pipeline.Deliveries

/-!
# Every operation is an event of the protocol

`Linked` ties the queue, the rows and the clock of a world to its history. Each operation of the
services, performed where the protocol allows its event, keeps that, and moves only messages that
its process owns: `Advance.keeps`.
-/

namespace Chis.Pipeline

open Program

variable {env : Platform} {i : Proc} {w w' : World}

/-! ### What each operation does to the world -/

theorem exec_sql {s : Stmt} {r : Except Err s.Ok}
    (hx : World.Exec env World.faultless i (.sql s) w r w') :
    ∃ ch, w.clock ≤ ch.now ∧ (s.inserts = true → ch.id ∉ w.issued) ∧
      s.exec env ch w.db = (r, w'.db) ∧ w'.queue = w.queue ∧ w'.clock = ch.now ∧
      w'.issued = (if s.inserts then ch.id :: w.issued else w.issued) ∧
      history w' = (Event.ofStmt i s r, ch.now) :: history w := by
  obtain ⟨ch, w₁, ht, hp, rfl⟩ := hx.faultless
  simp only [World.perform] at hp
  split at hp
  · cases hp
  · next hi =>
    cases hp
    refine ⟨ch, ht, ?_, rfl, rfl, rfl, rfl, rfl⟩
    intro hs hm
    exact hi (by simp [hs, hm])

theorem exec_push {s : String} {r : Except Err Unit}
    (hx : World.Exec env World.faultless i (.push s) w r w') :
    ∃ t, w.clock ≤ t ∧ r = .ok () ∧ w'.db = w.db ∧ w'.queue = s :: w.queue ∧ w'.clock = t ∧
      w'.issued = w.issued ∧ history w' = (Event.of i (.push s) r, t) :: history w := by
  obtain ⟨ch, w₁, ht, hp, rfl⟩ := hx.faultless
  cases hp
  exact ⟨ch.now, ht, rfl, rfl, rfl, rfl, rfl, rfl⟩

theorem exec_pop {r : Except Err String} (hx : World.Exec env World.faultless i .pop w r w') :
    ∃ t, w.clock ≤ t ∧ w'.db = w.db ∧ w'.clock = t ∧ w'.issued = w.issued ∧
      history w' = (Event.of i .pop r, t) :: history w ∧
      ((∃ e, r = .error e ∧ w'.queue = w.queue) ∨ ∃ s, r = .ok s ∧ w.queue = w'.queue ++ [s]) := by
  obtain ⟨ch, w₁, ht, hp, rfl⟩ := hx.faultless
  simp only [World.perform] at hp
  split at hp
  · cases hp
    exact ⟨ch.now, ht, rfl, rfl, rfl, rfl, .inl ⟨_, rfl, rfl⟩⟩
  · next s hs =>
    cases hp
    exact ⟨ch.now, ht, rfl, rfl, rfl, rfl, .inr ⟨s, rfl, (List.dropLast_append_getLast? s hs).symm⟩⟩

/-- The operations that change nothing but the log and the clock. -/
def idle : Op → Bool
  | .now | .rand | .respond _ | .send _ _ | .answer _ => true
  | _ => false

theorem exec_idle {o : Op} {r : o.Res} (ho : idle o = true)
    (hx : World.Exec env World.faultless i o w r w') :
    ∃ t, w.clock ≤ t ∧ w'.db = w.db ∧ w'.queue = w.queue ∧ w'.clock = t ∧ w'.issued = w.issued ∧
      history w' = (Event.of i o r, t) :: history w := by
  obtain ⟨ch, w₁, ht, hp, rfl⟩ := hx.faultless
  cases o with
  | sql s => cases ho
  | push s => cases ho
  | pop => cases ho
  | panic => cases ho
  | _ =>
    cases hp
    exact ⟨ch.now, ht, rfl, rfl, rfl, rfl, rfl⟩

theorem exec_now {r : Time} (hx : World.Exec env World.faultless i .now w r w') : w.clock ≤ r := by
  obtain ⟨ch, w₁, ht, hp, rfl⟩ := hx.faultless
  cases hp
  exact ht

/-! ### The rows and the protocol -/

namespace Life

/-- The id is in the queue. -/
def isQueued : Life → Bool
  | .queued _ _ => true
  | _ => false

/-- The process that alone may move the message on. -/
def owner : Life → Option Proc
  | .accepted c => some (.client c)
  | .held w _ _ | .sent w _ | .answered w _ _ _ => some (.worker w)
  | .listed _ _ => some .scheduler
  | _ => none

/-- A time that has passed. -/
def passed : Life → Option Time
  | .queued _ due | .held _ _ due | .listed _ due => some due
  | .answered _ _ _ since => some since
  | _ => none

/-- A delivery has been started. -/
def tried : Life → Bool
  | .queued n _ | .held _ n _ | .parked n _ | .listed n _ => n != 0
  | .sent _ _ | .answered _ _ _ _ => true
  | _ => false

end Life

/-- What the row of a message says, by where it stands; `cur` is the copy the scheduler has pushed
and not yet written back. -/
def RowOk (cur : Option Message) (row : Message) : Life → Prop
  | .absent | .dropped => False
  | .accepted _ => row.status = .pending ∧ row.attemptCount = 0
  | .queued n _ | .held _ n _ | .sent _ n | .answered _ n _ _ =>
    row.attemptCount = n ∧ (row.status = .pending ∨
      row.status = .retry ∧ ∃ msg, cur = some msg ∧ msg.id = row.id)
  | .parked n due | .listed n due =>
    row.status = .retry ∧ row.attemptCount = n ∧ row.nextRetryAt = some due
  | .settled st => row.status = st
  | .lost => row.status = .pending

/-- The columns that are never written again. -/
def content (row : Message) : Uuid × String × String × String :=
  (row.orgID, row.method, row.url, row.payload)

/-- The queue, the rows and the clock are as the history tells. -/
structure Linked (env : Platform) (w : World) : Prop where
  queue : ∀ m, (w.queue.countP fun s ↦ Uuid.parse s = some m) =
    if (life (history w) m).isQueued then 1 else 0
  rows : ∀ row ∈ w.db.messages,
    RowOk (round (history w)).current row (life (history w) row.id)
  requests : ∀ row ∈ w.db.messages, (life (history w) row.id).tried →
    (Worker.newRequest env row.method row.url row.payload).isSome
  issued : ∀ m, life (history w) m ≠ .absent → m ∈ w.issued
  passed : ∀ m t, (life (history w) m).passed = some t → t ≤ w.clock

/-- No row has appeared under an old id, and none has changed its content. -/
def SameContent (w w' : World) : Prop :=
  ∀ row' ∈ w'.db.messages, life (history w) row'.id ≠ .absent →
    ∃ row ∈ w.db.messages, row.id = row'.id ∧ content row = content row'

/-- The invariant of the pipeline, and what a process relies on: messages it owns stay where they
are, and the scheduler's round is its own. -/
def contract (env : Platform) (G : History → Event → Prop) : Contract Proc World where
  inv w := Valid (history w) ∧ Linked env w ∧ Throughout G (history w)
  rely i w w' := w.clock ≤ w'.clock ∧ SameContent w w' ∧
    (∀ m, (life (history w) m).owner = some i ∨ (life (history w') m).owner = some i →
      life (history w') m = life (history w) m) ∧
    (i = .scheduler → round (history w') = round (history w))

/-- The process whose event it is. -/
def Event.process : Event → Option Proc
  | .inserted c _ => some (.client c)
  | .pushed i _ | .updated i _ => some i
  | .popped w _ | .missing w _ | .started w _ | .answered w _ _ | .marked w _ _ =>
    some (.worker w)
  | .listed _ => some .scheduler
  | .other => none

variable {h : History} {ev : Event} {t : Time} {m : Uuid}

theorem absent_from (ha : Allowed h t ev) (hl : (life h m).next m t ev ≠ .absent) :
    life h m ≠ .absent ∨ ∃ c, ev = .inserted c m := by
  by_contra hn
  rw [not_or, not_not, not_exists] at hn
  obtain ⟨habs, hi⟩ := hn
  rw [habs] at hl
  cases ev with
  | updated i msg => cases i <;> simp [Life.next, Life.write] at hl
  | listed msgs => simp [Life.next, Life.list] at hl
  | _ => grind [Life.next, Life.enqueue, Life.take, Life.start, Life.answer, Allowed]

theorem passed_from {t' : Time} (ha : Allowed h t ev)
    (hp : ((life h m).next m t ev).passed = some t') : (life h m).passed = some t' ∨ t' ≤ t := by
  cases ev with
  | updated i msg =>
    simp only [Life.next] at hp
    split at hp
    · cases i <;> cases hl : life h m <;> grind [Life.write, Life.passed]
    · exact .inl hp
  | listed msgs =>
    simp only [Life.next] at hp
    split at hp
    · next he =>
      obtain ⟨msg, hm, rfl⟩ := he
      obtain ⟨n, due, hl, hd, -⟩ := ha.2.2 msg hm
      rw [hl] at hp
      cases hp
      exact .inr hd
    · exact .inl hp
  | _ =>
    cases hl : life h m <;>
      grind [Life.next, Life.enqueue, Life.take, Life.start, Life.answer, Life.passed]

theorem tried_from (ha : Allowed h t ev) (hp : ((life h m).next m t ev).tried) :
    (life h m).tried ∨ ∃ w, ev = .started w m := by
  cases ev with
  | updated i msg =>
    simp only [Life.next] at hp
    split at hp
    · cases i <;> cases hl : life h m <;> grind [Life.write, Life.tried]
    · exact .inl hp
  | listed msgs =>
    simp only [Life.next] at hp
    split at hp
    · cases hl : life h m <;> grind [Life.list, Life.tried]
    · exact .inl hp
  | answered w id ok => cases hl : life h m <;> grind [Life.next, Life.answer, Life.tried]
  | _ =>
    cases hl : life h m <;>
      grind [Life.next, Life.enqueue, Life.take, Life.start, Life.answer, Life.tried]

theorem isQueued_stays (ha : Allowed h t ev) (hu : ∀ i, ev ≠ .pushed i m)
    (ho : ∀ w, ev ≠ .popped w m) : ((life h m).next m t ev).isQueued = (life h m).isQueued := by
  cases ev with
  | updated i msg =>
    simp only [Life.next]
    split
    · cases i <;> cases hl : life h m <;> grind [Life.write, Life.isQueued]
    · rfl
  | listed msgs =>
    simp only [Life.next]
    split
    · cases hl : life h m <;> rfl
    · rfl
  | _ =>
    cases hl : life h m <;>
      grind [Life.next, Life.start, Life.answer, Life.isQueued, Allowed]

/-- An event moves only messages that its process owns before or after. -/
theorem owner_stays {j : Proc} (hv : Valid h) (ha : Allowed h t ev) (hj : ev.process ≠ some j)
    (ho : (life h m).owner = some j ∨ ((life h m).next m t ev).owner = some j) :
    (life h m).next m t ev = life h m := by
  cases ev with
  | updated i msg =>
    simp only [Life.next] at ho ⊢
    split
    · next he =>
      subst he
      rw [if_pos rfl] at ho
      cases i with
      | worker w =>
        obtain ⟨n, since, hl, -⟩ := ha
        rw [hl] at ho ⊢
        rcases ho with ho | ho
        · exact absurd ho hj
        · grind [Life.write, Life.owner]
      | scheduler => cases hl : life h msg.id <;> grind [Life.write, Life.owner]
      | client c => exact ha.elim
    · rfl
  | listed msgs =>
    simp only [Life.next] at ho ⊢
    split
    · next he =>
      rw [if_pos he] at ho
      cases hl : life h m <;> grind [Life.list, Life.owner, Event.process]
    · rfl
  | pushed i id =>
    cases i with
    | scheduler =>
      obtain ⟨n, due, hl⟩ := pushed_scheduler hv ha
      grind [Life.next, Life.enqueue, Life.owner, Event.process]
    | _ => grind [Life.next, Life.enqueue, Life.owner, Event.process, Allowed]
  | _ =>
    grind [Life.next, Life.take, Life.start, Life.answer, Life.owner, Event.process, Allowed]

theorem round_stays (hj : ev.process ≠ some .scheduler) : (round h).next ev = round h := by
  cases ev with
  | updated i msg => cases i <;> first | rfl | exact absurd rfl hj
  | pushed i m => cases i <;> first | rfl | exact absurd rfl hj
  | listed msgs => exact absurd rfl hj
  | _ => rfl


/-- The message whose row an event writes, adds or misses. -/
def Event.writes : Event → Option Uuid
  | .inserted _ m | .missing _ m | .marked _ m _ => some m
  | .updated _ msg => some msg.id
  | _ => none

/-- A row that an event does not write is still right after it. -/
theorem rowOk_stays {row : Message} (hv : Valid h) (ha : Allowed h t ev)
    (hw : ev.writes ≠ some row.id) (hr : RowOk (round h).current row (life h row.id)) :
    RowOk ((round h).next ev).current row ((life h row.id).next row.id t ev) := by
  cases ev with
  | inserted c id =>
    rw [Life.next, if_neg fun he ↦ hw (congrArg some he)]
    exact hr
  | missing w id =>
    rw [Life.next, if_neg fun he ↦ hw (congrArg some he)]
    exact hr
  | marked w id st =>
    rw [Life.next, if_neg fun he ↦ hw (congrArg some he)]
    exact hr
  | updated i msg =>
    rw [Life.next, if_neg fun he ↦ hw (congrArg some he)]
    cases i with
    | scheduler =>
      obtain ⟨m₀, todo, hcur, rfl⟩ := ha
      have hne : m₀.id ≠ row.id := fun he ↦ hw (congrArg some he)
      rw [hcur] at hr ⊢
      cases hl : life h row.id <;> grind [RowOk, Round.next, Round.current]
    | _ => exact hr
  | pushed i id =>
    cases i with
    | worker w => exact ha.elim
    | client c =>
      have ha : life h id = .accepted c := ha
      simp only [Life.next]
      split
      · next he =>
        subst he
        rw [ha] at hr ⊢
        exact ⟨hr.2, .inl hr.1⟩
      · exact hr
    | scheduler =>
      obtain ⟨n, due, hl⟩ := pushed_scheduler hv ha
      obtain ⟨msg, todo, hcur, rfl⟩ := ha
      rw [hcur] at hr ⊢
      simp only [Life.next]
      split
      · next he =>
        rw [← he, hl] at hr
        rw [← he, hl]
        exact ⟨hr.2.1, .inr ⟨hr.1, msg, rfl, he⟩⟩
      · cases hl' : life h row.id <;> grind [RowOk, Round.next, Round.current]
  | popped w id =>
    simp only [Life.next]
    split
    · cases hl : life h row.id <;> rw [hl] at hr <;> exact hr
    · exact hr
  | started w id =>
    simp only [Life.next]
    split
    · cases hl : life h row.id <;> rw [hl] at hr <;> exact hr
    · exact hr
  | answered w id ok =>
    simp only [Life.next]
    split
    · cases hl : life h row.id <;> rw [hl] at hr <;> exact hr
    · exact hr
  | listed msgs =>
    obtain ⟨hcur, -, -⟩ := ha
    rw [hcur] at hr
    simp only [Life.next]
    split
    · cases hl : life h row.id <;> rw [hl] at hr <;> exact hr
    · exact hr
  | other => exact hr

/-- A final status written by a worker. -/
theorem rowOk_marked {row : Message} {w : Nat} {st : MessageStatus} (now : Time) :
    RowOk ((round h).next (.marked w row.id st)).current
      { row with status := st, updatedAt := now }
      ((life h row.id).next row.id t (.marked w row.id st)) := by
  rw [Life.next, if_pos rfl]
  rfl

/-- The outcome of a refused delivery. -/
theorem rowOk_updated_worker {row msg : Message} {w : Nat} (now : Time)
    (ha : Allowed h t (.updated (.worker w) msg)) (he : row.id = msg.id) :
    RowOk ((round h).next (.updated (.worker w) msg)).current
      { row with
        status := msg.status
        attemptCount := msg.attemptCount
        nextRetryAt := msg.nextRetryAt
        updatedAt := now }
      ((life h row.id).next row.id t (.updated (.worker w) msg)) := by
  obtain ⟨n, since, hl, hr⟩ := ha
  rw [Life.next, if_pos he.symm, he, hl]
  rcases hr with ⟨hs, -, hn, due, hdue, -⟩ | ⟨hs, -⟩
  · simp only [Life.write, hs, if_true, hdue, Option.getD_some, RowOk]
    exact ⟨trivial, by rw [hn]; rfl, trivial⟩
  · simp only [Life.write, hs, reduceCtorEq, if_false, RowOk]

/-- The scheduler's write: it does no harm to a message that is on its way again, and strands one
whose outcome is already there. -/
theorem rowOk_updated_scheduler {row msg : Message} (now : Time) (hv : Valid h)
    (ha : Allowed h t (.updated .scheduler msg)) (he : row.id = msg.id)
    (hr : RowOk (round h).current row (life h row.id)) :
    RowOk ((round h).next (.updated .scheduler msg)).current
      { row with
        status := msg.status
        attemptCount := msg.attemptCount
        nextRetryAt := msg.nextRetryAt
        updatedAt := now }
      ((life h row.id).next row.id t (.updated .scheduler msg)) := by
  obtain ⟨m₀, todo, hcur, rfl⟩ := ha
  obtain ⟨hs, -⟩ := (roundOk hv).current m₀ (by rw [hcur]; rfl)
  have he : row.id = m₀.id := he
  rw [Life.next, if_pos he.symm]
  rw [he] at hr ⊢
  cases hl : life h m₀.id <;> grind [RowOk, Life.Snapshot, Life.write]

/-! ### One event -/

/-- What an operation of process `i` has to do to keep the contract: an event of its own, or none,
with the world as the event says. -/
structure Advance (env : Platform) (i : Proc) (w w' : World) (ev : Event) (t : Time) : Prop where
  log : history w' = (ev, t) :: history w
  clock : w'.clock = t
  le : w.clock ≤ t
  process : ev = .other ∨ ev.process = some i
  allowed : Allowed (history w) t ev
  issued : ∀ m ∈ w.issued, m ∈ w'.issued
  inserted : ∀ c m, ev = .inserted c m → m ∈ w'.issued
  same : SameContent w w'
  started : ∀ n m, ev = .started n m → ∀ row ∈ w.db.messages, row.id = m →
    (Worker.newRequest env row.method row.url row.payload).isSome
  queue : ∀ m, (w'.queue.countP fun s ↦ Uuid.parse s = some m) =
    if ((life (history w) m).next m t ev).isQueued then 1 else 0
  rows : ∀ row ∈ w'.db.messages, RowOk ((round (history w)).next ev).current row
    ((life (history w) row.id).next row.id t ev)

/-- Such an operation keeps the invariant, and what every other process relies on. -/
theorem Advance.keeps {G : History → Event → Prop} (a : Advance env i w w' ev t)
    (hi : (contract env G).inv w) (hg : G (history w) ev) :
    (contract env G).inv w' ∧ ∀ j, j ≠ i → (contract env G).rely j w w' := by
  obtain ⟨hv, hl, hG⟩ := hi
  refine ⟨⟨?_, ?_, ?_⟩, fun j hj ↦ ⟨?_, a.same, ?_, ?_⟩⟩
  · rw [a.log]
    exact ⟨hv, a.allowed⟩
  · constructor
    · rw [a.log]
      exact a.queue
    · rw [a.log]
      exact a.rows
    · rw [a.log]
      intro row' hrow' htried
      have hold : life (history w) row'.id ≠ .absent := by
        rcases tried_from a.allowed htried with ht | ⟨n, rfl⟩
        · intro he
          rw [he] at ht
          cases ht
        · obtain ⟨k, due, hl, -⟩ := a.allowed
          rw [hl]
          simp
      obtain ⟨row, hrow, hid, hc⟩ := a.same row' hrow' hold
      simp only [content, Prod.mk.injEq] at hc
      obtain ⟨-, hm, hu, hp⟩ := hc
      rw [← hm, ← hu, ← hp]
      rcases tried_from a.allowed htried with ht | ⟨n, rfl⟩
      · exact hl.requests row hrow (by rw [hid]; exact ht)
      · exact a.started n _ rfl row hrow hid
    · rw [a.log]
      intro m hm
      rcases absent_from a.allowed hm with hm | ⟨c, he⟩
      · exact a.issued m (hl.issued m hm)
      · exact a.inserted c m he
    · rw [a.log, a.clock]
      intro m t' hp
      rcases passed_from a.allowed hp with hp | hle
      · exact le_trans (hl.passed m t' hp) a.le
      · exact hle
  · rw [a.log]
    exact ⟨hG, hg⟩
  · rw [a.clock]
    exact a.le
  · intro m ho
    rw [a.log] at ho ⊢
    refine owner_stays hv a.allowed ?_ ho
    rcases a.process with rfl | hp
    · simp [Event.process]
    · rw [hp]
      exact fun he ↦ hj (Option.some.inj he).symm
  · rintro rfl
    rw [a.log]
    refine round_stays ?_
    rcases a.process with rfl | hp
    · simp [Event.process]
    · rw [hp]
      exact fun he ↦ hj (Option.some.inj he).symm


/-! ### Each operation -/

private theorem rows_of_subset (w' : World) (hv : Valid (history w)) (hl : Linked env w)
    (ha : Allowed (history w) t ev) (hsub : ∀ row ∈ w'.db.messages, row ∈ w.db.messages)
    (hw : ∀ row ∈ w'.db.messages, ev.writes ≠ some row.id) :
    SameContent w w' ∧ ∀ row ∈ w'.db.messages, RowOk ((round (history w)).next ev).current row
      ((life (history w) row.id).next row.id t ev) :=
  ⟨fun row hr _ ↦ ⟨row, hsub row hr, rfl, rfl⟩,
    fun row hr ↦ rowOk_stays hv ha (hw row hr) (hl.rows row (hsub row hr))⟩

private theorem queue_of_eq (hl : Linked env w) (ha : Allowed (history w) t ev)
    (hq : w'.queue = w.queue) (hu : ∀ i m, ev ≠ .pushed i m) (ho : ∀ n m, ev ≠ .popped n m)
    (m : Uuid) : (w'.queue.countP fun s ↦ Uuid.parse s = some m) =
      if ((life (history w) m).next m t ev).isQueued then 1 else 0 := by
  rw [hq, hl.queue, isQueued_stays ha (fun i ↦ hu i m) fun n ↦ ho n m]

/-- An operation that neither adds a row nor touches the queue. -/
private theorem Advance.of_subset {i : Proc} (hv : Valid (history w)) (hl : Linked env w)
    (hh : history w' = (ev, t) :: history w) (hc : w'.clock = t) (hle : w.clock ≤ t)
    (hp : ev = .other ∨ ev.process = some i) (ha : Allowed (history w) t ev)
    (hi : ∀ m ∈ w.issued, m ∈ w'.issued) (hins : ∀ c m, ev ≠ .inserted c m)
    (hsub : ∀ row ∈ w'.db.messages, row ∈ w.db.messages)
    (hw : ∀ row ∈ w'.db.messages, ev.writes ≠ some row.id)
    (hs : ∀ n m, ev = .started n m → ∀ row ∈ w.db.messages, row.id = m →
      (Worker.newRequest env row.method row.url row.payload).isSome)
    (hq : w'.queue = w.queue) (hu : ∀ i m, ev ≠ .pushed i m) (ho : ∀ n m, ev ≠ .popped n m) :
    Advance env i w w' ev t :=
  have hr := rows_of_subset w' hv hl ha hsub hw
  ⟨hh, hc, hle, hp, ha, hi, fun c m he ↦ absurd he (hins c m), hr.1, hs,
    queue_of_eq hl ha hq hu ho, hr.2⟩

/-- A harmless statement adds no row to the messages and changes none. -/
theorem harmless_subset (env : Platform) {s : Stmt} (hs : s.harmless = true) (ch : Choice)
    (db : Db) :
    ∀ row ∈ (s.exec env ch db).2.messages, row ∈ db.messages := by
  intro row hr
  have hc := s.exec_change env ch db
  generalize (s.exec env ch db).2 = db' at hr hc
  cases hc with
  | organizationDelete id => exact ((db.messages.mem_filter _ row).mp hr).1
  | messageCreate _ => cases hs
  | messageUpdateStatus _ => cases hs
  | messageUpdate _ => cases hs
  | _ => exact hr

private theorem mem_issued {s : Stmt} {ch : Choice}
    (h : w'.issued = if s.inserts then ch.id :: w.issued else w.issued) :
    ∀ m ∈ w.issued, m ∈ w'.issued := by
  intro m hm
  rw [h]
  split
  · exact List.mem_cons_of_mem _ hm
  · exact hm

/-- A harmless operation that means nothing for the messages. -/
theorem advance_other {o : Op} {r : o.Res} (hv : Valid (history w)) (hl : Linked env w)
    (hx : World.Exec env World.faultless i o w r w') (ho : o.harmless = true)
    (he : Event.of i o r = .other) : ∃ t, Advance env i w w' .other t := by
  cases o with
  | sql s =>
    obtain ⟨ch, hle, -, hex, hq, hc, hi, hh⟩ := exec_sql hx
    have he : Event.ofStmt i s r = .other := he
    rw [he] at hh
    refine ⟨ch.now, .of_subset hv hl hh hc hle (.inl rfl) trivial (mem_issued hi) (by simp) ?_
      (by simp [Event.writes]) (by simp) hq (by simp) (by simp)⟩
    have hsub := harmless_subset env ho ch w.db
    rw [hex] at hsub
    exact hsub
  | push s => cases ho
  | pop => cases ho
  | send id req => cases ho
  | answer id => cases ho
  | panic => exact r.elim
  | _ =>
    obtain ⟨t, hle, hd, hq, hc, hi, hh⟩ := exec_idle rfl hx
    rw [he] at hh
    refine ⟨t, .of_subset hv hl hh hc hle (.inl rfl) trivial (by rw [hi]; simp) (by simp)
      (by rw [hd]; simp) (by simp [Event.writes]) (by simp) hq (by simp) (by simp)⟩

/-- A worker sends a request or gets its answer. -/
theorem advance_http {o : Op} {r : o.Res} {n : Nat} (hv : Valid (history w)) (hl : Linked env w)
    (hx : World.Exec env World.faultless (.worker n) o w r w')
    (ho : (∃ id req, o = .send id req) ∨ ∃ id, o = .answer id)
    (he : Event.of (.worker n) o r = ev)
    (ha : ∀ t, w.clock ≤ t → Allowed (history w) t ev)
    (hs : ∀ n m, ev = .started n m → ∀ row ∈ w.db.messages, row.id = m →
      (Worker.newRequest env row.method row.url row.payload).isSome) :
    ∃ t, Advance env (.worker n) w w' ev t := by
  obtain ⟨t, hle, hd, hq, hc, hi, hh⟩ := exec_idle (by rcases ho with ⟨id, req, rfl⟩ | ⟨id, rfl⟩ <;> rfl) hx
  rw [he] at hh
  have hev : ∃ m, ev = .started n m ∨ ∃ ok, ev = .answered n m ok := by
    rcases ho with ⟨id, req, rfl⟩ | ⟨id, rfl⟩
    · exact ⟨id, .inl he.symm⟩
    · exact ⟨id, .inr ⟨_, he.symm⟩⟩
  obtain ⟨m, rfl | ⟨ok, rfl⟩⟩ := hev <;>
  exact ⟨t, .of_subset hv hl hh hc hle (.inr rfl) (ha t hle) (by rw [hi]; simp) (by simp)
    (by rw [hd]; simp) (by simp [Event.writes]) hs hq (by simp) (by simp)⟩

/-- The scheduler pushes what it has listed, or a call what it has inserted. -/
theorem advance_push {r : Except Err Unit} (hv : Valid (history w)) (hl : Linked env w)
    (hx : World.Exec env World.faultless i (.push m.toString) w r w')
    (ha : ∀ t, Allowed (history w) t (.pushed i m)) :
    ∃ t, Advance env i w w' (.pushed i m) t := by
  obtain ⟨t, hle, rfl, hd, hq, hc, hi, hh⟩ := exec_push hx
  simp only [Event.of, Uuid.parse_toString] at hh
  have hr := rows_of_subset w' hv hl (ha t) (by rw [hd]; simp) (by simp [Event.writes])
  refine ⟨t, hh, hc, hle, .inr rfl, ha t, by rw [hi]; simp, by simp, hr.1, by simp, ?_, hr.2⟩
  intro m'
  rw [hq, List.countP_cons, hl.queue, Uuid.parse_toString]
  by_cases he : m = m'
  · subst he
    obtain ⟨hn, hy⟩ : (life (history w) m).isQueued = false ∧
        ((life (history w) m).enqueue t).isQueued = true := by
      cases i with
      | worker n => exact (ha t).elim
      | client c =>
        have ha : life (history w) m = .accepted c := ha t
        rw [ha]
        exact ⟨rfl, rfl⟩
      | scheduler =>
        obtain ⟨n, due, hlife⟩ := pushed_scheduler hv (ha t)
        rw [hlife]
        exact ⟨rfl, rfl⟩
    simp [Life.next, hn, hy]
  · simp [Life.next, he]

/-- A worker pops. -/
theorem advance_pop {r : Except Err String} {n : Nat} (hv : Valid (history w))
    (hl : Linked env w) (hx : World.Exec env World.faultless (.worker n) .pop w r w')
    (hn : hand (history w) n = none) :
    (∃ t, Advance env (.worker n) w w' .other t ∧ ∀ s, r = .ok s → Uuid.parse s = none) ∨
      ∃ s m k due t, r = .ok s ∧ Uuid.parse s = some m ∧ life (history w) m = .queued k due ∧
        Advance env (.worker n) w w' (.popped n m) t := by
  obtain ⟨t, hle, hd, hc, hi, hh, hq⟩ := exec_pop hx
  rcases hq with ⟨e, rfl, hq⟩ | ⟨s, rfl, hq⟩
  · exact .inl ⟨t, .of_subset hv hl hh hc hle (.inl rfl) trivial (by rw [hi]; simp) (by simp)
      (by rw [hd]; simp) (by simp [Event.writes]) (by simp) hq (by simp) (by simp), by simp⟩
  · have hcount := hl.queue
    simp only [hq, List.countP_append, List.countP_singleton] at hcount
    cases hp : Uuid.parse s with
    | none =>
      simp only [Event.of, hp] at hh
      have hr := rows_of_subset w' hv hl (show Allowed (history w) t .other from trivial)
        (by rw [hd]; simp) (by simp [Event.writes])
      refine .inl ⟨t, ⟨hh, hc, hle, .inl rfl, trivial, by rw [hi]; simp, by simp, hr.1, by simp,
        fun m ↦ ?_, hr.2⟩, by simpa using hp⟩
      have hm := hcount m
      rw [hp] at hm
      simp only [reduceCtorEq, decide_false, Bool.false_eq_true, if_false, Nat.add_zero] at hm
      exact hm
    | some m =>
      simp only [Event.of, hp] at hh
      have hm := hcount m
      have hqueued : (life (history w) m).isQueued = true := by
        by_contra hf
        simp [hp, hf] at hm
      obtain ⟨k, due, hlife⟩ : ∃ k due, life (history w) m = .queued k due := by
        cases hlife : life (history w) m with
        | queued k due => exact ⟨k, due, rfl⟩
        | _ => rw [hlife] at hqueued; cases hqueued
      have ha : Allowed (history w) t (.popped n m) := ⟨hn, k, due, hlife⟩
      have hr := rows_of_subset w' hv hl ha (by rw [hd]; simp) (by simp [Event.writes])
      refine .inr ⟨s, m, k, due, t, rfl, hp, hlife, hh, hc, hle, .inr rfl, ha, by rw [hi]; simp,
        by simp, hr.1, by simp, fun m' ↦ ?_, hr.2⟩
      have hm' := hcount m'
      by_cases he : m = m'
      · subst he
        simp only [hp, hlife, Life.isQueued] at hm'
        simp only [Life.next, hlife, Life.take, if_true, Life.isQueued]
        simpa using hm'
      · simpa [hp, he, Life.next] using hm'

/-- A worker does not find the row of its message. -/
theorem advance_missing {s : Stmt} {r : Except Err s.Ok} {n : Nat} (hv : Valid (history w))
    (hl : Linked env w) (hx : World.Exec env World.faultless (.worker n) (.sql s) w r w')
    (he : Event.ofStmt (.worker n) s r = .missing n m) (hdb : w'.db = w.db)
    (hm : ∀ row ∈ w.db.messages, row.id ≠ m) (ha : ∀ t, Allowed (history w) t (.missing n m)) :
    ∃ t, Advance env (.worker n) w w' (.missing n m) t := by
  obtain ⟨ch, hle, -, -, hq, hc, hi, hh⟩ := exec_sql hx
  rw [he] at hh
  refine ⟨ch.now, .of_subset hv hl hh hc hle (.inr rfl) (ha _) (mem_issued hi) (by simp)
    (by rw [hdb]; simp) ?_ (by simp) hq (by simp) (by simp)⟩
  rw [hdb]
  intro row hr he
  exact hm row hr (Option.some.inj he).symm

/-- The scheduler lists the messages that are due. -/
theorem advance_listed {limit : Nat} {r : Except Err (List Message)} (hv : Valid (history w))
    (hl : Linked env w)
    (hx : World.Exec env World.faultless .scheduler (.sql (.findRetryReady limit)) w r w')
    (hidle : round (history w) = .idle []) :
    ∃ msgs t, r = .ok msgs ∧ Advance env .scheduler w w' (.listed msgs) t := by
  obtain ⟨ch, hle, -, hex, hq, hc, hi, hh⟩ := exec_sql hx
  have hr : r = _ := (congrArg Prod.fst hex).symm
  have hdb : w'.db = w.db := (congrArg Prod.snd hex).symm
  subst hr
  obtain ⟨hd, hmem⟩ := MessageRepository.findRetryReady_spec ch.tie ch.now limit w.db
  refine ⟨_, ch.now, rfl, .of_subset hv hl hh hc hle (.inr rfl) ⟨hidle, hd, fun msg hmsg ↦ ?_⟩
    (mem_issued hi) (by simp) (by rw [hdb]; simp) (by simp [Event.writes]) (by simp) hq
    (by simp) (by simp)⟩
  obtain ⟨hrow, hs, due, hdue, hle⟩ := hmem msg hmsg
  have hr := hl.rows msg hrow
  rw [hidle] at hr
  -- a row in `retry` outside a round is parked: there is no copy that could explain it otherwise
  cases hlife : life (history w) msg.id with
  | parked n due' =>
    rw [hlife] at hr
    obtain ⟨-, hn, hnext⟩ := hr
    rw [hnext] at hdue
    cases hdue
    exact ⟨n, due, rfl, hle, hn, hnext⟩
  | listed n due' =>
    obtain ⟨msg', hm', -⟩ := (roundOk hv).todo _ n due' hlife
    rw [hidle] at hm'
    cases hm'
  | settled st =>
    rw [hlife] at hr
    have ht := told hv msg.id
    rw [hlife, show st = .retry from hr.symm.trans hs] at ht
    simp [Told] at ht
  | _ =>
    rw [hlife] at hr
    simp [RowOk, hs, Round.current] at hr


/-- A call inserts a message, or fails and inserts none. -/
theorem advance_create {message : Message} {r : Except Err Message} {c : Nat}
    (hv : Valid (history w)) (hl : Linked env w)
    (hx : World.Exec env World.faultless (.client c) (.sql (.messageCreate message)) w r w')
    (ho : owes (history w) c = none) :
    (∃ e t, r = .error e ∧ Advance env (.client c) w w' .other t) ∨
      ∃ a t, r = .ok a ∧ life (history w) a.id = .absent ∧
        Advance env (.client c) w w' (.inserted c a.id) t := by
  obtain ⟨ch, hle, hfresh, hex, hq, hc, hi, hh⟩ := exec_sql hx
  simp only [Stmt.exec] at hex
  cases hcr : MessageRepository.create env.jsonb ch.id ch.now message w.db with
  | error e =>
    rw [hcr] at hex
    have hr : r = .error e := (congrArg Prod.fst hex).symm
    have hdb : w'.db = w.db := (congrArg Prod.snd hex).symm
    subst hr
    exact .inl ⟨e, ch.now, rfl, .of_subset hv hl hh hc hle (.inl rfl) trivial (mem_issued hi)
      (by simp) (by rw [hdb]; simp) (by simp [Event.writes]) (by simp) hq (by simp) (by simp)⟩
  | ok p =>
    obtain ⟨a, db'⟩ := p
    rw [hcr] at hex
    have hr : r = .ok a := (congrArg Prod.fst hex).symm
    have hdb : w'.db = db' := (congrArg Prod.snd hex).symm
    subst hr
    obtain ⟨hid, -, payload, messages, -, hins, rfl⟩ := MessageRepository.create_ok hcr
    have habsent : life (history w) a.id = .absent := by
      by_contra hn
      exact hfresh rfl (hid ▸ hl.issued a.id hn)
    have ha : Allowed (history w) ch.now (.inserted c a.id) := ⟨habsent, ho⟩
    have hmem : ∀ row ∈ w'.db.messages, row ∈ w.db.messages ∧ row.id ≠ a.id ∨
        row.id = a.id ∧ row.status = .pending ∧ row.attemptCount = 0 := by
      intro row hrow
      rw [hdb] at hrow
      rcases (Relational.Table.mem_of_insert? hins row).mp hrow with hrow | rfl
      · refine .inl ⟨hrow, fun he ↦ ?_⟩
        have hr := hl.rows row hrow
        rw [he, habsent] at hr
        exact hr
      · exact .inr ⟨hid.symm, rfl, rfl⟩
    refine .inr ⟨a, ch.now, rfl, habsent, hh, hc, hle, .inr rfl, ha, mem_issued hi, ?_, ?_, by simp,
      queue_of_eq hl ha hq (by simp) (by simp), ?_⟩
    · rintro c' m ⟨⟩
      rw [hi, hid]
      exact List.mem_cons_self
    · intro row hrow hne
      rcases hmem row hrow with ⟨hrow, -⟩ | ⟨he, -⟩
      · exact ⟨row, hrow, rfl, rfl⟩
      · rw [he] at hne
        exact absurd habsent hne
    · intro row hrow
      rcases hmem row hrow with ⟨hrow, hne⟩ | ⟨he, hs, hn⟩
      · exact rowOk_stays hv ha (by simpa [Event.writes] using hne.symm) (hl.rows row hrow)
      · rw [Life.next, if_pos he.symm]
        exact ⟨hs, hn⟩

/-- An operation that writes the row of one message. -/
private theorem Advance.of_update {i : Proc} {id : Uuid} (f : Message → Message)
    (hv : Valid (history w)) (hl : Linked env w)
    (hh : history w' = (ev, t) :: history w) (hc : w'.clock = t) (hle : w.clock ≤ t)
    (hp : ev.process = some i) (ha : Allowed (history w) t ev)
    (hi : ∀ m ∈ w.issued, m ∈ w'.issued) (hins : ∀ c m, ev ≠ .inserted c m)
    (hs : ∀ n m, ev ≠ .started n m) (hq : w'.queue = w.queue) (hu : ∀ i m, ev ≠ .pushed i m)
    (ho : ∀ n m, ev ≠ .popped n m) (hw : ev.writes = some id)
    (hf : ∀ row, (f row).id = row.id ∧ content (f row) = content row)
    (hmem : ∀ row ∈ w'.db.messages, ∃ row₀ ∈ w.db.messages, row =
      if row₀.id = id then f row₀ else row₀)
    (hrow : ∀ row ∈ w.db.messages, row.id = id → RowOk ((round (history w)).next ev).current
      (f row) ((life (history w) row.id).next row.id t ev)) : Advance env i w w' ev t := by
  refine ⟨hh, hc, hle, .inr hp, ha, hi, fun c m he ↦ absurd he (hins c m), ?_,
    fun n m he ↦ absurd he (hs n m), queue_of_eq hl ha hq hu ho, ?_⟩
  · intro row hr _
    obtain ⟨row₀, hr₀, rfl⟩ := hmem row hr
    refine ⟨row₀, hr₀, ?_⟩
    split
    · exact ⟨(hf row₀).1.symm, (hf row₀).2.symm⟩
    · exact ⟨rfl, rfl⟩
  · intro row hr
    obtain ⟨row₀, hr₀, rfl⟩ := hmem row hr
    split
    · next he =>
      rw [(hf row₀).1]
      exact hrow row₀ hr₀ he
    · next he =>
      refine rowOk_stays hv ha ?_ (hl.rows row₀ hr₀)
      rw [hw]
      exact fun h ↦ he (Option.some.inj h).symm

/-- A worker writes a final status, or does not find the row. -/
theorem advance_updateStatus {st : MessageStatus} {r : Except Err Message} {n : Nat}
    (hv : Valid (history w)) (hl : Linked env w)
    (hx : World.Exec env World.faultless (.worker n) (.sql (.messageUpdateStatus m st)) w r w')
    (ha : ∀ t, Allowed (history w) t (.marked n m st))
    (hm : ∀ t, Allowed (history w) t (.missing n m)) :
    ∃ ev t, (ev = .marked n m st ∨ ev = .missing n m) ∧ ev = Event.of (.worker n) (.sql (.messageUpdateStatus m st)) r ∧
      Advance env (.worker n) w w' ev t := by
  obtain ⟨ch, hle, -, hex, hq, hc, hi, hh⟩ := exec_sql hx
  simp only [Stmt.exec] at hex
  cases hcr : MessageRepository.updateStatus ch.now m st w.db with
  | error e =>
    rw [hcr] at hex
    have hr : r = .error e := (congrArg Prod.fst hex).symm
    have hdb : w'.db = w.db := (congrArg Prod.snd hex).symm
    subst hr
    obtain ⟨t, a⟩ := advance_missing (m := m) hv hl hx rfl hdb
      (MessageRepository.updateStatus_error hcr) hm
    exact ⟨_, t, .inr rfl, rfl, a⟩
  | ok p =>
    obtain ⟨a, db'⟩ := p
    rw [hcr] at hex
    have hr : r = .ok a := (congrArg Prod.fst hex).symm
    have hdb : w'.db = db' := (congrArg Prod.snd hex).symm
    subst hr hdb
    refine ⟨_, ch.now, .inl rfl, rfl, .of_update
      (fun row ↦ { row with status := st, updatedAt := ch.now }) hv hl hh hc hle rfl (ha _)
      (mem_issued hi) (by simp) (by simp) hq (by simp) (by simp) rfl (fun row ↦ ⟨rfl, rfl⟩) ?_ ?_⟩
    · exact fun row hr ↦ (MessageRepository.mem_updateStatus hcr row).mp hr
    · rintro row - rfl
      exact rowOk_marked ch.now

/-- A worker or the scheduler writes a whole row. -/
theorem advance_update {msg : Message} {r : Except Err Unit} (hv : Valid (history w))
    (hl : Linked env w)
    (hx : World.Exec env World.faultless i (.sql (.messageUpdate msg)) w r w')
    (ha : ∀ t, w.clock ≤ t → Allowed (history w) t (.updated i msg)) :
    ∃ t, Event.of i (.sql (.messageUpdate msg)) r = .updated i msg ∧
      Advance env i w w' (.updated i msg) t := by
  obtain ⟨ch, hle, -, hex, hq, hc, hi, hh⟩ := exec_sql hx
  have hr : r = .ok () := (congrArg Prod.fst hex).symm
  have hdb : w'.db = MessageRepository.update ch.now msg w.db := (congrArg Prod.snd hex).symm
  subst hr
  refine ⟨ch.now, rfl, .of_update (fun row ↦ { row with
      status := msg.status
      attemptCount := msg.attemptCount
      nextRetryAt := msg.nextRetryAt
      updatedAt := ch.now }) hv hl hh hc hle rfl (ha _ hle) (mem_issued hi) (by simp) (by simp) hq
    (by simp) (by simp) rfl (fun row ↦ ⟨rfl, rfl⟩) ?_ ?_⟩
  · rw [hdb]
    exact fun row hr ↦ (MessageRepository.mem_update ch.now msg w.db row).mp hr
  · intro row hrow he
    cases i with
    | worker n => exact rowOk_updated_worker ch.now (ha _ hle) he
    | scheduler => exact rowOk_updated_scheduler ch.now hv (ha _ hle) he (hl.rows row hrow)
    | client c => exact (ha _ hle).elim

end Chis.Pipeline
