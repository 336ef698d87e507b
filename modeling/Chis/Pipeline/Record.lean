import Chis.Pipeline.Attempts
import Chis.Pipeline.WriteBack

/-!
# What the row of a message tells

`next_retry_at` is set by the first refusal and never cleared, in any order of the operations; and
as long as no outcome gets between a push of the scheduler and its write of the row, `attempt_count`
counts the refused deliveries, up to five.
-/

namespace Chis.Pipeline

open Program

/-- The deliveries that were answered without a 2xx status. -/
def refusedCount (ds : List Delivery) : Nat := ds.countP fun d ↦ d.outcome = some false

/-- The time of the next attempt stands in a row that has counted one, and in no other. -/
def Dated (msg : Message) : Prop := msg.nextRetryAt = none ↔ msg.attemptCount = 0

/-- Where the count and the time in a row come from. -/
theorem row_from {env : Platform} {ch : Choice} {db db' : Db} {s : Stmt} {r : Except Err s.Ok}
    {row : Message} (hx : s.exec env ch db = (r, db')) (hrow : row ∈ db'.messages) :
    ((∃ row₀ ∈ db.messages, row₀.id = row.id ∧ row.attemptCount = row₀.attemptCount ∧
      row.nextRetryAt = row₀.nextRetryAt) ∧ ∀ msg, s = .messageUpdate msg → row.id ≠ msg.id) ∨
    (row.attemptCount = 0 ∧ row.nextRetryAt = none ∧ s.inserts = true ∧ row.id = ch.id) ∨
    ∃ msg, s = .messageUpdate msg ∧ row.id = msg.id ∧ row.attemptCount = msg.attemptCount ∧
      row.nextRetryAt = msg.nextRetryAt := by
  by_cases hs : ∃ msg, s = .messageUpdate msg
  · obtain ⟨msg, rfl⟩ := hs
    have hdb : MessageRepository.update ch.now msg db = db' := congrArg Prod.snd hx
    rw [← hdb, MessageRepository.mem_update] at hrow
    obtain ⟨row₀, h₀, rfl⟩ := hrow
    split
    · next hid => exact .inr (.inr ⟨msg, rfl, hid, rfl, rfl⟩)
    · next hid =>
      refine .inl ⟨⟨row₀, h₀, rfl, rfl, rfl⟩, fun msg' he ↦ ?_⟩
      cases he
      exact hid
  · have hne (msg : Message) (he : s = .messageUpdate msg) : row.id ≠ msg.id :=
      absurd ⟨msg, he⟩ hs
    have hc := Stmt.exec_change env ch db s
    rw [hx] at hc
    cases hc with
    | messageCreate hi =>
      rcases (Relational.Table.mem_of_insert? hi row).mp hrow with h | rfl
      · exact .inl ⟨⟨row, h, rfl, rfl, rfl⟩, hne⟩
      · exact .inr (.inl ⟨rfl, rfl, rfl, rfl⟩)
    | organizationDelete id =>
      exact .inl ⟨⟨row, ((Relational.Table.mem_filter _ _ _).mp hrow).1, rfl, rfl, rfl⟩, hne⟩
    | messageUpdateStatus hu =>
      obtain ⟨row₀, h₀, he⟩ := (MessageRepository.mem_updateStatus hu row).mp hrow
      refine .inl ⟨⟨row₀, h₀, ?_⟩, hne⟩
      rw [he]
      split <;> exact ⟨rfl, rfl, rfl⟩
    | messageUpdate msg => exact absurd ⟨msg, rfl⟩ hs
    | _ => exact .inl ⟨⟨row, hrow, rfl, rfl, rfl⟩, hne⟩

section Moves

variable {env : Platform} {G : History → Event → Prop} {w w' : World} {i : Proc} {o : Op}
  {r : o.Res} {t : Time} {m : Uuid}

/-! ### The time of the next attempt -/

/-- Rows and the copies that the services have of them. -/
structure Stamped (w : World) : Prop where
  rows : ∀ row ∈ w.db.messages, Dated row
  copies : ∀ n msg, underway (w.past (.worker n)) = some msg → Dated msg
  todo : ∀ msg ∈ (round (history w)).todo, Dated msg
  current : ∀ msg, (round (history w)).current = some msg → Dated msg

/-- The copies of a round are those that were listed. -/
theorem Round.next_from {ρ : Round} {ev : Event} {msg : Message}
    (hm : msg ∈ (ρ.next ev).todo ∨ (ρ.next ev).current = some msg) :
    (msg ∈ ρ.todo ∨ ρ.current = some msg) ∨ ∃ msgs, ev = .listed msgs ∧ msg ∈ msgs := by
  cases ev with
  | listed msgs =>
    rcases hm with hm | hm
    · exact .inr ⟨msgs, rfl, hm⟩
    · cases hm
  | pushed i id =>
    left
    rcases ρ with (_ | ⟨x, todo⟩) | ⟨x, todo⟩ <;> cases i <;>
      simp_all [Round.next, Round.todo, Round.current, eq_comm, or_comm]
  | updated i x =>
    left
    rcases ρ with todo | ⟨x, todo⟩ <;> cases i <;>
      simp_all [Round.next, Round.todo, Round.current]
  | _ => exact .inl hm

/-- Only the scheduler lists. -/
theorem Event.of_listed {msgs : List Message} (h : Event.of i o r = .listed msgs) :
    ∃ limit, o = .sql (.findRetryReady limit) ∧ HEq r (Except.ok msgs : Except Err (List Message)) := by
  cases o with
  | sql s =>
    cases s with
    | findRetryReady limit =>
      cases r <;> cases i <;> simp [Event.of, Event.ofStmt] at h
      exact ⟨limit, rfl, by rw [h]⟩
    | _ => cases r <;> cases i <;> simp [Event.of, Event.ofStmt] at h
  | push messageID => cases r <;> cases hp : Uuid.parse messageID <;> simp [Event.of, hp] at h
  | pop =>
    cases r with
    | error e => cases h
    | ok s => cases hp : Uuid.parse s <;> cases i <;> simp [Event.of, hp] at h
  | send id req => cases i <;> simp [Event.of] at h
  | answer id => cases i <;> simp [Event.of] at h
  | _ => cases h

/-- What is written into a row is in step with itself. -/
private theorem Stamped.written {msg : Message} {r : Except Err Unit} (hk : Kept w) (hs : Stamped w)
    (h : Move env G w i (.sql (.messageUpdate msg)) r w' t) : Dated msg := by
  obtain ⟨ch, -, -, hex, -⟩ := exec_sql h.exec
  have hr : r = .ok () := (congrArg Prod.fst hex).symm
  subst hr
  have ha := h.allowed
  cases i with
  | worker n =>
    obtain ⟨-, m₀, hu, ⟨next, rfl⟩ | rfl⟩ := h.promise
    · obtain ⟨-, k, -, hcount⟩ := hk.underway n m₀ hu
      have hne : m₀.attemptCount + 1 ≠ 0 := by
        rw [hcount]
        omega
      exact ⟨fun he ↦ (by cases he), fun he ↦ absurd he hne⟩
    · exact hs.copies n m₀ hu
  | scheduler =>
    obtain ⟨m₀, todo, hr, rfl⟩ := ha
    exact hs.current m₀ (by rw [hr]; rfl)
  | client n => exact ha.elim

/-- A row was there before, or has been written. -/
private theorem Stamped.rows_step (hk : Kept w) (hs : Stamped w) (h : Move env G w i o r w' t)
    (row : Message) (hrow : row ∈ w'.db.messages) : Dated row := by
  by_cases ho : ∃ s, o = .sql s
  · obtain ⟨s, rfl⟩ := ho
    obtain ⟨ch, -, -, hex, -⟩ := exec_sql h.exec
    rcases row_from hex hrow with ⟨⟨row₀, h₀, -, hcount, hnext⟩, -⟩ | ⟨hcount, hnext, -⟩ |
      ⟨msg, rfl, -, hcount, hnext⟩
    · rw [Dated, hcount, hnext]
      exact hs.rows row₀ h₀
    · rw [Dated, hcount, hnext]
      exact ⟨fun _ ↦ rfl, fun _ ↦ rfl⟩
    · rw [Dated, hcount, hnext]
      exact hs.written hk h
  · rw [h.exec.db_eq fun s he ↦ ho ⟨s, he⟩] at hrow
    exact hs.rows row hrow

private theorem Stamped.copies_step (hs : Stamped w) (h : Move env G w i o r w' t) (n : Nat)
    (msg : Message) (hu : underway (w'.past (.worker n)) = some msg) : Dated msg := by
  by_cases hn : Proc.worker n = i
  · subst hn
    rw [h.past_self] at hu
    by_cases ho : ∃ id, o = .sql (.messageFindById id)
    · obtain ⟨id, rfl⟩ := ho
      cases r with
      | error e => cases hu
      | ok row =>
        cases hu
        obtain ⟨ch, -, -, hex, -⟩ := exec_sql h.exec
        exact hs.rows msg (MessageRepository.findById_ok (congrArg Prod.fst hex)).1
    · exact hs.copies n msg (event_underway hu (fun id he ↦ ho ⟨id, he⟩) h.allowed).1
  · rw [h.past_other hn] at hu
    exact hs.copies n msg hu

private theorem Stamped.round_step (hs : Stamped w) (h : Move env G w i o r w' t) {msg : Message}
    (hm : msg ∈ (round (history w')).todo ∨ (round (history w')).current = some msg) :
    Dated msg := by
  rw [h.history, round_cons] at hm
  rcases Round.next_from hm with (hm | hm) | ⟨msgs, he, hmsg⟩
  · exact hs.todo msg hm
  · exact hs.current msg hm
  · obtain ⟨limit, rfl, hr⟩ := Event.of_listed he
    cases hr
    obtain ⟨ch, -, -, hex, -⟩ := exec_sql h.exec
    have hlisted := congrArg Prod.fst hex
    cases hlisted
    exact hs.rows msg ((MessageRepository.findRetryReady_spec _ _ _ _).2 msg hmsg).1

theorem Stamped.step (hk : Kept w) (hs : Stamped w) (h : Move env G w i o r w' t) : Stamped w' where
  rows := hs.rows_step hk h
  copies := hs.copies_step h
  todo := fun _ hm ↦ hs.round_step h (.inl hm)
  current := fun _ hm ↦ hs.round_step h (.inr hm)

/-! ### The count -/

theorem Waiting.refusedCount {ds : List Delivery} {n : Nat} {due : Time} (h : Waiting ds n due) :
    Pipeline.refusedCount ds = n := by
  rw [Pipeline.refusedCount, ← h.length, List.countP_eq_length]
  intro d hd
  obtain ⟨t, ha⟩ := h.refused d hd
  simp [Delivery.outcome, ha]

theorem Turn.refusedCount {ds : List Delivery} {n : Nat} {d : Delivery} (h : Turn ds n d) :
    Pipeline.refusedCount ds = n + if d.outcome = some false then 1 else 0 := by
  obtain ⟨prev, due, hw, -, rfl⟩ := h
  have hp := hw.refusedCount
  unfold Pipeline.refusedCount at hp ⊢
  rw [List.countP_append, hp, List.countP_singleton]
  simp

/-- A final status was there before, or has just been written by the worker that holds the
message. -/
private theorem settled_from {h : History} {ev : Event} {st : MessageStatus} (ha : Allowed h t ev)
    (hl : (life h m).next m t ev = .settled st) :
    (life h m = .settled st ∧ ∀ msg, msg.id = m → ∀ i, ev ≠ .updated i msg) ∨
      (∃ n, ev = .marked n m st) ∨ ∃ n msg, ev = .updated (.worker n) msg ∧ msg.id = m ∧
        msg.status ≠ .retry := by
  cases ev with
  | updated i msg =>
    rw [Life.next] at hl
    split at hl
    · next he =>
      cases i with
      | worker n =>
        refine .inr (.inr ⟨n, msg, rfl, he, fun hs ↦ ?_⟩)
        subst he
        obtain ⟨k, since, hlife, -⟩ := ha
        rw [hlife, Life.write, if_pos hs] at hl
        cases hl
      | scheduler => cases hlife : life h m <;> grind [Life.write]
      | client c => exact ha.elim
    · next he =>
      refine .inl ⟨hl, fun msg' hid i' he' ↦ ?_⟩
      cases he'
      exact he hid
  | marked n id st' =>
    rw [Life.next] at hl
    split at hl
    · next he =>
      cases hl
      exact .inr (.inl ⟨n, by rw [he]⟩)
    · exact .inl ⟨hl, by simp⟩
  | listed msgs =>
    refine .inl ⟨?_, by simp⟩
    rw [Life.next] at hl
    split at hl
    · cases hlife : life h m <;> rw [hlife] at hl <;> cases hl
      rfl
    · exact hl
  | _ =>
    refine .inl ⟨?_, by simp⟩
    cases hlife : life h m <;>
      grind [Life.next, Life.enqueue, Life.take, Life.start, Life.answer]

/-- The rows with a final status count the refused deliveries, up to five. -/
def Counted (w : World) : Prop :=
  ∀ row ∈ w.db.messages, ∀ st, life (history w) row.id = .settled st →
    row.attemptCount = min (refusedCount (deliveries (history w) row.id)) 5

/-- The count of a row whose worker has just found that it is to be final. -/
private theorem counted_marked {st : MessageStatus} {n : Nat} {row₀ : Message}
    (h : Move env G w i o r w' t) (he : Event.of i o r = .marked n row₀.id st)
    (hrow₀ : row₀ ∈ w.db.messages) :
    row₀.attemptCount = min (refusedCount (deliveries (history w) row₀.id)) 5 := by
  have ha := h.allowed
  have hr := h.linked.rows row₀ hrow₀
  have ht := told h.valid row₀.id
  rw [he] at ha
  rcases ha with ⟨-, due, hl⟩ | ⟨-, k, since, hl⟩
  · rw [hl] at hr ht
    have hn := Waiting.refusedCount ht
    rw [hr.1, hn]
    rfl
  · rw [hl] at hr ht
    obtain ⟨start, ht⟩ := ht
    have hn := ht.refusedCount
    have hb := ht.bound
    simp only [Delivery.outcome, Option.map_some, Option.some.injEq, Bool.true_eq_false, if_false,
      Nat.add_zero] at hn
    rw [hr.1, hn]
    omega

/-- A message that is written off has been refused six times. -/
private theorem counted_failed {n : Nat} {msg : Message} {r : Except Err Unit} (hk : Kept w)
    (h : Move env G w i (.sql (.messageUpdate msg)) r w' t)
    (he : Event.of i (.sql (.messageUpdate msg)) r = .updated (.worker n) msg)
    (hs : msg.status ≠ .retry) :
    msg.attemptCount = min (refusedCount (deliveries (history w) msg.id)) 5 := by
  obtain ⟨ch, -, -, hex, -⟩ := exec_sql h.exec
  have hr : r = .ok () := (congrArg Prod.fst hex).symm
  subst hr
  cases he
  obtain ⟨-, m₀, hu, ⟨next, rfl⟩ | rfl⟩ := h.promise
  · exact absurd rfl hs
  · obtain ⟨k, since, hl, ⟨hretry, -⟩ | ⟨-, hmax⟩⟩ := h.allowed
    · cases hretry
    · obtain ⟨-, k', hf, hcount⟩ := hk.underway n m₀ hu
      have ht := told h.valid m₀.id
      rw [hl] at hf ht
      cases hf
      obtain ⟨start, ht⟩ := ht
      have hn := ht.refusedCount
      have hb := ht.bound
      simp only [Delivery.outcome, Option.map_some, if_true] at hn
      unfold Worker.maxAttempts at hmax
      rw [hn, hcount]
      omega

/-- Only a whole row is written so. -/
theorem Event.of_updated {j : Proc} {msg : Message} (h : Event.of i o r = .updated j msg) :
    o = .sql (.messageUpdate msg) := by
  cases o with
  | sql s =>
    cases s with
    | messageUpdate msg' =>
      cases r <;> simp [Event.of, Event.ofStmt] at h
      rw [h.2]
    | _ => cases r <;> cases i <;> simp [Event.of, Event.ofStmt] at h
  | push messageID => cases r <;> cases hp : Uuid.parse messageID <;> simp [Event.of, hp] at h
  | pop =>
    cases r with
    | error e => cases h
    | ok s => cases hp : Uuid.parse s <;> cases i <;> simp [Event.of, hp] at h
  | send id req => cases i <;> simp [Event.of] at h
  | answer id => cases i <;> simp [Event.of] at h
  | _ => cases h

/-- A row that no whole write concerns keeps its count. -/
private theorem count_from {row : Message} (h : Move env G w i o r w' t)
    (hrow : row ∈ w'.db.messages) (hold : life (history w) row.id ≠ .absent)
    (hno : ∀ msg, msg.id = row.id → ∀ j, Event.of i o r ≠ .updated j msg) :
    ∃ row₀ ∈ w.db.messages, row₀.id = row.id ∧ row.attemptCount = row₀.attemptCount := by
  by_cases ho : ∃ s, o = .sql s
  · obtain ⟨s, rfl⟩ := ho
    obtain ⟨ch, -, hfresh, hex, -⟩ := exec_sql h.exec
    rcases row_from hex hrow with ⟨⟨row₀, h₀, hid, hcount, -⟩, -⟩ | ⟨-, -, hins, hid⟩ |
      ⟨msg, rfl, hid, -⟩
    · exact ⟨row₀, h₀, hid, hcount⟩
    · exact absurd (h.linked.issued row.id hold) (hid ▸ hfresh hins)
    · cases congrArg Prod.fst hex
      exact absurd rfl (hno msg hid.symm i)
  · rw [h.exec.db_eq fun s he ↦ ho ⟨s, he⟩] at hrow
    exact ⟨row, hrow, rfl, rfl⟩

theorem Counted.step (hk : Kept w) (hc : Counted w) (h : Move env G w i o r w' t) : Counted w' := by
  intro row hrow st hl
  have ha := h.allowed
  rw [h.history, life_cons] at hl
  have hold : life (history w) row.id ≠ .absent := by
    intro habsent
    rcases absent_from ha (m := row.id) (by rw [hl]; simp) with hne | ⟨c, he⟩
    · exact hne habsent
    · rw [he, Life.next, if_pos rfl] at hl
      cases hl
  have hds : deliveries (history w') row.id = deliveries (history w) row.id := by
    rw [h.history, deliveries_cons]
    apply deliveriesNext_of_ne
    · intro n he
      rw [he] at ha hl
      obtain ⟨k, due, hlife, -⟩ := ha
      simp [Life.next, hlife, Life.start] at hl
    · intro n ok he
      rw [he] at ha hl
      obtain ⟨k, hlife⟩ := ha
      simp [Life.next, hlife, Life.answer] at hl
  rw [hds]
  rcases settled_from ha hl with ⟨hl', hno⟩ | ⟨n, he⟩ | ⟨n, msg, he, hid, hs⟩
  · obtain ⟨row₀, h₀, hid, hcount⟩ := count_from h hrow hold hno
    rw [hcount, ← hid]
    exact hc row₀ h₀ st (hid ▸ hl')
  · obtain ⟨row₀, h₀, hid, hcount⟩ := count_from h hrow hold fun msg _ j hu ↦ by
      rw [he] at hu
      cases hu
    rw [hcount, ← hid]
    exact counted_marked h (hid ▸ he) h₀
  · obtain rfl := Event.of_updated he
    obtain ⟨ch, -, -, hex, -⟩ := exec_sql h.exec
    rcases row_from hex hrow with ⟨-, hne⟩ | ⟨-, -, hins, -⟩ | ⟨msg', hmsg, -, hcount, -⟩
    · exact absurd hid.symm (hne msg rfl)
    · cases hins
    · cases hmsg
      rw [hcount, ← hid]
      exact counted_failed hk h he hs

end Moves

/-! ### Runs -/

section Runs

variable {env : Platform} {callers : Nat → Caller} {G : History → Event → Prop} {w : World}
  {c : Config Proc World Op Op.Res}

theorem stamped_run (hw : Fresh w) (hs : w.Sound) (hc : (delivering env callers G).Reachable w c) :
    Stamped c.state ∧ Counted c.state := by
  refine hc.induct (I := fun c ↦ Stamped c.state ∧ Counted c.state) ?_ fun c c' hc ih hstep ↦ ?_
  · have hnone (row : Message) : row ∉ w.db.messages := by
      rw [Relational.Table.mem_def, hw.messages]
      exact List.not_mem_nil
    have hpast (i : Proc) : w.past i = [] := by
      rw [World.past, hw.log]
      rfl
    have hround : round (history w) = .idle [] := by
      rw [history, hw.log]
      rfl
    refine ⟨⟨fun row hrow ↦ absurd hrow (hnone row), fun n msg hu ↦ ?_, fun msg hm ↦ ?_,
      fun msg hm ↦ ?_⟩, fun row hrow ↦ absurd hrow (hnone row)⟩
    · cases (congrArg underway (hpast (.worker n))).symm.trans hu
    · rw [System.init, hround] at hm
      cases hm
    · rw [System.init, hround] at hm
      cases hm
  · cases hstep with
    | act hp hx =>
      obtain ⟨t, h⟩ := move_of_step hw hs hc hp hx
      have hk := (kept_run hw hs hc).1
      exact ⟨ih.1.step hk h, ih.2.step hk h⟩
    | again => exact ih

/-- What the row of a message tells of its deliveries. -/
structure Tells (row : Message) (ds : List Delivery) : Prop where
  attemptCount : row.attemptCount = min (refusedCount ds) 5
  nextRetryAt : row.nextRetryAt = none ↔ refusedCount ds = 0
  success : row.status = .success ↔ ∃ d ∈ ds, d.outcome = some true
  refusedSix : refusedCount ds = 6 → row.status = .failed
  failed : row.status = .failed → ds = [] ∨ refusedCount ds = 6

private theorem Waiting.noneAccepted {ds : List Delivery} {n : Nat} {due : Time}
    (h : Waiting ds n due) : ¬ ∃ d ∈ ds, d.outcome = some true := by
  rintro ⟨d, hd, ho⟩
  obtain ⟨t, ha⟩ := h.refused d hd
  rw [Delivery.outcome, ha] at ho
  cases ho

/-- A message that waits for another delivery. -/
private theorem Waiting.tells {row : Message} {ds : List Delivery} {n : Nat} {due : Time}
    (h : Waiting ds n due) (hd : Dated row) (hn : row.attemptCount = n)
    (hs : row.status = .pending ∨ row.status = .retry) : Tells row ds := by
  have hc := h.refusedCount
  have hb := h.bound
  have hs' : row.status ≠ .success ∧ row.status ≠ .failed := by
    rcases hs with hs | hs <;> rw [hs] <;> simp
  rw [Dated] at hd
  constructor
  · rw [hn, hc]
    omega
  · rw [hd, hn, hc]
    omega
  · exact ⟨fun he ↦ absurd he hs'.1, fun he ↦ absurd he h.noneAccepted⟩
  · intro h6
    omega
  · exact fun he ↦ absurd he hs'.2

/-- A message with a final status. -/
private theorem tells_settled {row : Message} {ds : List Delivery}
    (h : Told ds (.settled row.status)) (hd : Dated row)
    (hn : row.attemptCount = min (refusedCount ds) 5) : Tells row ds := by
  have hnext : row.nextRetryAt = none ↔ refusedCount ds = 0 := by
    rw [Dated] at hd
    rw [hd, hn]
    omega
  rcases h with ⟨hs, rfl⟩ | ⟨n, d, t, ok, ht, ha, ⟨hs, rfl⟩ | ⟨hs, rfl, rfl⟩⟩
  · exact ⟨hn, hnext, by simp [hs], fun _ ↦ hs, fun _ ↦ .inl rfl⟩
  · have hc := ht.refusedCount
    have hb := ht.bound
    simp only [Delivery.outcome, ha, Option.map_some, Option.some.injEq, Bool.true_eq_false,
      if_false] at hc
    refine ⟨hn, hnext, ⟨fun _ ↦ ⟨d, List.mem_of_getLast? ht.last, by simp [Delivery.outcome, ha]⟩,
      fun _ ↦ hs⟩, fun h6 ↦ by omega, fun he ↦ ?_⟩
    rw [hs] at he
    cases he
  · have hc := ht.refusedCount
    simp only [Delivery.outcome, ha, Option.map_some, if_true] at hc
    refine ⟨hn, hnext, ⟨fun he ↦ ?_, ?_⟩, fun _ ↦ hs, fun _ ↦ .inr hc⟩
    · rw [hs] at he
      cases he
    · rintro ⟨d', hd', ho⟩
      obtain ⟨prev, due, hw, -, rfl⟩ := ht
      rcases List.mem_append.mp hd' with hd' | hd'
      · exact absurd ⟨d', hd', ho⟩ hw.noneAccepted
      · rw [List.mem_singleton.mp hd', Delivery.outcome, ha] at ho
        cases ho

/-- As long as no outcome is written between a push of the scheduler and its write of the row, the
row of a message that no worker has in hand tells the outcomes of its deliveries; and its count is
the number of attempts in the log exactly when all were refused, five at most. -/
theorem record_tells (hw : Fresh w) (hs : w.Sound)
    (hc : (delivering env callers (Clear fun _ ↦ True)).Reachable w c) {row : Message}
    (hrow : row ∈ c.state.db.messages) (hfree : ∀ n, hand (history c.state) n ≠ some row.id) :
    Tells row (deliveries (history c.state) row.id) ∧
      ((∀ a ∈ answers c.state row.id, a.storable = true) →
        (row.attemptCount = (attempts c.state.db row.id).length ↔
          refusedCount (deliveries (history c.state) row.id) =
              (deliveries (history c.state) row.id).length ∧
            (deliveries (history c.state) row.id).length ≤ 5)) := by
  obtain ⟨hv, hl, hclear⟩ := pipeline_sound hw hc
  obtain ⟨hk, hr⟩ := kept_run hw hs hc
  obtain ⟨hstamped, hcounted⟩ := stamped_run hw hs hc
  have htells : Tells row (deliveries (history c.state) row.id) := by
    have hd := hstamped.rows row hrow
    have hrow' := hl.rows row hrow
    have ht := told hv row.id
    have hhold (n : Nat) : (life (history c.state) row.id).holder ≠ some n :=
      fun hn ↦ hfree n ((hand_iff hv n row.id).mpr hn)
    cases hlife : life (history c.state) row.id with
    | absent => rw [hlife] at hrow'; exact hrow'.elim
    | dropped => rw [hlife] at hrow'; exact hrow'.elim
    | accepted n =>
      rw [hlife] at hrow' ht
      rw [show deliveries _ _ = [] from ht]
      exact (waiting_nil 0).tells hd hrow'.2 (.inl hrow'.1)
    | queued n due =>
      rw [hlife] at hrow' ht
      exact Waiting.tells ht hd hrow'.1 (hrow'.2.imp_right And.left)
    | parked n due =>
      rw [hlife] at hrow' ht
      exact Waiting.tells ht hd hrow'.2.1 (.inr hrow'.1)
    | listed n due =>
      rw [hlife] at hrow' ht
      exact Waiting.tells ht hd hrow'.2.1 (.inr hrow'.1)
    | held n k due => exact absurd (by rw [hlife]; rfl) (hhold n)
    | sent n k => exact absurd (by rw [hlife]; rfl) (hhold n)
    | answered n k ok since => exact absurd (by rw [hlife]; rfl) (hhold n)
    | lost => exact absurd hlife (never_lost hv hclear row.id)
    | settled st =>
      have hcount := hcounted row hrow st hlife
      rw [hlife] at hrow' ht
      rw [← show row.status = st from hrow'] at ht
      exact tells_settled ht hd hcount
  refine ⟨htells, fun hall ↦ ?_⟩
  obtain ⟨houtcomes, hshown⟩ := released hv hk hr hrow hfree
  have hlen := congrArg List.length houtcomes
  have hlog := congrArg List.length hshown
  rw [List.length_map, List.length_map] at hlen
  rw [List.length_map, length_recorded, List.countP_eq_length.mpr hall] at hlog
  have hle : refusedCount (deliveries (history c.state) row.id) ≤
      (deliveries (history c.state) row.id).length := List.countP_le_length
  rw [htells.attemptCount]
  omega

end Runs

theorem record_tells_sample :
    ∃ c, (delivering samplePlatform sampleCallers (Clear fun _ ↦ True)).Reachable sampleWorld c ∧
      ∃ row ∈ c.state.db.messages, refusedCount (deliveries (history c.state) row.id) = 2 ∧
        Tells row (deliveries (history c.state) row.id) := by
  have hrun : (playSample calm (refusals 2)).map (fun c ↦
      (c.state.db.messages.rows.map Message.id, life (history c.state) ⟨2⟩,
        refusedCount (deliveries (history c.state) ⟨2⟩))) = some ([⟨2⟩], .parked 2 102000000, 2) := by
    decide +kernel
  obtain ⟨c, hc, he⟩ := sample_reachable (clear_of_calm _) (by decide +kernel) hrun
  obtain ⟨hrows, he⟩ := Prod.mk.inj he
  obtain ⟨hlife, hcount⟩ := Prod.mk.inj he
  obtain ⟨row, hrow, hid⟩ := exists_of_map_eq hrows
  have hdelivering : (delivering samplePlatform sampleCallers (Clear fun _ ↦ True)).Reachable
      sampleWorld c := hc
  refine ⟨c, hc, row, hrow, by rw [hid, hcount], ?_⟩
  apply (record_tells sampleWorld_fresh sampleWorld_sound hdelivering hrow fun n hn ↦ ?_).1
  rw [hand_iff (pipeline_sound sampleWorld_fresh hc).1, hid, hlife] at hn
  cases hn

end Chis.Pipeline
