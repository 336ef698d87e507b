import Chis.Api.System
import Chis.Pipeline.Guarantees
import Chis.Pipeline.Turns
import Mathlib.Data.List.Induction

/-!
# The log of attempts

Every answer is logged in `delivery_attempts` under its number, unless Postgres refuses to store it.
-/

namespace Chis

/-- Postgres stores what the attempt tells of this answer. -/
def Answer.storable : Answer → Bool
  | .response _ body => body.isEmpty || bytesOk body
  | .failed message => textOk message

namespace Pipeline

open Program

/-- The answer that an operation brings for message `m`. -/
def answerTo (m : Uuid) : (o : Op) → o.Res → Option Answer
  | .answer id, (a : Answer) => if id = m then some a else none
  | _, _ => none

/-- The answers that have come for message `m`, in their order. -/
def answers (w : World) (m : Uuid) : List Answer :=
  (w.log.filterMap fun e ↦ answerTo m e.op e.res).reverse

/-- The rows that log the attempts of message `m`. -/
def attempts (db : Db) (m : Uuid) : List DeliveryAttempt :=
  db.deliveryAttempts.rows.filter fun a ↦ a.messageID = m

/-- What a row shows of an attempt: its number, and how the exchange ended. -/
def shown (a : DeliveryAttempt) : Int × Option Int × Option (List UInt8) × Option String :=
  (a.attemptNumber, a.statusCode, a.responseBody, a.errorMessage)

/-- The row of an answer that `k` others came before. -/
def entry (k : Nat) (answer : Answer) : Int × Option Int × Option (List UInt8) × Option String :=
  shown (Worker.attemptOf { Message.zero with attemptCount := k } answer 0)

/-- The rows of the answers that can be stored. -/
def recorded (as : List Answer) : List (Int × Option Int × Option (List UInt8) × Option String) :=
  (as.zipIdx.filter fun p ↦ p.1.storable).map fun p ↦ entry p.2 p.1

theorem recorded_concat (as : List Answer) (a : Answer) :
    recorded (as ++ [a]) = recorded as ++ if a.storable then [entry as.length a] else [] := by
  unfold recorded
  rw [List.zipIdx_append, List.filter_append, List.map_append]
  congr 1
  cases h : a.storable <;> simp [h]

theorem length_recorded (as : List Answer) : (recorded as).length = as.countP Answer.storable := by
  induction as using List.reverseRecOn with
  | nil => rfl
  | append_singleton as a ih =>
    rw [recorded_concat, List.length_append, ih, List.countP_append]
    cases h : a.storable <;> simp [h]

/-- The numbers run from 1 to the last exactly when every answer can be stored. -/
theorem numbers_recorded (as : List Answer) :
    (recorded as).map Prod.fst = (List.range as.length).map (fun k : Nat ↦ (k : Int) + 1) ↔
      ∀ a ∈ as, a.storable = true := by
  constructor
  · intro he
    have hl := congrArg List.length he
    rw [List.length_map, length_recorded, List.length_map, List.length_range] at hl
    exact List.countP_eq_length.mp hl
  · intro hall
    induction as using List.reverseRecOn with
    | nil => rfl
    | append_singleton as a ih =>
      rw [recorded_concat, if_pos (hall a (by simp)), List.map_append,
        ih fun x hx ↦ hall x (List.mem_append_left _ hx), List.length_append, List.length_singleton,
        List.range_succ, List.map_append]
      rfl

/-! ### What a statement does to the rows -/

section Statements

variable {env : Platform} {ch : Choice} {db db' : Db}

/-- An attempt of a message that is there is inserted unless it cannot be stored. -/
theorem attemptCreate_exec {msg : Message} {answer : Answer} {ms : Int}
    {r : Except Err DeliveryAttempt} (hid : ∀ a ∈ db.deliveryAttempts, a.id ≠ ch.id)
    (hx : (Stmt.attemptCreate (Worker.attemptOf msg answer ms)).exec env ch db = (r, db')) :
    db'.messages = db.messages ∧ ∃ new,
      db'.deliveryAttempts.rows = db.deliveryAttempts.rows ++ new ∧
      (∀ a ∈ new, a.messageID = msg.id) ∧ ((∃ row ∈ db.messages, row.id = msg.id) →
        new.map shown = if answer.storable then [shown (Worker.attemptOf msg answer ms)] else []) := by
  have hstorable (hm : ∃ row ∈ db.messages, row.id = msg.id) :
      (∃ x, DeliveryAttemptRepository.create ch.id ch.now
        (Worker.attemptOf msg answer ms) db = .ok x) ↔ answer.storable = true := by
    rw [DeliveryAttemptRepository.create_succeeds_iff]
    cases answer with
    | response code body =>
      cases h : body.isEmpty <;> simp_all [Worker.attemptOf, Answer.storable]
    | failed message => simp_all [Worker.attemptOf, Answer.storable]
  rcases Stmt.write_inv hx with ⟨a, -, hok⟩ | ⟨e, -, herror, rfl⟩
  · obtain ⟨rfl, -, rows, ha, rfl⟩ := DeliveryAttemptRepository.create_ok hok
    refine ⟨rfl, [_], ((Relational.Table.insert?_eq_some_iff _ _ _).mp ha).2, fun a ha ↦ ?_, ?_⟩
    · rw [List.mem_singleton.mp ha]
      cases answer <;> rfl
    · intro hm
      rw [if_pos ((hstorable hm).mp ⟨_, hok⟩)]
      rfl
  · refine ⟨rfl, [], (List.append_nil _).symm, fun a ha ↦ absurd ha List.not_mem_nil, fun hm ↦ ?_⟩
    rw [if_neg]
    · rfl
    · intro hs
      obtain ⟨x, hok⟩ := (hstorable hm).mpr hs
      rw [herror] at hok
      cases hok

/-- The number of an attempt is one more than what the message counts. -/
theorem shown_attemptOf {msg : Message} {k : Nat} (hk : msg.attemptCount = k) (answer : Answer)
    (ms : Int) : shown (Worker.attemptOf msg answer ms) = entry k answer := by
  cases answer <;> simp [shown, entry, Worker.attemptOf, hk]

/-- Any other statement leaves the rows of a message alone as long as it leaves the message. -/
theorem attempts_exec {s : Stmt} {r : Except Err s.Ok} (hs : ∀ x, s ≠ .attemptCreate x)
    (hx : s.exec env ch db = (r, db')) {row : Message} (hrow : row ∈ db'.messages) :
    attempts db' row.id = attempts db row.id ∧
      ((∃ row₀ ∈ db.messages, row₀.id = row.id) ∨ s.inserts = true ∧ row.id = ch.id) := by
  have hc := Stmt.exec_change env ch db s
  rw [hx] at hc
  cases hc with
  | messageCreate hi =>
    refine ⟨rfl, ?_⟩
    rcases (Relational.Table.mem_of_insert? hi row).mp hrow with h | rfl
    · exact .inl ⟨row, h, rfl⟩
    · exact .inr ⟨rfl, rfl⟩
  | organizationDelete id =>
    obtain ⟨h, horg⟩ := (Relational.Table.mem_filter _ _ _).mp hrow
    refine ⟨?_, .inl ⟨row, h, rfl⟩⟩
    unfold attempts
    change ((db.deliveryAttempts.filter _).rows.filter _) = _
    rw [Relational.Table.filter, List.filter_filter]
    apply List.filter_congr
    intro a _
    by_cases ha : a.messageID = row.id
    · simp [ha, (db.messages.find?_eq_some_iff _ _).mpr ⟨h, rfl⟩, of_decide_eq_true horg]
    · simp [ha]
  | messageUpdateStatus hu =>
    obtain ⟨row₀, h₀, he⟩ := (MessageRepository.mem_updateStatus hu row).mp hrow
    obtain ⟨messages, rfl⟩ := MessageRepository.updateStatus_ok hu
    refine ⟨rfl, .inl ⟨row₀, h₀, ?_⟩⟩
    rw [he]
    split <;> rfl
  | messageUpdate msg =>
    obtain ⟨row₀, h₀, he⟩ := (MessageRepository.mem_update ch.now msg db row).mp hrow
    refine ⟨rfl, .inl ⟨row₀, h₀, ?_⟩⟩
    rw [he]
    split <;> rfl
  | attemptCreate => exact absurd rfl (hs _)
  | _ => exact ⟨rfl, .inl ⟨row, hrow, rfl⟩⟩

end Statements

/-! ### Moves -/

/-- What each process promises of its operations. -/
def Promise : Proc → List (Program.Event Op.Res) → Op → Prop
  | .worker _ => Works
  | .scheduler | .client _ => fun _ o ↦ unworked o = true

/-- One operation of a run, with what is known of the world before it. -/
structure Move (env : Platform) (G : History → Event → Prop) (w : World) (i : Proc) (o : Op)
    (r : o.Res) (w' : World) (t : Time) : Prop where
  valid : Valid (history w)
  linked : Linked env w
  sound : w.Sound
  allowed : Allowed (history w) t (Event.of i o r)
  guarded : Throughout G (history w) ∧ G (history w) (Event.of i o r)
  promise : Promise i (w.past i) o
  exec : World.Exec env World.faultless i o w r w'
  log : w'.log = ⟨i, o, r, t⟩ :: w.log

/-- An event belongs to the process that acts. -/
theorem Event.of_process (i : Proc) (o : Op) (r : o.Res) :
    Event.of i o r = .other ∨ (Event.of i o r).process = some i := by
  cases o with
  | sql s =>
    cases s with
    | messageCreate message =>
      cases r <;> cases i <;> simp [Event.of, Event.ofStmt, Event.process]
    | messageFindById id =>
      cases r <;> cases i <;> simp [Event.of, Event.ofStmt, Event.process]
    | messageUpdateStatus id status =>
      cases r <;> cases i <;> simp [Event.of, Event.ofStmt, Event.process]
    | messageUpdate msg => cases r <;> simp [Event.of, Event.ofStmt, Event.process]
    | findRetryReady limit =>
      cases r <;> cases i <;> simp [Event.of, Event.ofStmt, Event.process]
    | _ => exact .inl rfl
  | push messageID =>
    cases r with
    | error e => exact .inl rfl
    | ok u => cases h : Uuid.parse messageID <;> simp [Event.of, Event.process, h]
  | pop =>
    cases r with
    | error e => exact .inl rfl
    | ok s => cases h : Uuid.parse s <;> cases i <;> simp [Event.of, Event.process, h]
  | send id req => cases i <;> simp [Event.of, Event.process]
  | answer id => cases i <;> simp [Event.of, Event.process]
  | _ => exact .inl rfl

/-- Only the start of a delivery is one. -/
theorem Event.of_started {i : Proc} {o : Op} {r : o.Res} {n : Nat} {id : Uuid}
    (h : Event.of i o r = .started n id) : i = .worker n ∧ ∃ req, o = .send id req := by
  cases o with
  | sql s => cases s <;> cases r <;> cases i <;> simp [Event.of, Event.ofStmt] at h
  | push messageID => cases r <;> cases hp : Uuid.parse messageID <;> simp [Event.of, hp] at h
  | pop =>
    cases r with
    | error e => cases h
    | ok s => cases hp : Uuid.parse s <;> cases i <;> simp [Event.of, hp] at h
  | send id' req =>
    cases i <;> simp [Event.of] at h
    exact ⟨by rw [h.1], req, by rw [h.2]⟩
  | answer id' => cases i <;> simp [Event.of] at h
  | _ => cases h

/-- Only an answer is one. -/
theorem Event.of_answered {i : Proc} {o : Op} {r : o.Res} {n : Nat} {id : Uuid} {ok : Bool}
    (h : Event.of i o r = .answered n id ok) : i = .worker n ∧ o = .answer id := by
  cases o with
  | sql s => cases s <;> cases r <;> cases i <;> simp [Event.of, Event.ofStmt] at h
  | push messageID => cases r <;> cases hp : Uuid.parse messageID <;> simp [Event.of, hp] at h
  | pop =>
    cases r with
    | error e => cases h
    | ok s => cases hp : Uuid.parse s <;> cases i <;> simp [Event.of, hp] at h
  | send id' req => cases i <;> simp [Event.of] at h
  | answer id' =>
    cases i <;> simp [Event.of] at h
    exact ⟨by rw [h.1], by rw [h.2.1]⟩
  | _ => cases h

section Moves

variable {env : Platform} {G : History → Event → Prop} {w w' : World} {i : Proc} {o : Op}
  {r : o.Res} {t : Time} {m : Uuid}

namespace Move

theorem history (h : Move env G w i o r w' t) :
    Pipeline.history w' = (Event.of i o r, t) :: Pipeline.history w := by
  rw [Pipeline.history, h.log]
  rfl

theorem past_self (h : Move env G w i o r w' t) : w'.past i = ⟨o, r⟩ :: w.past i := by
  simp [World.past, h.log]

theorem past_other (h : Move env G w i o r w' t) {j : Proc} (hj : j ≠ i) :
    w'.past j = w.past j := by
  simp [World.past, h.log, Ne.symm hj]

theorem answers (h : Move env G w i o r w' t) (m : Uuid) :
    Pipeline.answers w' m = Pipeline.answers w m ++ (answerTo m o r).toList := by
  unfold Pipeline.answers
  rw [h.log, List.filterMap_cons]
  cases answerTo m o r <;> simp

/-- A message of another process stays where it stands. -/
theorem life_other (h : Move env G w i o r w' t) {j : Proc} (hj : j ≠ i)
    (ho : (life (Pipeline.history w) m).owner = some j) :
    life (Pipeline.history w') m = life (Pipeline.history w) m := by
  rw [h.history, life_cons]
  apply owner_stays h.valid h.allowed _ (.inl ho)
  rcases Event.of_process i o r with he | he
  · simp [he, Event.process]
  · rw [he]
    exact fun hij ↦ hj (Option.some.inj hij).symm

/-- Only workers are answered. -/
theorem answered (h : Move env G w i o r w' t) {id : Uuid} (ho : o = .answer id) :
    ∃ n, i = .worker n := by
  cases i with
  | worker n => exact ⟨n, rfl⟩
  | scheduler =>
    have hp := h.promise
    rw [ho] at hp
    cases hp
  | client n =>
    have hp := h.promise
    rw [ho] at hp
    cases hp

end Move

/-! ### What the log keeps -/

/-- How the delivery was answered, once it was. -/
def Delivery.outcome (d : Delivery) : Option Bool := d.answer.map Prod.fst

/-- The delivery of a message is under way. -/
def Life.isSent : Life → Bool
  | .sent _ _ => true
  | _ => false

/-- What the past of each worker says of where its message stands. -/
structure Kept (w : World) : Prop where
  popped : ∀ n s older id, w.past (.worker n) = ⟨.pop, .ok s⟩ :: older → Uuid.parse s = some id →
    hand (history w) n = some id
  underway : ∀ n msg, underway (w.past (.worker n)) = some msg →
    (life (history w) msg.id).holder = some n ∧
      ∃ k : Nat, (life (history w) msg.id).inFlight = some k ∧ msg.attemptCount = k
  unlogged : ∀ n id a, unlogged (w.past (.worker n)) = some (id, a) →
    (∃ k ok since, life (history w) id = .answered n k ok since) ∧
      (answers w id).getLast? = some a
  outcomes : ∀ m, (deliveries (history w) m).map Delivery.outcome =
    (answers w m).map (fun a ↦ some a.ok) ++ if (life (history w) m).isSent then [none] else []

private theorem handNext_other {n : Nat} {x : Option Uuid} {ev : Event}
    (h : ev.process ≠ some (.worker n)) : handNext n x ev = x := by
  cases ev with
  | updated i msg => cases i <;> simp_all [handNext, Event.process]
  | _ => simp_all [handNext, Event.process]

theorem Move.hand_other (h : Move env G w i o r w' t) {n : Nat} (hn : Proc.worker n ≠ i) :
    hand (Pipeline.history w') n = hand (Pipeline.history w) n := by
  rw [h.history, hand_cons]
  apply handNext_other
  rcases Event.of_process i o r with he | he
  · simp [he, Event.process]
  · rw [he]
    exact fun hij ↦ hn (Option.some.inj hij).symm

theorem Kept.popped_step (hk : Kept w) (h : Move env G w i o r w' t) (n : Nat) (s : String)
    (older : List (Program.Event Op.Res)) (id : Uuid)
    (hpast : w'.past (.worker n) = ⟨.pop, .ok s⟩ :: older) (hparse : Uuid.parse s = some id) :
    hand (history w') n = some id := by
  by_cases hn : Proc.worker n = i
  · subst hn
    rw [h.past_self] at hpast
    cases hpast
    rw [h.history, hand_cons]
    simp [Event.of, hparse, handNext]
  · rw [h.past_other hn] at hpast
    rw [h.hand_other hn]
    exact hk.popped n s older id hpast hparse

/-- A message stays with its worker, for the same turn, until an outcome is written. -/
private theorem held_stays {h : History} {ev : Event} {n k : Nat} (ha : Allowed h t ev)
    (hev : ev = .other ∨ (∃ n id, ev = .started n id) ∨ ∃ n id ok, ev = .answered n id ok)
    (hh : (life h m).holder = some n) (hf : (life h m).inFlight = some k) :
    ((life h m).next m t ev).holder = some n ∧ ((life h m).next m t ev).inFlight = some k := by
  rcases hev with rfl | ⟨n', id, rfl⟩ | ⟨n', id, ok, rfl⟩
  · exact ⟨hh, hf⟩
  · grind [Allowed, Life.next, Life.start, Life.holder, Life.inFlight]
  · grind [Allowed, Life.next, Life.answer, Life.holder, Life.inFlight]

/-- What a worker does between reading a message and writing its outcome. -/
theorem event_underway {n : Nat} {past : List (Program.Event Op.Res)} {msg : Message}
    (hu : underway (⟨o, r⟩ :: past) = some msg) (hr : ∀ id, o ≠ .sql (.messageFindById id))
    (ha : Allowed (history w) t (Event.of (.worker n) o r)) :
    underway past = some msg ∧ (Event.of (.worker n) o r = .other ∨
      (∃ n' id, Event.of (.worker n) o r = .started n' id) ∨
      ∃ n' id ok, Event.of (.worker n) o r = .answered n' id ok) := by
  cases o with
  | sql s =>
    cases s with
    | messageFindById id => exact absurd rfl (hr id)
    | messageUpdateStatus id status => cases hu
    | messageUpdate msg => cases hu
    | messageCreate message => exact ⟨hu, .inl (by cases r <;> rfl)⟩
    | findRetryReady limit => exact ⟨hu, .inl (by cases r <;> rfl)⟩
    | _ => exact ⟨hu, .inl rfl⟩
  | push messageID =>
    refine ⟨hu, .inl ?_⟩
    cases r with
    | error e => rfl
    | ok u =>
      simp only [Event.of] at ha ⊢
      split
      · next id hid =>
        rw [hid] at ha
        exact ha.elim
      · rfl
  | pop => cases hu
  | send id req => exact ⟨hu, .inr (.inl ⟨n, id, rfl⟩)⟩
  | answer id => exact ⟨hu, .inr (.inr ⟨n, id, _, rfl⟩)⟩
  | _ => exact ⟨hu, .inl rfl⟩

theorem holder_owner {ℓ : Life} {n : Nat} (h : ℓ.holder = some n) : ℓ.owner = some (.worker n) := by
  cases ℓ <;> cases h <;> rfl

/-- A row whose message is in flight counts the deliveries before this turn. -/
theorem rowOk_inFlight {cur : Option Message} {row : Message} {ℓ : Life} {n : Nat}
    (h : RowOk cur row ℓ) (hh : ℓ.holder = some n) :
    ∃ k : Nat, ℓ.inFlight = some k ∧ row.attemptCount = k := by
  cases ℓ <;> cases hh <;> exact ⟨_, rfl, h.1⟩

theorem Kept.underway_step (hk : Kept w) (h : Move env G w i o r w' t) (n : Nat) (msg : Message)
    (hu : Pipeline.underway (w'.past (.worker n)) = some msg) :
    (life (history w') msg.id).holder = some n ∧
      ∃ k : Nat, (life (history w') msg.id).inFlight = some k ∧ msg.attemptCount = k := by
  by_cases hn : Proc.worker n = i
  · subst hn
    rw [h.past_self] at hu
    by_cases ho : ∃ id, o = .sql (.messageFindById id)
    · obtain ⟨id, rfl⟩ := ho
      -- the row was read for the id that was popped just before
      cases r with
      | error e => cases hu
      | ok row =>
        cases hu
        obtain ⟨s, older, hpast, hparse⟩ := h.promise
        obtain ⟨ch, -, -, hex, -⟩ := exec_sql h.exec
        obtain ⟨hrow, rfl⟩ := MessageRepository.findById_ok (congrArg Prod.fst hex)
        have hh := (hand_iff h.valid n msg.id).mp (hk.popped n s older msg.id hpast hparse)
        have hlife : life (history w') msg.id = life (history w) msg.id := by
          rw [h.history]
          rfl
        rw [hlife]
        exact ⟨hh, rowOk_inFlight (h.linked.rows msg hrow) hh⟩
    · obtain ⟨hu', hev⟩ := event_underway hu (fun id he ↦ ho ⟨id, he⟩) h.allowed
      obtain ⟨hh, k, hf, hc⟩ := hk.underway n msg hu'
      obtain ⟨hh', hf'⟩ := held_stays h.allowed hev hh hf
      rw [h.history, life_cons]
      exact ⟨hh', k, hf', hc⟩
  · rw [h.past_other hn] at hu
    obtain ⟨hh, hf⟩ := hk.underway n msg hu
    rw [h.life_other hn (holder_owner hh)]
    exact ⟨hh, hf⟩

/-- A worker that has an answer to log writes no outcome and starts nothing. -/
private theorem event_unlogged {n : Nat} {past : List (Program.Event Op.Res)} {id : Uuid} {a : Answer}
    (hu : unlogged (⟨o, r⟩ :: past) = some (id, a)) (ho : ∀ id, o ≠ .answer id)
    (hp : Works past o) (ha : Allowed (history w) t (Event.of (.worker n) o r)) :
    unlogged past = some (id, a) ∧ (Event.of (.worker n) o r = .other ∨
      ∃ id', Event.of (.worker n) o r = .started n id') := by
  cases o with
  | sql s =>
    cases s with
    | attemptCreate x => cases hu
    | messageFindById id' =>
      obtain ⟨s, older, rfl, -⟩ := hp
      cases hu
    | messageUpdateStatus id' status =>
      have hu' : unlogged past = some (id, a) := hu
      rw [show unlogged past = none from hp] at hu'
      cases hu'
    | messageUpdate x =>
      have hu' : unlogged past = some (id, a) := hu
      rw [hp.1] at hu'
      cases hu'
    | messageCreate message => exact ⟨hu, .inl (by cases r <;> rfl)⟩
    | findRetryReady limit => exact ⟨hu, .inl (by cases r <;> rfl)⟩
    | _ => exact ⟨hu, .inl rfl⟩
  | push messageID =>
    refine ⟨hu, .inl ?_⟩
    cases r with
    | error e => rfl
    | ok u =>
      simp only [Event.of] at ha ⊢
      split
      · next id hid =>
        rw [hid] at ha
        exact ha.elim
      · rfl
  | pop => cases hu
  | send id' req => exact ⟨hu, .inr ⟨id', rfl⟩⟩
  | answer id' => exact absurd rfl (ho id')
  | _ => exact ⟨hu, .inl rfl⟩

theorem answerTo_of_ne {id : Uuid} (ho : o ≠ .answer id) : answerTo id o r = none := by
  cases o with
  | answer id' => exact if_neg fun he ↦ ho (by rw [he])
  | _ => rfl

theorem Kept.unlogged_step (hk : Kept w) (h : Move env G w i o r w' t) (n : Nat) (id : Uuid)
    (a : Answer) (hu : Pipeline.unlogged (w'.past (.worker n)) = some (id, a)) :
    (∃ k ok since, life (history w') id = .answered n k ok since) ∧
      (answers w' id).getLast? = some a := by
  by_cases hn : Proc.worker n = i
  · subst hn
    rw [h.past_self] at hu
    by_cases ho : ∃ id', o = .answer id'
    · obtain ⟨id', rfl⟩ := ho
      cases hu
      obtain ⟨k, hl⟩ := h.allowed
      rw [h.history, life_cons, h.answers]
      refine ⟨⟨k, a.ok, t, ?_⟩, ?_⟩
      · simp [Event.of, Life.next, hl, Life.answer]
      · simp [answerTo]
    · obtain ⟨hu', hev⟩ := event_unlogged hu (fun id' he ↦ ho ⟨id', he⟩) h.promise h.allowed
      obtain ⟨⟨k, ok, since, hl⟩, ha⟩ := hk.unlogged n id a hu'
      have hallowed := h.allowed
      rw [h.history, life_cons, h.answers, answerTo_of_ne fun he ↦ ho ⟨id, he⟩, hl]
      refine ⟨⟨k, ok, since, ?_⟩, by simpa using ha⟩
      rcases hev with he | ⟨id', he⟩
      · rw [he]
        rfl
      · rw [he] at hallowed ⊢
        rw [Life.next]
        split <;> rfl
  · rw [h.past_other hn] at hu
    obtain ⟨⟨k, ok, since, hl⟩, ha⟩ := hk.unlogged n id a hu
    refine ⟨⟨k, ok, since, ?_⟩, ?_⟩
    · rw [h.life_other hn (by rw [hl]; rfl), hl]
    · rw [h.answers, answerTo_of_ne, Option.toList_none, List.append_nil]
      · exact ha
      · intro ho
        obtain ⟨n', rfl⟩ := h.answered ho
        subst ho
        obtain ⟨k', hl'⟩ := h.allowed
        rw [hl] at hl'
        cases hl'

/-! ### The count -/

theorem isSent_stays {h : History} {ev : Event} (ha : Allowed h t ev) (hs : ∀ n, ev ≠ .started n m)
    (hans : ∀ n ok, ev ≠ .answered n m ok) :
    ((life h m).next m t ev).isSent = (life h m).isSent := by
  cases ev with
  | updated i msg =>
    rw [Life.next]
    split
    · cases i <;> cases hl : life h m <;> grind [Life.write, Life.isSent]
    · rfl
  | listed msgs =>
    rw [Life.next]
    split
    · cases hl : life h m <;> rfl
    · rfl
  | _ =>
    cases hl : life h m <;>
      grind [Life.next, Life.enqueue, Life.take, Life.isSent, Allowed]

theorem deliveriesNext_of_ne {ev : Event} {ds : List Delivery}
    (hs : ∀ n, ev ≠ .started n m) (hans : ∀ n ok, ev ≠ .answered n m ok) :
    deliveriesNext m t ds ev = ds := by
  cases ev with
  | started n id =>
    rw [deliveriesNext, if_neg]
    rintro rfl
    exact hs n rfl
  | answered n id ok =>
    rw [deliveriesNext, if_neg]
    rintro rfl
    exact hans n ok rfl
  | _ => rfl

/-- An answer is the outcome of the last delivery. -/
private theorem outcomes_answered {n k : Nat} {ok : Bool} {ds : List Delivery}
    {before : List (Option Bool)} (ht : Told ds (.sent n k))
    (ho : ds.map Delivery.outcome = before ++ [none]) :
    (ds.map (Delivery.answeredBy n ok t)).map Delivery.outcome = before ++ [some ok] := by
  obtain ⟨start, prev, due, hw, -, rfl⟩ := ht
  have hprev : prev.map (Delivery.answeredBy n ok t) = prev := by
    conv_rhs => rw [← List.map_id prev]
    refine List.map_congr_left fun d hd ↦ ?_
    obtain ⟨t', ha⟩ := hw.refused d hd
    simp [Delivery.answeredBy, ha]
  rw [List.map_append] at ho
  rw [List.map_append, hprev, List.map_append, (List.append_inj' ho rfl).1]
  simp [Delivery.answeredBy, Delivery.outcome]

/-- The deliveries went as the answers tell; the last may still be on its way. -/
theorem Kept.outcomes_step (hk : Kept w) (h : Move env G w i o r w' t) (m : Uuid) :
    (deliveries (history w') m).map Delivery.outcome = (answers w' m).map (fun a ↦ some a.ok) ++
      if (life (history w') m).isSent then [none] else [] := by
  have ih := hk.outcomes m
  have ha := h.allowed
  rw [h.history, life_cons, deliveries_cons, h.answers, List.map_append]
  by_cases hs : ∃ n, Event.of i o r = .started n m
  · obtain ⟨n, he⟩ := hs
    obtain ⟨-, req, rfl⟩ := Event.of_started he
    rw [he] at ha ⊢
    obtain ⟨k, due, hl, -⟩ := ha
    rw [hl] at ih ⊢
    simpa [Life.next, Life.start, deliveriesNext, answerTo, Life.isSent, Delivery.outcome] using ih
  · rw [not_exists] at hs
    by_cases hans : ∃ n ok, Event.of i o r = .answered n m ok
    · obtain ⟨n, ok, he⟩ := hans
      obtain ⟨rfl, rfl⟩ := Event.of_answered he
      cases he
      obtain ⟨k, hl⟩ := ha
      have ht := told h.valid m
      rw [hl] at ih ht ⊢
      rw [Event.of, deliveriesNext, if_pos rfl, outcomes_answered ht ih]
      simp [Life.next, Life.answer, answerTo, Life.isSent]
    · have hne : o ≠ .answer m := by
        rintro rfl
        obtain ⟨n, rfl⟩ := h.answered rfl
        exact hans ⟨n, _, rfl⟩
      have hans' : ∀ n ok, Event.of i o r ≠ .answered n m ok := fun n ok he ↦ hans ⟨n, ok, he⟩
      rw [isSent_stays ha hs hans', deliveriesNext_of_ne hs hans', answerTo_of_ne hne, ih,
        Option.toList_none, List.map_nil, List.append_nil]

theorem Kept.count (hk : Kept w) (m : Uuid) : (deliveries (history w) m).length =
    (answers w m).length + if (life (history w) m).isSent then 1 else 0 := by
  have hl := congrArg List.length (hk.outcomes m)
  rw [List.length_map, List.length_append, List.length_map] at hl
  rw [hl]
  split <;> rfl

/-! ### The rows -/

/-- Worker `n` has an answer for message `m` to log. -/
def Owes (w : World) (n : Nat) (m : Uuid) : Prop :=
  ∃ a, unlogged (w.past (.worker n)) = some (m, a)

/-- The rows of a message tell all its answers, but for the one that a worker has still to log. -/
structure Rows (w : World) : Prop where
  told : ∀ row ∈ w.db.messages, (∀ n, ¬ Owes w n row.id) →
    (attempts w.db row.id).map shown = recorded (answers w row.id)
  behind : ∀ row ∈ w.db.messages, ∀ n, Owes w n row.id →
    (attempts w.db row.id).map shown = recorded (answers w row.id).dropLast

theorem Kept.owner {n : Nat} (hk : Kept w) (h : Owes w n m) :
    (life (history w) m).holder = some n := by
  obtain ⟨a, hu⟩ := h
  obtain ⟨⟨k, ok, since, hl⟩, -⟩ := hk.unlogged n m a hu
  rw [hl]
  rfl

/-- An operation that neither logs nor brings an answer leaves what is to be logged. -/
private theorem unlogged_cons {past : List (Program.Event Op.Res)} (hp : Works past o)
    (hlog : ∀ x, o ≠ .sql (.attemptCreate x)) (hans : ∀ id, o ≠ .answer id) :
    unlogged (⟨o, r⟩ :: past) = unlogged past := by
  cases o with
  | sql s =>
    cases s with
    | attemptCreate x => exact absurd rfl (hlog x)
    | _ => rfl
  | answer id => exact absurd rfl (hans id)
  | pop => exact hp.symm
  | _ => rfl

private theorem Move.owes_iff (h : Move env G w i o r w' t) {n : Nat} (hn : Proc.worker n ≠ i) :
    Owes w' n m ↔ Owes w n m := by
  unfold Owes
  rw [h.past_other hn]

private theorem Move.owes_quiet (h : Move env G w i o r w' t)
    (hlog : ∀ x, o ≠ .sql (.attemptCreate x)) (hans : ∀ id, o ≠ .answer id) (n : Nat) (m : Uuid) :
    Owes w' n m ↔ Owes w n m := by
  by_cases hn : Proc.worker n = i
  · subst hn
    unfold Owes
    rw [h.past_self, unlogged_cons h.promise hlog hans]
  · exact h.owes_iff hn

/-- Nothing is known of an id that was never generated. -/
private theorem Kept.unheard (hk : Kept w) (h : Move env G w i o r w' t) (hm : m ∉ w.issued) :
    answers w m = [] ∧ attempts w.db m = [] ∧ ∀ n, ¬ Owes w n m := by
  have hl : life (history w) m = .absent := by
    by_contra hne
    exact hm (h.linked.issued m hne)
  refine ⟨?_, ?_, fun n ho ↦ ?_⟩
  · have hc := hk.count m
    have ht := told h.valid m
    rw [hl] at hc ht
    rw [show deliveries (history w) m = [] from ht] at hc
    exact List.eq_nil_of_length_eq_zero (by simpa [Life.isSent] using hc.symm)
  · apply List.filter_eq_nil_iff.mpr
    intro a ha he
    obtain ⟨row, hrow, hid⟩ := h.sound.references.deliveryAttempts a ha
    rw [of_decide_eq_true he] at hid
    exact hm (hid ▸ h.sound.generated.messages row hrow)
  · have hh := hk.owner ho
    rw [hl] at hh
    cases hh

/-- An operation that neither logs nor brings an answer. -/
private theorem Rows.quiet_step (hk : Kept w) (hr : Rows w) (h : Move env G w i o r w' t)
    (hlog : ∀ x, o ≠ .sql (.attemptCreate x)) (hans : ∀ id, o ≠ .answer id) : Rows w' := by
  have hanswers (m : Uuid) : answers w' m = answers w m := by
    rw [h.answers, answerTo_of_ne (hans m), Option.toList_none, List.append_nil]
  have hrows : ∀ row ∈ w'.db.messages, attempts w'.db row.id = attempts w.db row.id ∧
      ((∃ row₀ ∈ w.db.messages, row₀.id = row.id) ∨ row.id ∉ w.issued) := by
    intro row hrow
    by_cases hs : ∃ s, o = .sql s
    · obtain ⟨s, rfl⟩ := hs
      obtain ⟨ch, -, hfresh, hex, -⟩ := exec_sql h.exec
      obtain ⟨ha, hid⟩ := attempts_exec (fun x he ↦ hlog x (congrArg Op.sql he)) hex hrow
      refine ⟨ha, hid.imp_right fun hid ↦ ?_⟩
      rw [hid.2]
      exact hfresh hid.1
    · have hdb := h.exec.db_eq fun s he ↦ hs ⟨s, he⟩
      rw [hdb] at hrow ⊢
      exact ⟨rfl, .inl ⟨row, hrow, rfl⟩⟩
  constructor
  · intro row hrow hfree
    obtain ⟨ha, ⟨row₀, hrow₀, hid⟩ | hnew⟩ := hrows row hrow
    · rw [ha, hanswers, ← hid]
      exact hr.told row₀ hrow₀ fun n ho ↦ hfree n ((h.owes_quiet hlog hans n _).mpr (hid ▸ ho))
    · obtain ⟨hnone, hempty, -⟩ := hk.unheard h hnew
      rw [ha, hanswers, hnone, hempty]
      rfl
  · intro row hrow n ho
    rw [h.owes_quiet hlog hans] at ho
    obtain ⟨ha, ⟨row₀, hrow₀, hid⟩ | hnew⟩ := hrows row hrow
    · rw [ha, hanswers, ← hid]
      exact hr.behind row₀ hrow₀ n (hid ▸ ho)
    · exact absurd ho ((hk.unheard h hnew).2.2 n)

/-- An answer comes: its row is owed. -/
private theorem Rows.answer_step {id : Uuid} {a : Answer} (hk : Kept w) (hr : Rows w)
    (h : Move env G w i (.answer id) a w' t) : Rows w' := by
  obtain ⟨n, rfl⟩ := h.answered rfl
  obtain ⟨k, hl⟩ := h.allowed
  have hdb : w'.db = w.db := h.exec.db_eq fun s he ↦ by cases he
  have hself : Owes w' n id := ⟨a, by rw [h.past_self]; rfl⟩
  -- the worker had nothing to log: it would hold a message that has been answered
  have hnothing (m : Uuid) : ¬ Owes w n m := by
    intro ho
    have hid := (hand_iff h.valid n id).mpr (by rw [hl]; rfl)
    rw [(hand_iff h.valid n m).mpr (hk.owner ho)] at hid
    obtain ⟨b, hu⟩ := ho
    obtain ⟨⟨k', ok, since, hl'⟩, -⟩ := hk.unlogged n m b hu
    rw [Option.some.inj hid, hl] at hl'
    cases hl'
  have hothers (n' : Nat) (m : Uuid) (hm : m ≠ id) : Owes w' n' m ↔ Owes w n' m := by
    by_cases hn : Proc.worker n' = .worker n
    · cases hn
      refine ⟨fun ⟨b, hu⟩ ↦ ?_, fun ho ↦ absurd ho (hnothing m)⟩
      rw [h.past_self] at hu
      cases hu
      exact absurd rfl hm
    · exact h.owes_iff hn
  have hfree (n' : Nat) : ¬ Owes w n' id := by
    intro ho
    have hh := hk.owner ho
    rw [hl] at hh
    cases hh
    exact hnothing id ho
  have hanswers (m : Uuid) (hm : m ≠ id) : answers w' m = answers w m := by
    rw [h.answers, answerTo_of_ne fun he ↦ hm (Op.answer.inj he).symm, Option.toList_none,
      List.append_nil]
  constructor
  · intro row hrow hnone
    have hm : row.id ≠ id := fun he ↦ hnone n (he ▸ hself)
    rw [hdb, hanswers _ hm]
    rw [hdb] at hrow
    exact hr.told row hrow fun n' ho ↦ hnone n' ((hothers n' _ hm).mpr ho)
  · intro row hrow n' ho
    rw [hdb] at hrow ⊢
    by_cases hm : row.id = id
    · rw [h.answers, hm]
      rw [← hm] at hfree
      simpa [answerTo, hm] using hr.told row hrow hfree
    · rw [hanswers _ hm]
      exact hr.behind row hrow n' ((hothers n' _ hm).mp ho)

/-- The row of the last answer is written, or refused. -/
private theorem Rows.log_step {x : DeliveryAttempt} {r : Except Err DeliveryAttempt} (hk : Kept w)
    (hr : Rows w) (h : Move env G w i (.sql (.attemptCreate x)) r w' t) : Rows w' := by
  cases i with
  | worker n =>
    obtain ⟨msg, answer, ms, hmsg, hu, rfl⟩ := h.promise
    obtain ⟨⟨k, ok, since, hl⟩, hlast⟩ := hk.unlogged n msg.id answer hu
    obtain ⟨-, k', hf, hcount⟩ := hk.underway n msg hmsg
    obtain ⟨ch, -, hfresh, hex, -⟩ := exec_sql h.exec
    have hk' : k' = k := by
      rw [hl] at hf
      exact (Option.some.inj hf).symm
    subst hk'
    -- the number of the attempt is the number of answers
    have hlen : (answers w msg.id).dropLast.length = k' := by
      have hc := hk.count msg.id
      have ht := Pipeline.told h.valid msg.id
      rw [hl] at hc ht
      obtain ⟨start, ht⟩ := ht
      rw [ht.length] at hc
      simp only [Life.isSent, Bool.false_eq_true, if_false] at hc
      rw [List.length_dropLast]
      omega
    have hanswers (m : Uuid) : answers w' m = answers w m := by
      rw [h.answers]
      exact List.append_nil _
    have hself (m : Uuid) : ¬ Owes w' n m := by
      rintro ⟨b, hb⟩
      rw [h.past_self] at hb
      cases hb
    have howes (n' : Nat) (m : Uuid) : Owes w' n' m ↔ Owes w n' m ∧ m ≠ msg.id := by
      by_cases hn : Proc.worker n' = .worker n
      · cases hn
        refine ⟨fun ho ↦ absurd ho (hself m), fun ⟨⟨b, hb⟩, hm⟩ ↦ ?_⟩
        rw [hu] at hb
        cases hb
        exact absurd rfl hm
      · rw [h.owes_iff hn]
        refine ⟨fun ho ↦ ⟨ho, ?_⟩, And.left⟩
        rintro rfl
        have hh := hk.owner ho
        rw [hl] at hh
        cases hh
        exact hn rfl
    obtain ⟨hmessages, new, hnew, hall, hrow'⟩ := attemptCreate_exec
      (fun a ha he ↦ hfresh rfl (he ▸ h.sound.generated.deliveryAttempts a ha)) hex
    have hattempts (m : Uuid) : attempts w'.db m =
        attempts w.db m ++ if m = msg.id then new else [] := by
      rw [attempts, hnew, List.filter_append]
      congr 1
      split
      · next hm => exact List.filter_eq_self.mpr fun a ha ↦ by simpa [hm] using hall a ha
      · next hm =>
        refine List.filter_eq_nil_iff.mpr fun a ha he ↦ hm ?_
        rw [← of_decide_eq_true he, hall a ha]
    constructor
    · intro row hrow hnone
      rw [hmessages] at hrow
      rw [hanswers, hattempts, List.map_append]
      by_cases hm : row.id = msg.id
      · rw [if_pos hm, hr.behind row hrow n ⟨answer, hm ▸ hu⟩, hrow' ⟨row, hrow, hm⟩, hm,
          shown_attemptOf hcount, ← hlen, ← recorded_concat,
          List.dropLast_append_getLast? _ hlast]
      · rw [if_neg hm, List.map_nil, List.append_nil]
        exact hr.told row hrow fun n' ho ↦ hnone n' ((howes n' _).mpr ⟨ho, hm⟩)
    · intro row hrow n' ho
      rw [hmessages] at hrow
      obtain ⟨ho, hm⟩ := (howes n' _).mp ho
      rw [hanswers, hattempts, if_neg hm, List.append_nil]
      exact hr.behind row hrow n' ho
  | scheduler => cases h.promise
  | client n => cases h.promise

theorem Kept.step (hk : Kept w) (h : Move env G w i o r w' t) : Kept w' where
  popped := hk.popped_step h
  underway := hk.underway_step h
  unlogged := hk.unlogged_step h
  outcomes := hk.outcomes_step h

theorem Rows.step (hk : Kept w) (hr : Rows w) (h : Move env G w i o r w' t) : Rows w' := by
  by_cases hlog : ∃ x, o = .sql (.attemptCreate x)
  · obtain ⟨x, rfl⟩ := hlog
    exact hr.log_step hk h
  · by_cases hans : ∃ id, o = .answer id
    · obtain ⟨id, rfl⟩ := hans
      exact hr.answer_step hk h
    · exact hr.quiet_step hk h (fun x he ↦ hlog ⟨x, he⟩) fun id he ↦ hans ⟨id, he⟩

end Moves

/-! ### Runs -/

section Runs

variable {env : Platform} {callers : Nat → Caller} {G : History → Event → Prop} {w : World}
  {c c' : Config Proc World Op Op.Res}

/-- The pipeline with clients that send nothing and log nothing. -/
abbrev delivering (env : Platform) (callers : Nat → Caller) (G : History → Event → Prop) :=
  pipeline env (fun n ↦ (callers n).job) G

private theorem delivering_exec (i : Proc) (o : Op) (w : World) (r : o.Res) (w' : World)
    (hx : (delivering env callers G).exec i o w r w') :
    World.Exec env (fun _ ↦ True) i o w r w' := by
  obtain ⟨-, ch, -, hs⟩ := hx
  exact ⟨ch, trivial, hs⟩

/-- Every process keeps its promise. -/
theorem promises (hw : Fresh w) (hc : (delivering env callers G).Reachable w c) {i : Proc} {o : Op}
    {k : o.Res → Service Unit} (hp : c.procs i = .op o k) : Promise i (c.state.past i) o := by
  have h0 (i : Proc) : w.past i = [] := by
    rw [World.past, hw.log]
    rfl
  have hall {p : Service Unit} (hu : p.Uses fun o ↦ unworked o = true)
      (past : List (Program.Event Op.Res)) :
      p.Traces (fun _ o ↦ unworked o = true) (fun _ _ ↦ True) past :=
    .of_uses (fun _ _ h ↦ h) (fun _ _ ↦ trivial) hu past
  have ht := ((World.records delivering_exec).traces_again (P := Promise) (Q := fun
      | .worker _ => Logged
      | .scheduler | .client _ => fun _ _ ↦ True) h0 ?_ ?_ hc i).1
  · rw [hp] at ht
    exact ht.1
  · rintro (n | _ | n)
    · exact iteration_works rfl
    · exact hall processRetries_unworked []
    · exact hall (callers n).unworked []
  · rintro (n | _ | n) past hl hq
    · exact iteration_works hq
    · exact hall processRetries_unworked past
    · exact absurd rfl (hl n)

/-- A step of a run is a move. -/
theorem move_of_step (hw : Fresh w) (hs : w.Sound) (hc : (delivering env callers G).Reachable w c)
    {i : Proc} {o : Op} {k : o.Res → Service Unit} {r : o.Res} {w' : World}
    (hp : c.procs i = .op o k) (hx : (delivering env callers G).exec i o c.state r w') :
    ∃ t, Move env G c.state i o r w' t := by
  obtain ⟨hv, hl, hG⟩ := pipeline_sound hw hc
  obtain ⟨t, ht⟩ := hx.2.log_eq
  obtain ⟨hv', -, -⟩ := pipeline_sound hw (hc.tail (.act hp hx))
  have hh : history w' = (Event.of i o r, t) :: history c.state := by
    rw [history, ht]
    rfl
  simp only [hh] at hv'
  exact ⟨t, hv, hl, hs.reachable delivering_exec hc, hv'.2, ⟨hG, hx.1⟩, promises hw hc hp, hx.2, ht⟩

theorem kept_run (hw : Fresh w) (hs : w.Sound) (hc : (delivering env callers G).Reachable w c) :
    Kept c.state ∧ Rows c.state := by
  refine hc.induct (I := fun c ↦ Kept c.state ∧ Rows c.state) ?_ fun c c' hc ih hstep ↦ ?_
  · have hpast (i : Proc) : w.past i = [] := by
      rw [World.past, hw.log]
      rfl
    have hanswers (m : Uuid) : answers w m = [] := by
      rw [answers, hw.log]
      rfl
    have hh : history w = [] := by
      rw [history, hw.log]
      rfl
    constructor
    · constructor
      · intro n s older id he
        cases (hpast (.worker n)).symm.trans he
      · intro n msg hu
        cases (congrArg underway (hpast (.worker n))).symm.trans hu
      · intro n id a hu
        cases (congrArg unlogged (hpast (.worker n))).symm.trans hu
      · intro m
        rw [System.init, hh, hanswers]
        rfl
    · have hnone (row : Message) : row ∉ w.db.messages := by
        rw [Relational.Table.mem_def, hw.messages]
        exact List.not_mem_nil
      exact ⟨fun row hrow ↦ absurd hrow (hnone row), fun row hrow ↦ absurd hrow (hnone row)⟩
  · cases hstep with
    | act hp hx =>
      obtain ⟨t, h⟩ := move_of_step hw hs hc hp hx
      exact ⟨ih.1.step h, ih.2.step ih.1 h⟩
    | again => exact ih

/-- What is known of a message that no worker has in hand. -/
theorem released (hv : Valid (history w)) (hk : Kept w) (hr : Rows w) {row : Message}
    (hrow : row ∈ w.db.messages) (hfree : ∀ n, hand (history w) n ≠ some row.id) :
    (deliveries (history w) row.id).map Delivery.outcome =
        (answers w row.id).map (fun a ↦ some a.ok) ∧
      (attempts w.db row.id).map shown = recorded (answers w row.id) := by
  have hhold (n : Nat) : (life (history w) row.id).holder ≠ some n :=
    fun hn ↦ hfree n ((hand_iff hv n row.id).mpr hn)
  have hsent : (life (history w) row.id).isSent = false := by
    cases hl : life (history w) row.id with
    | sent n k => exact absurd (by rw [hl]; rfl) (hhold n)
    | _ => rfl
  have houtcomes := hk.outcomes row.id
  rw [hsent] at houtcomes
  simp only [Bool.false_eq_true, if_false, List.append_nil] at houtcomes
  exact ⟨houtcomes, hr.told row hrow fun n ho ↦ hhold n (hk.owner ho)⟩

end Runs

/-- The clients of the sample. -/
def sampleCallers (_ : Nat) : Caller :=
  .queueMessage ⟨"https://example.com", 2, "{}", Uuid.toString ⟨1⟩⟩

theorem sampleWorld_sound : sampleWorld.Sound where
  references := { (sound_empty [] 0 [] []).references with
    users := Relational.Table.refers_empty _ _
    memberships := Relational.Table.refers_empty _ _
    apiKeys := Relational.Table.refers_empty _ _
    messages := Relational.Table.refers_empty _ _
    invitations := Relational.Table.refers_empty _ _ }
  unique := { (sound_empty [] 0 [] []).unique with
    organizations := by
      intro a ha b hb _
      rw [List.mem_singleton.mp ha, List.mem_singleton.mp hb] }
  generated := { (sound_empty [] 0 [⟨1⟩] []).generated with
    organizations := by
      intro a ha
      rw [List.mem_singleton.mp ha]
      exact List.mem_singleton.mpr rfl }

end Pipeline

end Chis
