import Chis.Pipeline.System

/-!
# One failing operation

An iteration of the worker after its pop, and a round of the scheduler, each run alone with one
operation failing or, for the worker, stopped at any point. Both loops swallow every error; what
that leaves of a message is decided by one or two operations.
-/

namespace Chis

open Program

namespace Faults

/-- The operation that fails, of those of one message or of the round. -/
inductive Fault
  | findById
  | getSigningSecret
  | attemptCreate
  | findRetryReady
  /-- `Push` of a message's id. -/
  | push (id : Uuid)
  /-- `UpdateStatus` or `Update` of a message. -/
  | write (id : Uuid)
deriving DecidableEq

/-- Whether an operation is the one that fails. -/
def Fault.hits : Fault → Op → Bool
  | .findById, .sql (.messageFindById _) => true
  | .getSigningSecret, .sql (.getSigningSecret _) => true
  | .attemptCreate, .sql (.attemptCreate _) => true
  | .findRetryReady, .sql (.findRetryReady _) => true
  | .push id, .push messageID => Uuid.parse messageID = some id
  | .write id, .sql (.messageUpdateStatus id' _) => id' = id
  | .write id, .sql (.messageUpdate msg) => msg.id = id
  | _, _ => false

/-- One operation of process `i`; it fails exactly when the fault hits it. -/
def faulty (env : Platform) (fault : Option Fault) (i : Proc) (o : Op) (w : World) (r : o.Res)
    (w' : World) : Prop :=
  ∃ ch, ch.fail = fault.any (fun f ↦ f.hits o) ∧ World.step env i ch o w = some (r, w')

/-- The id of a message is in the queue. -/
def InQueue (w : World) (id : Uuid) : Prop := ∃ s ∈ w.queue, Uuid.parse s = some id

/-- The message is done with, waits for a retry, or has its id in the queue. -/
def Survives (w : World) (id : Uuid) : Prop :=
  InQueue w id ∨ ∃ row ∈ w.db.messages, row.id = id ∧
    (row.status = .success ∨ row.status = .failed ∨
      row.status = .retry ∧ row.nextRetryAt ≠ none)

variable {env : Platform} {fault : Option Fault} {i : Proc} {w w' : World} {id : Uuid}

/-- An operation that leaves the messages and the queue alone leaves them alone also when it
fails. -/
def Quiet : Op → Bool
  | .sql (.messageFindById _) | .sql (.getSigningSecret _) | .sql (.attemptCreate _)
  | .sql (.findRetryReady _) | .now | .send _ _ | .answer _ => true
  | _ => false

theorem quiet_same {o : Op} {r : o.Res} (ho : Quiet o = true)
    (hx : faulty env fault i o w r w') :
    w'.db.messages = w.db.messages ∧ w'.queue = w.queue := by
  obtain ⟨ch, -, hs⟩ := hx
  rcases World.step_inv hs with ⟨-, -, hd, hq, -⟩ | ⟨-, w₁, hp, hd, hq, -⟩
  · rw [hd]
    exact ⟨rfl, hq⟩
  · rw [hd, hq]
    cases o with
    | sql s =>
      simp only [World.perform] at hp
      split at hp
      · cases hp
      · cases hp
        refine ⟨?_, rfl⟩
        have hc := s.exec_change env ch w.db
        change (s.exec env ch w.db).2.messages = _
        generalize (s.exec env ch w.db).2 = db' at hc
        cases hc <;> first
          | rfl
          | cases ho
    | now =>
      cases hp
      exact ⟨rfl, rfl⟩
    | send id req =>
      cases hp
      exact ⟨rfl, rfl⟩
    | answer id =>
      cases hp
      exact ⟨rfl, rfl⟩
    | push s => cases ho
    | pop => cases ho
    | rand => cases ho
    | respond res => cases ho
    | panic => cases ho

/-! ### The worker -/

/-- A stored message nothing has been done with since its id was popped. -/
def Untouched (id : Uuid) (queue : List String) (w : World) : Prop :=
  w.queue = queue ∧ ∃ row ∈ w.db.messages, row.id = id ∧ row.status = .pending

/-- Such a message survives only if its id is in the queue another time. -/
theorem Untouched.survives_iff {queue : List String} (hu : Untouched id queue w) :
    Survives w id ↔ ∃ s ∈ queue, Uuid.parse s = some id := by
  obtain ⟨hq, row, hrow, hid, hs⟩ := hu
  unfold Survives InQueue
  rw [hq]
  constructor
  · rintro (hq | ⟨row', hrow', hid', hs'⟩)
    · exact hq
    · rw [w.db.messages.eq_of_key hrow' hrow (hid'.trans hid.symm), hs] at hs'
      simp at hs'
  · exact .inl

/-- What is claimed of the worker wherever it has come. -/
def Verdict (fault : Option Fault) (id : Uuid) (queue : List String) (p : Service Unit)
    (w : World) : Prop :=
  Survives w id ↔ (∃ s ∈ queue, Uuid.parse s = some id) ∨
    p = .pure () ∧ fault ≠ some .findById ∧ fault ≠ some (.write id)

variable {queue : List String}

theorem always_quiet {o : Op} {k : o.Res → Service Unit} (ho : Quiet o = true)
    (hu : Untouched id queue w)
    (next : ∀ r w', faulty env fault i o w r w' → Untouched id queue w' →
      (k r).Always (faulty env fault i) (Verdict fault id queue) w') :
    (Prog.op o k).Always (faulty env fault i) (Verdict fault id queue) w := by
  constructor
  · rw [Verdict, hu.survives_iff]
    simp
  · intro r w' hx
    obtain ⟨hm, hq⟩ := quiet_same ho hx
    refine next r w' hx ⟨hq.trans hu.1, ?_⟩
    rw [hm]
    exact hu.2

theorem Survives.congr {w₁ : World} (hd : w'.db = w₁.db) (hq : w'.queue = w₁.queue) :
    Survives w' id ↔ Survives w₁ id := by
  unfold Survives InQueue
  rw [hd, hq]

/-- The last operation of an iteration writes the outcome. -/
theorem always_write {s : Stmt} {k : (Op.sql s).Res → Service Unit} (hk : ∀ r, k r = .pure ())
    (hfind : fault ≠ some .findById) (hu : Untouched id queue w)
    (hhits : ∀ f : Fault, f.hits (.sql s) = true ↔ f = .write id)
    (hwrites : ∀ ch : Choice, ∃ row ∈ (s.exec env ch w.db).2.messages, row.id = id ∧
      (row.status = .success ∨ row.status = .failed ∨
        row.status = .retry ∧ row.nextRetryAt ≠ none)) :
    (Prog.op (.sql s) k).Always (faulty env fault i) (Verdict fault id queue) w := by
  constructor
  · rw [Verdict, hu.survives_iff]
    simp
  · rintro r w' ⟨ch, hf, hs⟩
    rw [hk]
    have hhit : fault.any (fun f ↦ f.hits (.sql s)) = true ↔ fault = some (.write id) := by
      cases fault with
      | none => simp
      | some f => simp [hhits]
    change Verdict fault id queue (.pure ()) w'
    rcases World.step_inv hs with ⟨hfail, -, hd, hq, -⟩ | ⟨hfail, w₁, hp, hd, hq, -⟩
    · have hu' : Untouched id queue w' := by
        refine ⟨hq.trans hu.1, ?_⟩
        rw [hd]
        exact hu.2
      rw [Verdict, hu'.survives_iff, hhit.mp (hf.symm.trans hfail)]
      simp
    · have hne : fault ≠ some (.write id) := by
        intro he
        rw [hfail, hhit.mpr he] at hf
        cases hf
      have hsurvives : Survives w' id := by
        rw [Survives.congr hd hq]
        simp only [World.perform] at hp
        split at hp <;> cases hp
        exact .inr (hwrites ch)
      exact iff_of_true hsurvives (.inr ⟨rfl, hfind, hne⟩)

/-- The row of an untouched message, after one of the worker's writes. -/
private theorem updateStatus_writes (hu : Untouched id queue w) {st : MessageStatus}
    (hst : st = .success ∨ st = .failed) (ch : Choice) :
    ∃ row ∈ ((Stmt.messageUpdateStatus id st).exec env ch w.db).2.messages, row.id = id ∧
      (row.status = .success ∨ row.status = .failed ∨
        row.status = .retry ∧ row.nextRetryAt ≠ none) := by
  obtain ⟨-, row, hrow, hid, -⟩ := hu
  have hmem {db' : Db} {a : Message}
      (h : MessageRepository.updateStatus ch.now id st w.db = .ok (a, db')) :
      ∃ row ∈ db'.messages, row.id = id ∧ (row.status = .success ∨ row.status = .failed ∨
        row.status = .retry ∧ row.nextRetryAt ≠ none) := by
    refine ⟨_, (MessageRepository.mem_updateStatus h _).mpr ⟨row, hrow, rfl⟩, ?_⟩
    rw [if_pos hid]
    refine ⟨hid, ?_⟩
    rcases hst with rfl | rfl
    · exact .inl rfl
    · exact .inr (.inl rfl)
  simp only [Stmt.exec]
  cases hr : MessageRepository.updateStatus ch.now id st w.db with
  | error e => exact absurd hid (MessageRepository.updateStatus_error hr row hrow)
  | ok p => exact hmem hr

private theorem update_writes (hu : Untouched id queue w) {msg : Message} (hid : msg.id = id)
    (hst : msg.status = .failed ∨ msg.status = .retry ∧ msg.nextRetryAt ≠ none) (ch : Choice) :
    ∃ row ∈ ((Stmt.messageUpdate msg).exec env ch w.db).2.messages, row.id = id ∧
      (row.status = .success ∨ row.status = .failed ∨
        row.status = .retry ∧ row.nextRetryAt ≠ none) := by
  obtain ⟨-, row, hrow, hid', -⟩ := hu
  refine ⟨_, (MessageRepository.mem_update ch.now msg w.db _).mpr ⟨row, hrow, rfl⟩, ?_⟩
  rw [if_pos (hid'.trans hid.symm)]
  exact ⟨hid', .inr hst⟩

theorem always_settle {msg : Message} {ok : Bool} (hid : msg.id = id)
    (hfind : fault ≠ some .findById) (hu : Untouched id queue w) :
    (Worker.settle msg ok).Always (faulty env fault i) (Verdict fault id queue) w := by
  unfold Worker.settle
  split
  · subst hid
    refine always_write (fun _ ↦ rfl) hfind hu (fun f ↦ ?_) (updateStatus_writes hu (.inl rfl))
    cases f <;> simp [Fault.hits, eq_comm]
  · split
    · split
      · -- a negative count panics: the iteration stops before its write
        constructor
        · rw [Verdict, hu.survives_iff]
          simp
        · exact fun r ↦ r.elim
      · refine always_quiet rfl hu fun (now : Time) w' _ hu ↦ ?_
        refine always_write (fun _ ↦ rfl) hfind hu (fun f ↦ ?_)
          (update_writes hu hid (.inr ⟨rfl, by simp [Worker.retryData]⟩))
        cases f <;> simp [Fault.hits, Worker.retryData, hid, eq_comm]
    · refine always_write (fun _ ↦ rfl) hfind hu (fun f ↦ ?_)
        (update_writes hu (show Message.id { msg with status := .failed } = id from hid) (.inl rfl))
      cases f <;> simp [Fault.hits, hid, eq_comm]

theorem always_attempt {msg : Message} {req : HttpRequest} (hid : msg.id = id)
    (hfind : fault ≠ some .findById) (hu : Untouched id queue w) :
    (Worker.attempt msg req).Always (faulty env fault i) (Verdict fault id queue) w := by
  refine always_quiet rfl hu fun start w' _ hu ↦ ?_
  refine always_quiet rfl hu fun _ w' _ hu ↦ ?_
  refine always_quiet rfl hu fun answer w' _ hu ↦ ?_
  refine always_quiet rfl hu fun finish w' _ hu ↦ ?_
  refine always_quiet rfl hu fun _ w' _ hu ↦ ?_
  exact always_settle hid hfind hu

theorem always_deliver {msg : Message} (hid : msg.id = id) (hfind : fault ≠ some .findById)
    (hu : Untouched id queue w) :
    (Worker.deliver env msg).Always (faulty env fault i) (Verdict fault id queue) w := by
  unfold Worker.deliver
  split
  · subst hid
    refine always_write (fun _ ↦ rfl) hfind hu (fun f ↦ ?_) (updateStatus_writes hu (.inr rfl))
    cases f <;> simp [Fault.hits, eq_comm]
  · refine always_quiet rfl hu fun r w' _ hu ↦ ?_
    cases r with
    | error e => exact always_attempt hid hfind hu
    | ok secret =>
      refine always_quiet rfl hu fun now w' _ hu ↦ ?_
      exact always_attempt hid hfind hu

/-- Wherever the worker has come after the pop, by itself and with at most one operation failing. -/
theorem always_handle {messageID : String} (hp : Uuid.parse messageID = some id)
    (hu : Untouched id queue w) :
    (Worker.handle env messageID).Always (faulty env fault i) (Verdict fault id queue) w := by
  unfold Worker.handle
  rw [hp]
  refine always_quiet rfl hu fun (r : Except Err Message) w' hx hu' ↦ ?_
  obtain ⟨ch, hf, hs⟩ := hx
  have hhit : fault.any (fun f ↦ f.hits (.sql (.messageFindById id))) = true ↔
      fault = some .findById := by
    rcases fault with _ | f
    · simp
    · cases f <;> simp [Fault.hits]
  rcases World.step_inv hs with ⟨hfail, hr, -, -⟩ | ⟨hfail, w₁, hp, -, -⟩
  · cases hr
    change Verdict fault id queue (.pure ()) w'
    rw [Verdict, hu'.survives_iff, hhit.mp (hf.symm.trans hfail)]
    simp
  · have hne : fault ≠ some .findById := by
      intro he
      rw [hfail, hhit.mpr he] at hf
      cases hf
    have hr : r = MessageRepository.findById id w.db := by
      cases hp
      rfl
    cases r with
    | error e =>
      obtain ⟨-, row, hrow, hid, -⟩ := hu
      exact absurd hid (MessageRepository.findById_error hr.symm row hrow)
    | ok message => exact always_deliver (MessageRepository.findById_ok hr.symm).2 hne hu'

/-! ### The scheduler -/

/-- Whether the row still waits for its retry. -/
def Waits (w : World) (id : Uuid) : Prop :=
  ∃ row ∈ w.db.messages, row.id = id ∧ row.status = .retry ∧ row.nextRetryAt ≠ none

/-- What has become of message `id` while the round has still to handle `todo`. -/
def Handled (fault : Option Fault) (w₀ : World) (id : Uuid) (todo : List Message) (w : World) :
    Prop :=
  if id ∈ todo.map Message.id then Waits w id ∧ (InQueue w id ↔ InQueue w₀ id)
  else Survives w id ↔ InQueue w₀ id ∨ fault ≠ some (.push id)

theorem step_push {messageID : String} {r : Except Err Unit}
    (hx : faulty env fault i (.push messageID) w r w') :
    w'.db = w.db ∧ ((w'.queue = w.queue ∧ fault.any (fun f ↦ f.hits (.push messageID)) = true) ∨
      (w'.queue = messageID :: w.queue ∧
        fault.any (fun f ↦ f.hits (.push messageID)) = false)) := by
  obtain ⟨ch, hf, hs⟩ := hx
  rcases World.step_inv hs with ⟨hfail, -, hd, hq, -⟩ | ⟨hfail, w₁, hp, hd, hq, -⟩
  · exact ⟨hd, .inl ⟨hq, hf.symm.trans hfail⟩⟩
  · cases hp
    exact ⟨hd, .inr ⟨hq, hf.symm.trans hfail⟩⟩

theorem step_update {msg : Message} {r : Except Err Unit}
    (hx : faulty env fault i (.sql (.messageUpdate msg)) w r w') :
    w'.queue = w.queue ∧
      ((w'.db = w.db ∧ fault.any (fun f ↦ f.hits (.sql (.messageUpdate msg))) = true) ∨
        ∃ now, w'.db = MessageRepository.update now msg w.db) := by
  obtain ⟨ch, hf, hs⟩ := hx
  rcases World.step_inv hs with ⟨hfail, -, hd, hq, -⟩ | ⟨hfail, w₁, hp, hd, hq, -⟩
  · exact ⟨hq, .inl ⟨hd, hf.symm.trans hfail⟩⟩
  · cases hp
    exact ⟨hq, .inr ⟨ch.now, hd⟩⟩

/-- Handling one message leaves every other as it was. -/
theorem other_message {msg : Message} {r : Except Err Unit} {r' : Except Err Unit} {w₁ : World}
    (hne : msg.id ≠ id) (hx : faulty env fault i (.push msg.id.toString) w r w₁)
    (hx' : faulty env fault i (.sql (.messageUpdate { msg with status := .pending })) w₁ r' w') :
    (InQueue w' id ↔ InQueue w id) ∧ ∀ P : Message → Prop,
      (∃ row ∈ w'.db.messages, row.id = id ∧ P row) ↔
        ∃ row ∈ w.db.messages, row.id = id ∧ P row := by
  obtain ⟨hd, hq⟩ := step_push hx
  obtain ⟨hq', hd'⟩ := step_update hx'
  have hrows : ∀ row, row.id = id → (row ∈ w'.db.messages ↔ row ∈ w.db.messages) := by
    intro row hid
    rcases hd' with ⟨hd', -⟩ | ⟨now, hd'⟩
    · rw [hd', hd]
    · rw [hd', MessageRepository.mem_update, hd]
      constructor
      · rintro ⟨row₀, hrow, rfl⟩
        split at hid
        · next he => exact absurd (he.symm.trans hid) hne
        · next he =>
          rw [if_neg he]
          exact hrow
      · intro hrow
        refine ⟨row, hrow, ?_⟩
        rw [if_neg]
        exact fun he ↦ hne (he.symm.trans hid)
  constructor
  · unfold InQueue
    rw [hq']
    rcases hq with ⟨hq, -⟩ | ⟨hq, -⟩
    · rw [hq]
    · rw [hq]
      simp [Uuid.parse_toString, hne]
  · intro P
    constructor
    · rintro ⟨row, hrow, hid, hP⟩
      exact ⟨row, (hrows row hid).mp hrow, hid, hP⟩
    · rintro ⟨row, hrow, hid, hP⟩
      exact ⟨row, (hrows row hid).mpr hrow, hid, hP⟩

theorem requeue_handled {w₀ : World} {msg : Message} {rest : List Message}
    (hd : ((msg :: rest).map Message.id).Nodup)
    (hh : Handled fault w₀ id (msg :: rest) w) :
    (Scheduler.requeue msg).wp (faulty env fault i) (fun _ ↦ Handled fault w₀ id rest) w := by
  intro r w₁ hx r' w' hx'
  change Handled fault w₀ id rest w'
  obtain ⟨hfresh, -⟩ := List.nodup_cons.mp hd
  by_cases hid : msg.id = id
  · subst hid
    unfold Handled at hh ⊢
    rw [if_pos (by simp)] at hh
    rw [if_neg hfresh]
    obtain ⟨⟨row, hrow, hrid, hs, hn⟩, hqueue⟩ := hh
    obtain ⟨hd, hq⟩ := step_push hx
    obtain ⟨hq', hd'⟩ := step_update hx'
    have hhit : fault.any (fun f ↦ f.hits (.push msg.id.toString)) = true ↔
        fault = some (.push msg.id) := by
      rcases fault with _ | f
      · simp
      · cases f <;> simp [Fault.hits, Uuid.parse_toString, eq_comm]
    rcases hq with ⟨hq, hf⟩ | ⟨hq, hf⟩
    · -- the push failed, so the write did not, and the row is `pending`
      have hpush := hhit.mp hf
      subst hpush
      rcases hd' with ⟨-, hf'⟩ | ⟨now, hd'⟩
      · cases hf'
      · have hu : Untouched msg.id w'.queue w' := by
          refine ⟨rfl, ?_⟩
          rw [hd', hd]
          refine ⟨_, (MessageRepository.mem_update _ _ _ _).mpr ⟨row, hrow, rfl⟩, ?_⟩
          rw [if_pos hrid]
          exact ⟨hrid, rfl⟩
        rw [hu.survives_iff, hq', hq, ← hqueue]
        simp [InQueue]
    · have hne : fault ≠ some (.push msg.id) := by
        intro he
        rw [hhit.mpr he] at hf
        cases hf
      have hin : InQueue w' msg.id := by
        refine ⟨msg.id.toString, ?_, Uuid.parse_toString _⟩
        rw [hq', hq]
        exact List.mem_cons_self
      exact iff_of_true (.inl hin) (.inr hne)
  · obtain ⟨hqueue, hrows⟩ := other_message hid hx hx'
    have hwaits : Waits w' id ↔ Waits w id := hrows _
    have hsurvives : Survives w' id ↔ Survives w id := or_congr hqueue (hrows _)
    unfold Handled at hh ⊢
    split
    · next hm =>
      have hm' : id ∈ (msg :: rest).map Message.id := List.mem_cons_of_mem _ hm
      rw [if_pos hm'] at hh
      rw [hwaits, hqueue]
      exact hh
    · next hm =>
      have hm' : id ∉ (msg :: rest).map Message.id := by
        rw [List.map_cons, List.mem_cons, not_or]
        exact ⟨Ne.symm hid, hm⟩
      rw [if_neg hm'] at hh
      rw [hsurvives]
      exact hh

/-- One round over the list it has read, of which at most one operation fails. -/
theorem round_handled {rows : List Message} {w₁ : World}
    (hread : faulty env fault i (.sql (.findRetryReady 10)) w (.ok rows) w₁)
    (hrun : (Prog.forEach Scheduler.requeue rows).Runs (faulty env fault i) w₁ () w') :
    ∀ row ∈ rows, Survives w' row.id ↔ InQueue w row.id ∨ fault ≠ some (.push row.id) := by
  intro row hrow
  obtain ⟨hm, hq⟩ := quiet_same rfl hread
  obtain ⟨ch, -, hs⟩ := hread
  have hr : MessageRepository.findRetryReady ch.tie ch.now 10 w.db = rows := by
    rcases World.step_inv hs with ⟨-, hr, -, -⟩ | ⟨-, w₂, hp, -, -⟩
    · cases hr
    · cases hp
      rfl
  obtain ⟨hnodup, hdue⟩ := MessageRepository.findRetryReady_spec ch.tie ch.now 10 w.db
  rw [hr] at hnodup hdue
  obtain ⟨hstored, hretry, due, hnext, -⟩ := hdue row hrow
  have hwaits : Waits w₁ row.id := by
    refine ⟨row, ?_, rfl, hretry, by rw [hnext]; simp⟩
    rw [hm]
    exact hstored
  have hqueue : InQueue w₁ row.id ↔ InQueue w row.id := by
    unfold InQueue
    rw [hq]
  have hloop : (Prog.forEach Scheduler.requeue rows).wp (faulty env fault i)
      (fun _ u ↦ (([] : List Message).map Message.id).Nodup ∧ Handled fault w row.id [] u) w₁ :=
    Prog.wp_forEach (P := fun todo u ↦ (todo.map Message.id).Nodup ∧
      Handled fault w row.id todo u) (fun msg rest u hu ↦ ?_) _ ⟨hnodup, ?_⟩
  · have hend := (hrun.post hloop).2
    unfold Handled at hend
    rw [if_neg (by simp)] at hend
    exact hend
  · refine Prog.wp.mono ?_ (requeue_handled hu.1 hu.2)
    exact fun _ u' hu' ↦ ⟨(List.nodup_cons.mp hu.1).2, hu'⟩
  · unfold Handled
    rw [if_pos (List.mem_map_of_mem hrow)]
    exact ⟨hwaits, hqueue⟩

/-! ### Both loops -/

/-- A popped message survives its iteration exactly when neither its lookup nor the write of its
outcome fails and the worker is not stopped before the end; a message of the list a round has read
survives the round exactly when its push does not fail. An id that is in the queue another time
survives anyway. -/
theorem recoverable_iff {env : Platform} {fault : Option Fault} {w w' : World} :
    (∀ (n : Nat) (messageID : String) (id : Uuid) (p : Service Unit),
      Uuid.parse messageID = some id →
      (∃ row ∈ w.db.messages, row.id = id ∧ row.status = .pending) →
      Prog.Path (faulty env fault (.worker n)) (Worker.handle env messageID) w p w' →
      (Survives w' id ↔ InQueue w id ∨
        p = .pure () ∧ fault ≠ some .findById ∧ fault ≠ some (.write id))) ∧
    ∀ (rows : List Message) (w₁ : World),
      faulty env fault .scheduler (.sql (.findRetryReady 10)) w (.ok rows) w₁ →
      (Prog.forEach Scheduler.requeue rows).Runs (faulty env fault .scheduler) w₁ () w' →
      ∀ row ∈ rows, (Survives w' row.id ↔ InQueue w row.id ∨ fault ≠ some (.push row.id)) := by
  constructor
  · intro n messageID id p hp hrow hx
    exact hx.always (always_handle hp ⟨rfl, hrow⟩)
  · intro rows w₁ hread hrun
    exact round_handled hread hrun

/-- Message 2 is stored, and its id has just been popped. -/
def poppedWorld : World :=
  { Pipeline.sampleWorld with
    db := { Pipeline.sampleWorld.db with
      messages := ⟨[{ Message.zero with id := ⟨2⟩, orgID := ⟨1⟩ }], List.nodup_singleton _⟩ } }

theorem poppedWorld_untouched : Untouched ⟨2⟩ [] poppedWorld :=
  ⟨rfl, _, List.mem_singleton.mpr rfl, rfl, rfl⟩

/-- A failing lookup ends the iteration, and nothing has been done. -/
private theorem lookup_fails :
    ∃ w', Prog.Path (faulty Pipeline.samplePlatform (some .findById) (.worker 0))
        (Worker.handle Pipeline.samplePlatform (Uuid.toString ⟨2⟩)) poppedWorld (.pure ()) w' ∧
      Untouched ⟨2⟩ [] w' := by
  have hstep : ∃ w', faulty Pipeline.samplePlatform (some .findById) (.worker 0)
      (.sql (.messageFindById ⟨2⟩)) poppedWorld (.error .unavailable) w' :=
    ⟨_, { Pipeline.sampleChoice 0 3 200 with fail := true }, rfl, rfl⟩
  obtain ⟨w', hx⟩ := hstep
  obtain ⟨hm, hq⟩ := quiet_same rfl hx
  refine ⟨w', ?_, hq, ?_⟩
  · unfold Worker.handle
    rw [Uuid.parse_toString]
    exact .step hx (.here _ _)
  · rw [hm]
    exact poppedWorld_untouched.2

theorem recoverable_iff_sample :
    ∃ w', Untouched ⟨2⟩ [] w' ∧ (Survives w' ⟨2⟩ ↔ InQueue poppedWorld ⟨2⟩ ∨
      (Prog.pure () : Service Unit) = .pure () ∧ some Fault.findById ≠ some .findById ∧
        some Fault.findById ≠ some (.write ⟨2⟩)) := by
  obtain ⟨w', hpath, hu⟩ := lookup_fails
  exact ⟨w', hu, recoverable_iff.1 _ _ _ _ (Uuid.parse_toString _) poppedWorld_untouched.2 hpath⟩

/-- A failing lookup leaves a popped message `pending` for good. -/
theorem lost_by_lookup :
    ∃ w', Prog.Path (faulty Pipeline.samplePlatform (some .findById) (.worker 0))
        (Worker.handle Pipeline.samplePlatform (Uuid.toString ⟨2⟩)) poppedWorld (.pure ()) w' ∧
      ¬ Survives w' ⟨2⟩ := by
  obtain ⟨w', hpath, hu⟩ := lookup_fails
  refine ⟨w', hpath, ?_⟩
  rw [hu.survives_iff]
  simp

end Faults

end Chis
