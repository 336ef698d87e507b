import Chis.Pipeline.Soundness
import Chis.Retries.Requests

/-!
# The retry arithmetic

Attempt counts have no constraint in the schema, and workers and schedulers write whole rows from the
copies that they have read. All of them are bounded nevertheless: whatever is read was written by
somebody, and everything that is written is bounded if the copies that it is made of are.
-/

namespace Chis.Retries

open Program Api

/-! ### Workers, schedulers and calls -/

/-- What a process runs. -/
inductive Role
  | worker
  | scheduler
  | call (c : Tenants.Call)

/-- The program of a role. -/
def Role.program (env : Env) : Role → Service Unit
  | .worker => Worker.iteration env.toPlatform
  | .scheduler => Scheduler.processRetries
  | .call c => c.program env

/-- An operation is performed, or fails without an effect, or is performed and its answer is lost. -/
def Told (env : Platform) (i : Proc) (o : Op) (w : World) (r : o.Res) (w' : World) : Prop :=
  World.Exec env (fun _ ↦ True) i o w r w' ∨
    ∃ r₁ w₁, World.Exec env (fun _ ↦ True) i o w r₁ w₁ ∧ World.failure o = some r ∧
      w' = { w₁ with log := ⟨i, o, r, w₁.clock⟩ :: w.log }

/-- Any number of workers, schedulers and calls, interleaved operation by operation. A name of a
process says nothing of its role. -/
def crowd (env : Env) (roles : Proc → Role) : System Proc World Op Op.Res where
  exec := Told env.toPlatform
  body i := (roles i).program env
  loops i := ∀ c, roles i ≠ .call c

/-- The messages that an operation has returned. -/
def snapshots : (o : Op) → o.Res → List Message
  | .sql (.messageFindById _), (.ok msg : Except Err Message) => [msg]
  | .sql (.messageUpdateStatus _ _), (.ok msg : Except Err Message) => [msg]
  | .sql (.findRetryReady _), (.ok msgs : Except Err (List Message)) => msgs
  | _, _ => []

/-! ### What is written -/

/-- The count of a message is in range, and its retry time, if any, is one of some times. -/
structure InRange (due : Time → Prop) (msg : Message) : Prop where
  nonneg : 0 ≤ msg.attemptCount
  le : msg.attemptCount ≤ Worker.maxAttempts
  due : ∀ x, msg.nextRetryAt = some x → due x

/-- All messages that have been returned are in range. -/
def Held (due : Time → Prop) (past : List (Event Op.Res)) : Prop :=
  ∀ e ∈ past, ∀ msg ∈ snapshots e.1 e.2, InRange due msg

/-- The retry time is the time just seen and the backoff for the count before the attempt. -/
def Computes (past : List (Event Op.Res)) (msg : Message) (x : Time) : Prop :=
  ∃ t older, ∃ k : Nat, past = Op.sawTime t :: older ∧ k < 5 ∧ msg.status = .retry ∧
    msg.attemptCount = k + 1 ∧ x = t + Pipeline.delay k

/-- The process does not panic, and a message that it overwrites is in range. -/
def Careful (due : Time → Prop) (past : List (Event Op.Res)) : Op → Prop
  | .panic => False
  | .sql (.messageUpdate msg) => InRange (fun x ↦ due x ∨ Computes past msg x) msg
  | _ => True

/-- If what it has been told is in range, the process is careful. -/
def Keeps (past : List (Event Op.Res)) (o : Op) : Prop := ∀ due, Held due past → Careful due past o

/-- What the operations of a role keep to. -/
def Role.Promises : Role → List (Event Op.Res) → Op → Prop
  | .worker | .scheduler => Keeps
  | .call _ => Spares

section Programs

variable {env : Platform} {msg : Message} {past : List (Event Op.Res)}

/-- The message was returned by an operation. -/
def Read (msg : Message) (past : List (Event Op.Res)) : Prop :=
  ∃ e ∈ past, msg ∈ snapshots e.1 e.2

theorem Read.inRange {due : Time → Prop} (h : Read msg past) (hh : Held due past) :
    InRange due msg := by
  obtain ⟨e, he, hm⟩ := h
  exact hh e he msg hm

theorem Read.later (h : Read msg past) (e : Event Op.Res) : Read msg (e :: past) := by
  obtain ⟨e', he, hm⟩ := h
  exact ⟨e', List.mem_cons_of_mem _ he, hm⟩

/-- The shift is evaluated with a count from 0 to 4. -/
theorem shift_range {due : Time → Prop} (h : InRange due msg)
    (hlt : msg.attemptCount < Worker.maxAttempts) :
    ∃ k : Nat, k < 5 ∧ msg.attemptCount = k ∧
      Worker.backoff msg.attemptCount = some (1000000000 * 2 ^ k) := by
  have hnonneg := h.nonneg
  unfold Worker.maxAttempts at hlt
  refine ⟨msg.attemptCount.toNat, by omega, by omega, ?_⟩
  have hk : msg.attemptCount = msg.attemptCount.toNat := by omega
  rw [hk]
  exact Pipeline.backoff_eq (by omega)

private theorem settle_keeps {ok : Bool} (h : Read msg past) :
    (Worker.settle msg ok).Traces Keeps (fun _ _ ↦ True) past := by
  unfold Worker.settle
  split
  · exact ⟨fun _ _ ↦ trivial, fun _ ↦ trivial⟩
  · split
    · next hlt =>
      split
      · next hnone =>
        refine ⟨fun due hh ↦ ?_, fun e ↦ nomatch (e : Empty)⟩
        obtain ⟨k, -, -, hk⟩ := shift_range (h.inRange hh) hlt
        exact nomatch hnone.symm.trans hk
      · next backoff hsome =>
        refine ⟨fun _ _ ↦ trivial, fun t ↦ ⟨fun due hh ↦ ?_, fun _ ↦ trivial⟩⟩
        have hin := (h.later (Op.sawTime t)).inRange hh
        obtain ⟨k, hk, hcount, hb⟩ := shift_range hin hlt
        have hbackoff : backoff = 1000000000 * 2 ^ k := Option.some_inj.mp (hsome.symm.trans hb)
        have hnonneg := hin.nonneg
        refine ⟨?_, ?_, fun x hx ↦ .inr ⟨t, past, k, rfl, hk, rfl, ?_, ?_⟩⟩
        · show 0 ≤ msg.attemptCount + 1
          omega
        · show msg.attemptCount + 1 ≤ Worker.maxAttempts
          omega
        · show msg.attemptCount + 1 = k + 1
          omega
        · have hx : some (Worker.addDuration t backoff) = some x := hx
          rw [← Option.some_inj.mp hx, hbackoff, Pipeline.addDuration_backoff]
    · refine ⟨fun due hh ↦ ?_, fun _ ↦ trivial⟩
      have hin := h.inRange hh
      exact ⟨hin.nonneg, hin.le, fun x hx ↦ .inl (hin.due x hx)⟩

private theorem attempt_keeps {req : HttpRequest} (h : Read msg past) :
    (Worker.attempt msg req).Traces Keeps (fun _ _ ↦ True) past := by
  refine ⟨fun _ _ ↦ trivial, fun _ ↦ ⟨fun _ _ ↦ trivial, fun _ ↦ ⟨fun _ _ ↦ trivial, fun _ ↦
    ⟨fun _ _ ↦ trivial, fun _ ↦ ⟨fun _ _ ↦ trivial, fun _ ↦ settle_keeps ?_⟩⟩⟩⟩⟩
  exact ((((h.later _).later _).later _).later _).later _

private theorem deliver_keeps (h : Read msg past) :
    (Worker.deliver env msg).Traces Keeps (fun _ _ ↦ True) past := by
  unfold Worker.deliver
  split
  · exact ⟨fun _ _ ↦ trivial, fun _ ↦ trivial⟩
  · refine ⟨fun _ _ ↦ trivial, fun (r : Except Err String) ↦ ?_⟩
    cases r with
    | error e => exact attempt_keeps (h.later _)
    | ok secret => exact ⟨fun _ _ ↦ trivial, fun _ ↦ attempt_keeps ((h.later _).later _)⟩

theorem iteration_keeps (env : Platform) (past : List (Event Op.Res)) :
    (Worker.iteration env).Traces Keeps (fun _ _ ↦ True) past := by
  refine ⟨fun _ _ ↦ trivial, fun (r : Except Err String) ↦ ?_⟩
  cases r with
  | error e => trivial
  | ok messageID =>
    show (Worker.handle env messageID).Traces _ _ _
    unfold Worker.handle
    split
    · trivial
    · refine ⟨fun _ _ ↦ trivial, fun (r : Except Err Message) ↦ ?_⟩
      cases r with
      | error e => trivial
      | ok msg => exact deliver_keeps ⟨_, List.mem_cons_self, List.mem_singleton.mpr rfl⟩

private theorem requeue_keeps {msgs : List Message} (h : ∀ msg ∈ msgs, Read msg past) :
    (Prog.forEach Scheduler.requeue msgs).Traces Keeps (fun _ _ ↦ True) past := by
  induction msgs generalizing past with
  | nil => trivial
  | cons msg rest ih =>
    have hmsg := h msg List.mem_cons_self
    refine ⟨fun _ _ ↦ trivial, fun _ ↦ ⟨fun due hh ↦ ?_, fun _ ↦ ih fun m hm ↦ ?_⟩⟩
    · have hin := (hmsg.later _).inRange hh
      exact ⟨hin.nonneg, hin.le, fun x hx ↦ .inl (hin.due x hx)⟩
    · exact ((h m (List.mem_cons_of_mem _ hm)).later _).later _

theorem processRetries_keeps (past : List (Event Op.Res)) :
    Scheduler.processRetries.Traces Keeps (fun _ _ ↦ True) past := by
  refine ⟨fun _ _ ↦ trivial, fun (r : Except Err (List Message)) ↦ ?_⟩
  cases r with
  | error e => trivial
  | ok msgs => exact requeue_keeps fun msg hm ↦ ⟨_, List.mem_cons_self, hm⟩

end Programs

/-- Every role keeps its promise. -/
theorem Role.promises (env : Env) (role : Role) (past : List (Event Op.Res)) :
    (role.program env).Traces role.Promises (fun _ _ ↦ True) past := by
  cases role with
  | worker => exact iteration_keeps _ past
  | scheduler => exact processRetries_keeps past
  | call c => exact call_spares c

/-! ### One operation -/

section Step

variable {env : Platform} {i : Proc} {o : Op} {w w' : World} {r : o.Res}

/-- The log records what the process has been told. -/
theorem Told.past (h : Told env i o w r w') :
    w'.past i = ⟨o, r⟩ :: w.past i ∧ ∀ j, j ≠ i → w'.past j = w.past j := by
  have hlog : ∃ t, w'.log = ⟨i, o, r, t⟩ :: w.log := by
    cases h with
    | inl hx => exact hx.log_eq
    | inr hx =>
      obtain ⟨r₁, w₁, -, -, rfl⟩ := hx
      exact ⟨_, rfl⟩
  obtain ⟨t, ht⟩ := hlog
  constructor
  · simp [World.past, ht]
  · intro j hj
    simp [World.past, ht, Ne.symm hj]

/-- The operation was performed, and its answer may have been lost. -/
private theorem Told.performed (h : Told env i o w r w') :
    ∃ r₁ w₁, World.Exec env (fun _ ↦ True) i o w r₁ w₁ ∧ w'.db = w₁.db ∧
      (r = r₁ ∨ World.failure o = some r) := by
  cases h with
  | inl hx => exact ⟨r, w', hx, rfl, .inl rfl⟩
  | inr hx =>
    obtain ⟨r₁, w₁, hx, hf, rfl⟩ := hx
    exact ⟨r₁, w₁, hx, rfl, .inr hf⟩

/-- What is returned is stored, or has no attempt yet. -/
theorem Told.returned (h : Told env i o w r w') : ∀ msg ∈ snapshots o r,
    msg ∈ w.db.messages ∨ msg.attemptCount = 0 ∧ msg.nextRetryAt = none := by
  obtain ⟨r₁, w₁, hx, -, hr⟩ := h.performed
  intro msg hmsg
  cases o with
  | sql s =>
    have hexec : ∃ ch db', s.exec env ch w.db = (r, db') := by
      cases hr with
      | inr hf =>
        cases hf
        cases s <;> cases hmsg
      | inl hr =>
        subst hr
        cases hx.sql with
        | inl hfail =>
          rw [hfail.1] at hmsg
          cases s <;> cases hmsg
        | inr hok =>
          obtain ⟨ch, -, hexec, -⟩ := hok
          exact ⟨ch, _, hexec⟩
    obtain ⟨ch, db', hexec⟩ := hexec
    cases s with
    | messageFindById id =>
      cases r with
      | error e => cases hmsg
      | ok row =>
        cases List.mem_singleton.mp hmsg
        exact .inl (MessageRepository.findById_ok (Prod.mk.inj hexec).1).1
    | messageUpdateStatus id st =>
      cases r with
      | error e => cases hmsg
      | ok row =>
        cases List.mem_singleton.mp hmsg
        rcases Stmt.write_inv hexec with ⟨a, ha, hu⟩ | ⟨e, he, -⟩
        · cases ha
          unfold MessageRepository.updateStatus at hu
          split at hu
          · cases hu
          · cases hu
            exact .inr ⟨rfl, rfl⟩
        · cases he
    | findRetryReady limit =>
      cases (Prod.mk.inj hexec).1
      exact .inl ((MessageRepository.findRetryReady_spec _ _ _ _).2 msg hmsg).1
    | _ => cases hmsg
  | _ => cases hmsg

/-- A stored message has the count and the retry time of a message that was stored before, of a new
one, or of the one that an update writes. -/
def Sourced (o : Op) (w : World) (row : Message) : Prop :=
  (∃ row₀ ∈ w.db.messages, row.attemptCount = row₀.attemptCount ∧
      row.nextRetryAt = row₀.nextRetryAt) ∨
    (row.attemptCount = 0 ∧ row.nextRetryAt = none) ∨
    ∃ msg, o = .sql (.messageUpdate msg) ∧ row.attemptCount = msg.attemptCount ∧
      row.nextRetryAt = msg.nextRetryAt

theorem Told.stored (h : Told env i o w r w') : ∀ row ∈ w'.db.messages, Sourced o w row := by
  obtain ⟨r₁, w₁, hx, hdb, -⟩ := h.performed
  rw [hdb]
  have hsame {db : Db} (hd : db.messages = w.db.messages) :
      ∀ row ∈ db.messages, Sourced o w row := by
    intro row hrow
    rw [hd] at hrow
    exact .inl ⟨row, hrow, rfl, rfl⟩
  by_cases ho : ∃ s, o = .sql s
  · obtain ⟨s, rfl⟩ := ho
    cases hx.sql with
    | inl hfail => exact hsame (congrArg Db.messages hfail.2)
    | inr hok =>
      obtain ⟨ch, -, hexec, -⟩ := hok
      have hchange := Stmt.exec_change env ch w.db s
      rw [hexec] at hchange
      generalize w₁.db = db at hchange
      cases hchange with
      | organizationDelete id =>
        intro row hrow
        exact .inl ⟨row, (List.mem_filter.mp hrow).1, rfl, rfl⟩
      | messageCreate hins =>
        intro row hrow
        cases (Relational.Table.mem_of_insert? hins row).mp hrow with
        | inl hold => exact .inl ⟨row, hold, rfl, rfl⟩
        | inr hnew =>
          rw [hnew]
          exact .inr (.inl ⟨rfl, rfl⟩)
      | messageUpdateStatus hu =>
        intro row hrow
        obtain ⟨row₀, hrow₀, he⟩ := (MessageRepository.mem_updateStatus hu row).mp hrow
        refine .inl ⟨row₀, hrow₀, ?_⟩
        rw [he]
        split <;> exact ⟨rfl, rfl⟩
      | messageUpdate msg =>
        intro row hrow
        obtain ⟨row₀, hrow₀, he⟩ := (MessageRepository.mem_update _ msg _ row).mp hrow
        rw [he]
        split
        · exact .inr (.inr ⟨msg, rfl, rfl, rfl⟩)
        · exact .inl ⟨row₀, hrow₀, rfl, rfl⟩
      | _ => exact hsame rfl
  · exact hsame (congrArg Db.messages (hx.db_eq fun s he ↦ ho ⟨s, he⟩))

end Step

/-! ### Runs -/

/-- A process saw the time `t` and then wrote the retry time `x`. -/
def WrittenAt (w : World) (t x : Time) : Prop :=
  ∃ i newer msg r older, w.past i =
      newer ++ ⟨.sql (.messageUpdate msg), r⟩ :: Op.sawTime t :: older ∧
    msg.status = .retry ∧ msg.nextRetryAt = some x

/-- The retry time was between 1 and 16 seconds away when it was computed. -/
def Computed (w : World) (x : Time) : Prop :=
  ∃ t, WrittenAt w t x ∧ t + 1000000 ≤ x ∧ x ≤ t + 16000000

/-- Everything that is stored, that has been read and that has been written is in range. -/
structure Inv (w : World) : Prop where
  stored : ∀ row ∈ w.db.messages, InRange (Computed w) row
  held : ∀ i, Held (Computed w) (w.past i)
  written : ∀ i, ∀ e ∈ w.past i, ∀ msg, e.1 = .sql (.messageUpdate msg) → InRange (Computed w) msg

theorem InRange.mono {P Q : Time → Prop} {msg : Message} (h : InRange P msg)
    (hpq : ∀ x, P x → Q x) : InRange Q msg :=
  ⟨h.nonneg, h.le, fun x hx ↦ hpq x (h.due x hx)⟩

theorem InRange.congr {P : Time → Prop} {msg msg' : Message} (h : InRange P msg)
    (hc : msg'.attemptCount = msg.attemptCount) (hn : msg'.nextRetryAt = msg.nextRetryAt) :
    InRange P msg' where
  nonneg := hc ▸ h.nonneg
  le := hc ▸ h.le
  due := hn ▸ h.due

theorem InRange.zero {P : Time → Prop} {msg : Message} (hc : msg.attemptCount = 0)
    (hn : msg.nextRetryAt = none) : InRange P msg where
  nonneg := by rw [hc]
  le := by rw [hc]; decide
  due x hx := nomatch hn.symm.trans hx

section Run

variable {env : Env} {roles : Proc → Role} {i : Proc} {o : Op} {w w' : World} {r : o.Res}

/-- What has been computed stays so. -/
private theorem Computed.later {x : Time} (h : Computed w x)
    (ht : Told env.toPlatform i o w r w') : Computed w' x := by
  obtain ⟨t, ⟨j, newer, msg, r', older, hp, hmsg⟩, hx⟩ := h
  by_cases hj : j = i
  · subst hj
    refine ⟨t, ⟨j, ⟨o, r⟩ :: newer, msg, r', older, ?_, hmsg⟩, hx⟩
    rw [ht.past.1, hp]
    rfl
  · refine ⟨t, ⟨j, newer, msg, r', older, ?_, hmsg⟩, hx⟩
    rw [ht.past.2 j hj, hp]

private theorem delay_range {k : Nat} (hk : k < 5) :
    1000000 ≤ Pipeline.delay k ∧ Pipeline.delay k ≤ 16000000 := by
  interval_cases k <;> decide

/-- A retry time that is written after a look at the clock. -/
private theorem computed_now {msg : Message} {r : Except Err Unit} {x : Time}
    (h : Computes (w.past i) msg x) (hx : msg.nextRetryAt = some x)
    (ht : Told env.toPlatform i (.sql (.messageUpdate msg)) w r w') : Computed w' x := by
  obtain ⟨t, older, k, hp, hk, hs, -, rfl⟩ := h
  refine ⟨t, ⟨i, [], msg, r, older, ?_, hs, hx⟩, ?_, ?_⟩
  · rw [ht.past.1, hp]
    rfl
  · exact Int.add_le_add_left (delay_range hk).1 t
  · exact Int.add_le_add_left (delay_range hk).2 t

theorem Inv.step (hi : Inv w) (ht : Told env.toPlatform i o w r w')
    (hwrite : ∀ msg, o = .sql (.messageUpdate msg) →
      InRange (fun x ↦ Computed w x ∨ Computes (w.past i) msg x) msg) : Inv w' := by
  have hlater {msg : Message} (h : InRange (Computed w) msg) : InRange (Computed w') msg :=
    h.mono fun x hx ↦ hx.later ht
  have hnew (msg : Message) (ho : o = .sql (.messageUpdate msg)) : InRange (Computed w') msg := by
    subst ho
    have hin := hwrite msg rfl
    refine ⟨hin.nonneg, hin.le, fun x hx ↦ ?_⟩
    cases hin.due x hx with
    | inl h => exact h.later ht
    | inr h => exact computed_now h hx ht
  refine ⟨fun row hrow ↦ ?_, fun j e he msg hmsg ↦ ?_, fun j e he msg hmsg ↦ ?_⟩
  · rcases ht.stored row hrow with ⟨row₀, hrow₀, hc, hn⟩ | ⟨hc, hn⟩ | ⟨msg, ho, hc, hn⟩
    · exact (hlater (hi.stored row₀ hrow₀)).congr hc hn
    · exact .zero hc hn
    · exact (hnew msg ho).congr hc hn
  · by_cases hj : j = i
    · subst hj
      rw [ht.past.1] at he
      cases List.mem_cons.mp he with
      | inl he =>
        subst he
        cases ht.returned msg hmsg with
        | inl h => exact hlater (hi.stored msg h)
        | inr h => exact .zero h.1 h.2
      | inr he => exact hlater (hi.held j e he msg hmsg)
    · rw [ht.past.2 j hj] at he
      exact hlater (hi.held j e he msg hmsg)
  · by_cases hj : j = i
    · subst hj
      rw [ht.past.1] at he
      cases List.mem_cons.mp he with
      | inl he =>
        subst he
        exact hnew msg hmsg
      | inr he => exact hlater (hi.written j e he msg hmsg)
    · rw [ht.past.2 j hj] at he
      exact hlater (hi.written j e he msg hmsg)

variable {now : Time} {c : Config Proc World Op Op.Res}

private theorem crowd_promises (h : (crowd env roles).Reachable (World.start now) c) (i : Proc) :
    (c.procs i).Traces (roles i).Promises (fun _ _ ↦ True) (c.state.past i) := by
  have hr : (crowd env roles).Records World.past := fun _ _ _ _ _ hx ↦ Told.past hx
  exact (hr.traces (P := fun i ↦ (roles i).Promises) (Q := fun _ _ _ ↦ True) (fun _ ↦ rfl)
    (fun i p _ ↦ (roles i).promises env p) h i).1

theorem crowd_inv (h : (crowd env roles).Reachable (World.start now) c) : Inv c.state := by
  refine h.induct (I := fun c ↦ Inv c.state) ?_ fun c c' hreach hi hstep ↦ ?_
  · exact ⟨fun row hrow ↦ (nomatch hrow), fun i e he ↦ (nomatch he), fun i e he ↦ (nomatch he)⟩
  · cases hstep with
    | again => exact hi
    | @act i o k r s' hp hx =>
      refine hi.step hx fun msg ho ↦ ?_
      have hpromise := crowd_promises hreach i
      rw [hp] at hpromise
      have ho' := hpromise.1
      subst ho
      cases hrole : roles i with
      | worker | scheduler =>
        rw [hrole] at ho'
        exact ho' (Computed c.state) (hi.held i)
      | call call =>
        rw [hrole] at ho'
        exact absurd rfl (ho' msg)

/-- Counts and retry times of a configuration are as the retry arithmetic needs them. -/
structure SafeArithmetic (roles : Proc → Role) (c : Config Proc World Op Op.Res) : Prop where
  stored : ∀ row ∈ c.state.db.messages, 0 ≤ row.attemptCount ∧ row.attemptCount ≤ Worker.maxAttempts
  held : ∀ i, ∀ e ∈ c.state.past i, ∀ msg ∈ snapshots e.1 e.2,
    0 ≤ msg.attemptCount ∧ msg.attemptCount ≤ Worker.maxAttempts
  /-- What `Worker.deliver` shifts by, for a message it has read. -/
  shift : ∀ i, ∀ e ∈ c.state.past i, ∀ msg ∈ snapshots e.1 e.2,
    msg.attemptCount < Worker.maxAttempts → ∃ k : Nat, k ≤ 4 ∧ msg.attemptCount = k ∧
      Worker.backoff msg.attemptCount = some (1000000000 * 2 ^ k)
  /-- No shift by a negative count. -/
  panic : ∀ i k, (∀ call, roles i ≠ .call call) → c.procs i ≠ .op .panic k
  written : ∀ i, ∀ e ∈ c.state.past i, ∀ msg, e.1 = .sql (.messageUpdate msg) →
    0 ≤ msg.attemptCount ∧ msg.attemptCount ≤ Worker.maxAttempts ∧
      ∀ x, msg.nextRetryAt = some x → Computed c.state x

/-- In every run of any number of workers and schedulers, whatever fails, the retry arithmetic is
safe. -/
theorem retry_arithmetic_safe (h : (crowd env roles).Reachable (World.start now) c) :
    SafeArithmetic roles c := by
  have hi := crowd_inv h
  have hbounds {msg : Message} (hm : InRange (Computed c.state) msg) :
      0 ≤ msg.attemptCount ∧ msg.attemptCount ≤ Worker.maxAttempts := ⟨hm.nonneg, hm.le⟩
  refine ⟨fun row hrow ↦ hbounds (hi.stored row hrow),
    fun i e he msg hmsg ↦ hbounds (hi.held i e he msg hmsg), fun i e he msg hmsg hlt ↦ ?_,
    fun i k hrole hp ↦ ?_, fun i e he msg hmsg ↦ ?_⟩
  · obtain ⟨k, hk, hcount, hb⟩ := shift_range (hi.held i e he msg hmsg) hlt
    exact ⟨k, by omega, hcount, hb⟩
  · have hpromise := crowd_promises h i
    rw [hp] at hpromise
    cases hr : roles i with
    | worker | scheduler =>
      have ho := hpromise.1
      rw [hr] at ho
      exact ho (Computed c.state) (hi.held i)
    | call call => exact hrole call hr
  · have hm := hi.written i e he msg hmsg
    exact ⟨hm.nonneg, hm.le, hm.due⟩

end Run

/-! ### A sample -/

/-- Ann registers, and a message of her organization is queued. Two workers and two schedulers run. -/
private def sampleRoles : Proc → Role
  | .worker _ => .worker
  | .scheduler => .scheduler
  | .client 0 => .call (.request (sampleSent 0).1 (sampleSent 0).2)
  | .client 1 => .call (.queueMessage ⟨"http://a.io", 2, "0", Uuid.toString ⟨3⟩⟩)
  | .client _ => .scheduler

/-- A worker does not reach the receiver, at the time 7. -/
private def sampleRefusal : List (Proc × Choice) :=
  sampleTurns 0 [0, 1, 2, 0, 3, 4, 0] ++ sampleTurns 1 [5, 0] ++
    (List.range 11).map fun n ↦ (.worker 0, ⟨false, 7, ⟨Fin.ofNat _ (6 + n)⟩, fun _ ↦ 0, .failed "", []⟩)

/-- The count of the message is 1, and its retry is due a second later. -/
theorem first_retry_safe : ∃ c, (c.state.db.messages.rows.map fun m ↦
    (m.attemptCount, m.nextRetryAt)) = [(1, some 1000007)] ∧ SafeArithmetic sampleRoles c := by
  have hplay : ((System.play (World.step sampleEnv.toPlatform)
      ((crowd sampleEnv sampleRoles).init (World.start 0)) sampleRefusal).map fun c ↦
        c.state.db.messages.rows.map fun m ↦ (m.attemptCount, m.nextRetryAt)) =
      some [(1, some 1000007)] := by
    decide +kernel
  obtain ⟨c, hc, hrow⟩ := Option.map_eq_some_iff.mp hplay
  refine ⟨c, hrow, retry_arithmetic_safe (System.play_steps ?_ hc)⟩
  exact fun _ ch _ _ _ _ hs ↦ .inl ⟨ch, trivial, hs⟩

end Chis.Retries
