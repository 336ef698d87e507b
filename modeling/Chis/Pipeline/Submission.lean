import Chis.Api.System

/-!
# Submitting a message

`QueueMessage` inserts a row and then pushes its id, whose result it does not look at. It is all or
nothing unless the row is inserted and the push fails.
-/

namespace Chis.Submission

open Program Api

/-- The row that a request asks for. -/
structure RowOf (env : Platform) (req : Delivery.QueueMessageRequest) (row : Message) : Prop where
  org : Uuid.parse req.orgId = some row.orgID
  method : row.method = Delivery.httpMethodString req.method
  url : row.url = req.url
  payload : env.jsonb req.payload = some row.payload
  status : row.status = .pending

/-- An answer means one new row and its id in the queue, an error means no new row. -/
def AllOrNothing (env : Platform) (req : Delivery.QueueMessageRequest) (w w' : World) :
    Except Delivery.GrpcError Delivery.QueueMessageResponse → Prop
  | .ok res => ∃ row, RowOf env req row ∧ row.id.toString = res.messageId ∧
      w'.db.messages.rows = w.db.messages.rows ++ [row] ∧ w'.queue = res.messageId :: w.queue
  | .error _ => w'.db.messages = w.db.messages

/-- The tables accept the message that a request asks for, under the id that is generated. -/
structure Accepted (env : Platform) (req : Delivery.QueueMessageRequest) (id : Uuid) (db : Db) :
    Prop where
  org : ∃ o ∈ db.organizations, Uuid.parse req.orgId = some o.id
  url : textOk req.url = true
  payload : ∃ payload, env.jsonb req.payload = some payload
  id : ∀ row ∈ db.messages, row.id ≠ id

private theorem textOk_nat (n : Nat) : textOk (toString n) = true := by
  refine List.all_eq_true.mpr fun c hc ↦ decide_eq_true fun h0 ↦ ?_
  have hd : c.isDigit = true := by
    refine Nat.isDigit_of_mem_toDigits (b := 10) (n := n) (by decide) (by decide) ?_
    simpa [toString, Nat.repr] using hc
  have hnul : c = Char.ofNat 0 := by rw [← h0, Char.ofNat_toNat]
  rw [hnul] at hd
  exact absurd hd (by decide)

/-- The text of a method is one that Postgres stores, also of a number without a name. -/
theorem textOk_httpMethodString (method : Int) :
    textOk (Delivery.httpMethodString method) = true := by
  have hint : textOk (toString method) = true := by
    cases method with
    | ofNat n => exact textOk_nat n
    | negSucc n => exact textOk_append.mpr ⟨by decide, textOk_nat (n + 1)⟩
  have hname : ∀ name ∈ Delivery.httpMethods, textOk name = true := by decide
  unfold Delivery.httpMethodString
  split
  · exact hint
  · rw [List.getD_eq_getElem?_getD]
    cases h : Delivery.httpMethods[method.toNat]? with
    | none => exact hint
    | some name => exact hname name (List.mem_of_getElem? h)

section Run

variable {env : Platform} {i : Proc} {req : Delivery.QueueMessageRequest} {w w' : World}
  {chInsert chPush : Choice} {x : Except Delivery.GrpcError Delivery.QueueMessageResponse}

/-- The tables accept a message exactly when the statement can insert it. -/
theorem accepted_iff {id orgID : Uuid} {now : Time} {db : Db}
    (ho : Uuid.parse req.orgId = some orgID) : Accepted env req id db ↔
      ∃ a, MessageRepository.create env.jsonb id now (Delivery.messageOf req orgID) db = .ok a := by
  rw [MessageRepository.create_succeeds_iff]
  constructor
  · intro h
    obtain ⟨o, hmem, hparse⟩ := h.org
    rw [ho] at hparse
    exact ⟨⟨textOk_httpMethodString _, h.url⟩, h.payload, h.id, o, hmem,
      (Option.some.inj hparse).symm⟩
  · rintro ⟨⟨-, hurl⟩, hpayload, hid, o, hmem, horg⟩
    exact ⟨⟨o, hmem, ho.trans (congrArg some horg.symm)⟩, hurl, hpayload, hid⟩

/-- The insertion fails and leaves the tables alone. -/
structure NotInserted (env : Platform) (ch : Choice) (message : Message) (w w' : World) : Prop where
  cause : ch.fail = true ∨ ¬ ∃ a, MessageRepository.create env.jsonb ch.id ch.now message w.db = .ok a
  db : w'.db = w.db

/-- The insertion adds a pending row. -/
structure Inserted (env : Platform) (ch : Choice) (message a row : Message) (w w' : World) :
    Prop where
  works : ch.fail = false
  accepted : ∃ a, MessageRepository.create env.jsonb ch.id ch.now message w.db = .ok a
  id : a.id = row.id
  rows : w'.db.messages.rows = w.db.messages.rows ++ [row]
  org : row.orgID = message.orgID
  method : row.method = message.method
  url : row.url = message.url
  payload : env.jsonb message.payload = some row.payload
  status : row.status = .pending

/-- The first operation of a submission. -/
theorem step_insert {message : Message} {r : Except Err Message}
    (h : World.step env i chInsert (.sql (.messageCreate message)) w = some (r, w')) :
    w'.queue = w.queue ∧ ((∃ e, r = .error e ∧ NotInserted env chInsert message w w') ∨
      ∃ a row, r = .ok a ∧ Inserted env chInsert message a row w w') := by
  have hq : w'.queue = w.queue := by
    rcases World.step_inv h with ⟨-, -, -, hq, -⟩ | ⟨-, w₁, hp, -, hq, -⟩
    · exact hq
    · simp only [World.perform] at hp
      split at hp
      · cases hp
      · cases hp
        exact hq
  refine ⟨hq, ?_⟩
  rcases World.step_sql h with ⟨hfail, rfl, hd⟩ | ⟨hfail, hexec, -⟩
  · exact .inl ⟨_, rfl, .inl hfail, hd⟩
  · rcases Stmt.write_inv hexec with ⟨a, rfl, hc⟩ | ⟨e, rfl, hc, hd⟩
    · right
      obtain ⟨hid, -, payload, messages, hp, hins, hd⟩ := MessageRepository.create_ok hc
      refine ⟨a, (⟨chInsert.id, message.orgID, message.method, message.url, payload, .pending,
        chInsert.now, chInsert.now, 0, none⟩ : Message), rfl, ?_⟩
      have hrows := ((w.db.messages.insert?_eq_some_iff _ _).mp hins).2
      exact ⟨hfail, ⟨_, hc⟩, hid, by rw [hd, hrows], rfl, rfl, rfl, hp, rfl⟩
    · left
      refine ⟨e, rfl, .inr ?_, hd⟩
      rintro ⟨a, ha⟩
      rw [ha] at hc
      cases hc

/-- The second one. -/
theorem step_push {messageID : String} {r : Except Err Unit}
    (h : World.step env i chPush (.push messageID) w = some (r, w')) : w'.db = w.db ∧
      (chPush.fail = true ∧ w'.queue = w.queue ∨
        chPush.fail = false ∧ w'.queue = messageID :: w.queue) := by
  rcases World.step_inv h with ⟨hfail, -, hd, hq, -⟩ | ⟨hfail, w₁, hp, hd, hq, -⟩
  · exact ⟨hd, .inl ⟨hfail, hq⟩⟩
  · cases hp
    exact ⟨hd, .inr ⟨hfail, hq⟩⟩

/-- A submission, by the failures of its two operations, is all or nothing exactly when the push
works or has no row to be pushed. -/
theorem all_or_nothing_iff
    (h : (Delivery.queueMessage req).play (World.step env i) [chInsert, chPush] w = some (x, w')) :
    AllOrNothing env req w w' x ↔
      (chPush.fail = true → chInsert.fail = true ∨ ¬ Accepted env req chInsert.id w.db) := by
  unfold Delivery.queueMessage at h
  cases ho : Uuid.parse req.orgId with
  | none =>
    rw [ho] at h
    cases h
    refine iff_of_true rfl fun _ ↦ .inr fun ha ↦ ?_
    obtain ⟨o, -, hparse⟩ := ha.org
    rw [ho] at hparse
    cases hparse
  | some orgID =>
    rw [ho] at h
    obtain ⟨⟨r, w₁⟩, hinsert, h⟩ := Option.bind_eq_some_iff.mp h
    obtain ⟨hq₁, ⟨e, rfl, hnot⟩ | ⟨a, row, rfl, hrow⟩⟩ := step_insert hinsert
    · cases h
      refine iff_of_true (congrArg Db.messages hnot.db) fun _ ↦ ?_
      rw [accepted_iff ho]
      exact hnot.cause
    · obtain ⟨⟨r', w₂⟩, hpush, h⟩ := Option.bind_eq_some_iff.mp h
      cases h
      obtain ⟨hd, ⟨hfail, hq⟩ | ⟨hfail, hq⟩⟩ := step_push hpush
      · -- the row stays and its id is not in the queue
        refine iff_of_false (fun hall ↦ ?_) fun hcause ↦ ?_
        · obtain ⟨-, -, -, -, hqueue⟩ := hall
          have hlen := congrArg List.length (hqueue.symm.trans (hq.trans hq₁))
          simp at hlen
        · rcases hcause hfail with hins | hacc
          · rw [hrow.works] at hins
            cases hins
          · exact hacc ((accepted_iff ho).mpr hrow.accepted)
      · refine iff_of_true ⟨row, ?_, ?_, ?_, ?_⟩ fun hp ↦ ?_
        · exact ⟨ho.trans (congrArg some hrow.org.symm), hrow.method, hrow.url, hrow.payload,
            hrow.status⟩
        · rw [hrow.id]
        · rw [hd, hrow.rows]
        · rw [hq, hq₁]
        · rw [hfail] at hp
          cases hp

end Run

/-! ### A sample -/

/-- A submission for Ann's organization. -/
def sampleSubmission : Delivery.QueueMessageRequest :=
  ⟨"https://a.io", 2, "\x7b\x7d", Uuid.toString ⟨3⟩⟩

/-- An insertion that works, with id 9. -/
def sampleInsert : Choice := ⟨false, 0, ⟨9⟩, fun _ ↦ 0, .failed "", []⟩

/-- A push that fails. -/
def samplePush : Choice := { sampleInsert with fail := true }

/-- Ann's message is stored and answered for, and nothing is in the queue. -/
theorem stored_unpushed :
    ∃ c res w', (system sampleEnv sampleSent anyStep).Reachable (World.start 0) c ∧
      (Delivery.queueMessage sampleSubmission).play (World.step sampleEnv.toPlatform (.client 1))
        [sampleInsert, samplePush] c.state = some (.ok res, w') ∧ w'.queue = [] := by
  have hrun : ((sampleRun (fun _ _ _ ↦ true) (sampleTurns 0 [0, 1, 2, 0, 3, 4, 0])).bind fun c ↦
      ((Delivery.queueMessage sampleSubmission).play
        (World.step sampleEnv.toPlatform (.client 1)) [sampleInsert, samplePush] c.state).map fun p ↦
          (p.1.isOk, p.2.queue)) = some (true, []) := by
    decide +kernel
  obtain ⟨c, hc, hrun⟩ := Option.bind_eq_some_iff.mp hrun
  obtain ⟨⟨x, w'⟩, hplay, hseen⟩ := Option.map_eq_some_iff.mp hrun
  obtain ⟨hx, hq⟩ := Prod.mk.inj hseen
  cases x with
  | error e => cases hx
  | ok res => exact ⟨c, res, w', sample_reachable (fun _ _ _ _ ↦ trivial) hc, hplay, hq⟩

theorem all_or_nothing_sample :
    ∃ c x w', (system sampleEnv sampleSent anyStep).Reachable (World.start 0) c ∧
      (AllOrNothing sampleEnv.toPlatform sampleSubmission c.state w' x ↔
        (samplePush.fail = true → sampleInsert.fail = true ∨
          ¬ Accepted sampleEnv.toPlatform sampleSubmission sampleInsert.id c.state.db)) := by
  obtain ⟨c, res, w', h, hplay, -⟩ := stored_unpushed
  exact ⟨c, _, w', h, all_or_nothing_iff hplay⟩

/-- A submission that is answered for is not in the queue. -/
theorem answered_unpushed :
    ∃ c res w', (system sampleEnv sampleSent anyStep).Reachable (World.start 0) c ∧
      (Delivery.queueMessage sampleSubmission).play (World.step sampleEnv.toPlatform (.client 1))
        [sampleInsert, samplePush] c.state = some (.ok res, w') ∧
      ¬ AllOrNothing sampleEnv.toPlatform sampleSubmission c.state w' (.ok res) := by
  obtain ⟨c, res, w', h, hplay, hq⟩ := stored_unpushed
  refine ⟨c, res, w', h, hplay, fun hall ↦ ?_⟩
  obtain ⟨-, -, -, -, hqueue⟩ := hall
  rw [hq] at hqueue
  cases hqueue

end Chis.Submission
