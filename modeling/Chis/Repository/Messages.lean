import Chis.Repository.Query

/-!
# Messages and delivery attempts

`internal/repository/message.go` and `internal/repository/delivery.go`: each function is one SQL
statement on the tables. `now` is the statement's `NOW()` and `id` what `gen_random_uuid()` gave.
-/

namespace Chis

namespace MessageRepository

/-- `INSERT INTO messages`; `message.go:25`. `jsonb` is what the column gives back for a text it
accepts. Status, attempt count and retry time take the column defaults. -/
def create (jsonb : String → Option String) (id : Uuid) (now : Time) (message : Message)
    (db : Db) : Except Err (Message × Db) := do
  checkText [message.method, message.url]
  let payload ← (jsonb message.payload).elim (.error (.pg Sqlstate.invalidTextFormat)) .ok
  let row : Message := ⟨id, message.orgID, message.method, message.url, payload, .pending, now, now,
    0, none⟩
  let messages ← insertRow db.messages row
  references db.organizations message.orgID
  return ({ message with id := id, status := .pending, createdAt := now, updatedAt := now },
    { db with messages := messages })

/-- A message enters its table as a `pending` row with no attempts. -/
theorem create_ok {jsonb : String → Option String} {id : Uuid} {now : Time} {message a : Message}
    {db db' : Db} (h : create jsonb id now message db = .ok (a, db')) :
    a.id = id ∧ a.status = .pending ∧ ∃ payload messages, jsonb message.payload = some payload ∧
      db.messages.insert? ⟨id, message.orgID, message.method, message.url, payload, .pending, now,
        now, 0, none⟩ = some messages ∧ db' = { db with messages := messages } := by
  simp only [create, except_bind_ok] at h
  obtain ⟨-, -, payload, hp, messages, hm, -, -, h⟩ := h
  cases h
  cases hj : jsonb message.payload with
  | none =>
    rw [hj] at hp
    cases hp
  | some p =>
    rw [hj] at hp
    cases hp
    exact ⟨rfl, rfl, _, messages, rfl, insertRow_ok hm, rfl⟩

/-- Which messages can be inserted. -/
theorem create_succeeds_iff {jsonb : String → Option String} {id : Uuid} {now : Time}
    {message : Message} {db : Db} :
    (∃ x, create jsonb id now message db = .ok x) ↔
      (textOk message.method = true ∧ textOk message.url = true) ∧
        (∃ payload, jsonb message.payload = some payload) ∧
        (∀ row ∈ db.messages, row.id ≠ id) ∧ ∃ o ∈ db.organizations, o.id = message.orgID := by
  constructor
  · rintro ⟨x, h⟩
    simp only [create, except_bind_ok] at h
    obtain ⟨_, ht, payload, hp, messages, hm, _, hr, -⟩ := h
    have htext := checkText_ok ht
    obtain ⟨o, ho⟩ := references_ok hr
    have hnew := ((db.messages.insert?_eq_some_iff _ _).mp (insertRow_ok hm)).1
    refine ⟨⟨htext _ (by simp), htext _ (by simp)⟩, ?_, (db.messages.find?_eq_none_iff _).mp hnew,
      o, (db.organizations.find?_eq_some_iff _ _).mp ho⟩
    cases hj : jsonb message.payload with
    | none =>
      rw [hj] at hp
      cases hp
    | some p => exact ⟨p, rfl⟩
  · rintro ⟨⟨hmethod, hurl⟩, ⟨payload, hp⟩, hid, o, ho, horg⟩
    have htext : checkText [message.method, message.url] = .ok () :=
      checkText_eq (by simp [hmethod, hurl])
    have hpayload : (jsonb message.payload).elim (.error (.pg Sqlstate.invalidTextFormat)) .ok =
        (.ok payload : Except Err String) := by
      rw [hp]
      rfl
    obtain ⟨messages, hm⟩ := insertRow_eq (t := db.messages) (r := (⟨id, message.orgID,
      message.method, message.url, payload, .pending, now, now, 0, none⟩ : Message)) hid
    have href : references db.organizations message.orgID = .ok () := horg ▸ references_eq ho
    exact ⟨_, except_bind_ok.mpr ⟨_, htext, except_bind_ok.mpr ⟨_, hpayload,
      except_bind_ok.mpr ⟨_, hm, except_bind_ok.mpr ⟨_, href, rfl⟩⟩⟩⟩⟩

/-- `UPDATE messages SET status = $2 ... RETURNING`; `message.go:82`. -/
def updateStatus (now : Time) (id : Uuid) (status : MessageStatus) (db : Db) :
    Except Err (Message × Db) :=
  match db.messages.find? id with
  | none => .error .noRows
  | some row =>
    let set (m : Message) : Message := { m with status := status, updatedAt := now }
    .ok ({ set row with attemptCount := 0, nextRetryAt := none },
      { db with messages := db.messages.modify id set fun _ ↦ rfl })

/-- Only messages change. -/
theorem updateStatus_ok {now : Time} {id : Uuid} {status : MessageStatus} {db db' : Db}
    {a : Message} (h : updateStatus now id status db = .ok (a, db')) :
    ∃ messages, db' = { db with messages := messages } := by
  unfold updateStatus at h
  split at h
  · cases h
  · cases h
    exact ⟨_, rfl⟩

/-- Only the row named changes, and of it only the status and the time of the update. -/
theorem mem_updateStatus {now : Time} {id : Uuid} {status : MessageStatus} {db db' : Db}
    {a : Message} (h : updateStatus now id status db = .ok (a, db')) (row : Message) :
    row ∈ db'.messages ↔ ∃ row₀ ∈ db.messages, row =
      if row₀.id = id then { row₀ with status := status, updatedAt := now } else row₀ := by
  unfold updateStatus at h
  split at h
  · cases h
  · cases h
    apply Relational.Table.mem_modify
    intro _
    rfl

theorem updateStatus_error {now : Time} {id : Uuid} {status : MessageStatus} {db : Db} {e : Err}
    (h : updateStatus now id status db = .error e) : ∀ row ∈ db.messages, row.id ≠ id := by
  unfold updateStatus at h
  split at h
  · next hf => exact (db.messages.find?_eq_none_iff id).mp hf
  · cases h

/-- `SELECT ... FROM messages WHERE id = $1`; `message.go:108`. -/
def findById (id : Uuid) (db : Db) : Except Err Message :=
  match db.messages.find? id with
  | none => .error .notFound
  | some row => .ok row

theorem findById_ok {id : Uuid} {db : Db} {row : Message} (h : findById id db = .ok row) :
    row ∈ db.messages ∧ row.id = id := by
  unfold findById at h
  split at h
  · cases h
  · next hf =>
    cases h
    exact (db.messages.find?_eq_some_iff id row).mp hf

theorem findById_error {id : Uuid} {db : Db} {e : Err} (h : findById id db = .error e) :
    ∀ row ∈ db.messages, row.id ≠ id := by
  unfold findById at h
  split at h
  · next hf => exact (db.messages.find?_eq_none_iff id).mp hf
  · cases h

/-- `UPDATE messages SET status = $1, attempt_count = $2, next_retry_at = $3`; `message.go:138`.
A missing row is no error. -/
def update (now : Time) (msg : Message) (db : Db) : Db :=
  let set (m : Message) : Message :=
    { m with
      status := msg.status
      attemptCount := msg.attemptCount
      nextRetryAt := msg.nextRetryAt
      updatedAt := now }
  { db with messages := db.messages.modify msg.id set fun _ ↦ rfl }

/-- Only the row named changes: its status, attempt count and retry time are overwritten. -/
theorem mem_update (now : Time) (msg : Message) (db : Db) (row : Message) :
    row ∈ (update now msg db).messages ↔ ∃ row₀ ∈ db.messages, row =
      if row₀.id = msg.id then
        { row₀ with
          status := msg.status
          attemptCount := msg.attemptCount
          nextRetryAt := msg.nextRetryAt
          updatedAt := now }
      else row₀ := by
  apply Relational.Table.mem_modify
  intro _
  rfl

/-- Whether a message is selected by `FindRetryReady`. -/
def retryReady (now : Time) (m : Message) : Bool :=
  m.status = .retry && m.nextRetryAt.any fun t ↦ t ≤ now

/-- `SELECT ... WHERE status = 'retry' AND next_retry_at <= NOW() ORDER BY next_retry_at ASC
LIMIT $1`; `message.go:147`. -/
def findRetryReady (tie : Uuid → Nat) (now : Time) (limit : Nat) (db : Db) : List Message :=
  (orderBy (fun m ↦ m.nextRetryAt.getD 0) (fun m ↦ tie m.id)
    (db.messages.rows.filter (retryReady now))).take limit

/-- What `FindRetryReady` returns are distinct rows that wait for a retry that is due. -/
theorem findRetryReady_spec (tie : Uuid → Nat) (now : Time) (limit : Nat) (db : Db) :
    ((findRetryReady tie now limit db).map Message.id).Nodup ∧
      ∀ row ∈ findRetryReady tie now limit db, row ∈ db.messages ∧ row.status = .retry ∧
        ∃ due, row.nextRetryAt = some due ∧ due ≤ now := by
  constructor
  · have hd : ((db.messages.rows.filter (retryReady now)).map Message.id).Nodup :=
      db.messages.nodup.sublist (List.filter_sublist.map _)
    exact (((orderBy_perm _ _ _).map _).nodup_iff.mpr hd).sublist ((List.take_sublist _ _).map _)
  · intro row hrow
    have hmem := (mem_orderBy _ _ _ _).mp (List.mem_of_mem_take hrow)
    obtain ⟨hm, hr⟩ := List.mem_filter.mp hmem
    rw [retryReady, Bool.and_eq_true, decide_eq_true_eq, Option.any_eq_true] at hr
    obtain ⟨hs, due, hdue, hle⟩ := hr
    exact ⟨hm, hs, due, hdue, of_decide_eq_true hle⟩

/-- The counts of `GetStatsByOrgID`. -/
structure StatusCounts where
  total : Nat
  sent : Nat
  failed : Nat
  queued : Nat
deriving DecidableEq

/-- `SELECT COUNT(*), COUNT(*) FILTER ...`; `message.go:192`. -/
def countByStatus (orgID : Uuid) (db : Db) : StatusCounts :=
  let rows := db.messages.rows.filter fun m ↦ m.orgID = orgID
  { total := rows.length
    sent := rows.countP fun m ↦ m.status = .success
    failed := rows.countP fun m ↦ m.status = .failed
    queued := rows.countP fun m ↦ m.status = .pending || m.status = .retry }

/-! ### The query text of `FindWebhookLogs` -/

/-- An argument bound to a placeholder. -/
inductive Arg
  | uuid (id : Uuid)
  | text (s : String)
  | int (n : Int)
deriving DecidableEq

/-- A conjunct of the `WHERE` clause, with the number of its placeholder. -/
inductive Cond
  | orgID (i : Nat)
  | status (i : Nat)
  | urlILike (i : Nat)
deriving DecidableEq

/-- `ILIKE` on characters already folded to one case: `%` is any text, `_` any character and a
backslash takes the next character literally. -/
def like : List Char → List Char → Bool
  | [], s => s.isEmpty
  | '%' :: p, s => s.tails.any (like p)
  | '_' :: p, s => match s with
    | [] => false
    | _ :: s => like p s
  | ['\\'], _ => false
  | '\\' :: c :: p, s => match s with
    | [] => false
    | d :: s => c == d && like p s
  | c :: p, s => match s with
    | [] => false
    | d :: s => c == d && like p s

example : like ['a', '_', '%'] ['a', 'b', 'c', 'd'] = true := by
  simp [like]

/-- Check a conjunct's argument and give the predicate it selects by. -/
def Cond.compile (lower : Char → Char) (args : List Arg) : Cond → Except Err (Message → Bool)
  | .orgID i => match args[i - 1]? with
    | some (.uuid id) => .ok fun m ↦ m.orgID = id
    | _ => .error .unavailable
  | .status i => match args[i - 1]? with
    | some (.text s) => do
      checkText [s]
      match MessageStatus.ofLabel s with
      | some st => return fun m ↦ m.status = st
      | none => .error (.pg Sqlstate.invalidTextFormat)
    | _ => .error .unavailable
  | .urlILike i => match args[i - 1]? with
    | some (.text s) => do
      checkText [s]
      return fun m ↦ like (s.toList.map lower) (m.url.toList.map lower)
    | _ => .error .unavailable

/-- The messages a `WHERE` clause selects, in physical order. -/
def selectWhere (lower : Char → Char) (conds : List Cond) (args : List Arg) (db : Db) :
    Except Err (List Message) := do
  let ps ← conds.mapM (Cond.compile lower args)
  return db.messages.rows.filter fun m ↦ ps.all fun p ↦ p m

/-- `SELECT COUNT(*) FROM messages m WHERE ...`; `message.go:245`. -/
def countWebhookLogs (lower : Char → Char) (conds : List Cond) (args : List Arg) (db : Db) :
    Except Err Nat := do
  return (← selectWhere lower conds args db).length

/-- One row of the page query. -/
structure WebhookLogRow where
  id : Uuid
  url : String
  status : MessageStatus
  method : String
  createdAt : Time
  statusCode : Int
  durationMs : Int
  attemptedAt : Time
deriving DecidableEq

/-- The lateral join: a message beside its attempt with the highest number, if it has one. -/
def logRow (tie : Uuid → Nat) (db : Db) (m : Message) : WebhookLogRow :=
  let da := (orderBy (fun a ↦ -a.attemptNumber) (fun a ↦ tie a.id)
    (db.deliveryAttempts.rows.filter fun a ↦ a.messageID = m.id)).head?
  { id := m.id
    url := m.url
    status := m.status
    method := m.method
    createdAt := m.createdAt
    statusCode := (da.bind DeliveryAttempt.statusCode).getD 0
    durationMs := (da.bind DeliveryAttempt.durationMS).getD 0
    attemptedAt := (da.map DeliveryAttempt.attemptedAt).getD m.createdAt }

/-- `SELECT ... ORDER BY m.created_at DESC LIMIT $n OFFSET $n+1`; `message.go:256`. -/
def pageWebhookLogs (lower : Char → Char) (tie : Uuid → Nat) (conds : List Cond)
    (limitIdx offsetIdx : Nat) (args : List Arg) (db : Db) : Except Err (List WebhookLogRow) := do
  let rows ← selectWhere lower conds args db
  match args[limitIdx - 1]?, args[offsetIdx - 1]? with
  | some (.int limit), some (.int offset) =>
    if limit < 0 ∨ offset < 0 then .error (.pg Sqlstate.invalidRowCountInOffset)
    return (((orderBy (fun m ↦ -m.createdAt) (fun m ↦ tie m.id) rows).drop offset.toNat).take
      limit.toNat).map (logRow tie db)
  | _, _ => .error .unavailable

end MessageRepository

namespace DeliveryAttemptRepository

/-- `INSERT INTO delivery_attempts`; `delivery.go:46`. -/
def create (id : Uuid) (now : Time) (deliveryAttempt : DeliveryAttempt) (db : Db) :
    Except Err (DeliveryAttempt × Db) := do
  checkText deliveryAttempt.errorMessage.toList
  if !(deliveryAttempt.responseBody.all bytesOk) then
    .error (.pg Sqlstate.characterNotInRepertoire)
  let row := { deliveryAttempt with id := id, attemptedAt := now }
  let deliveryAttempts ← insertRow db.deliveryAttempts row
  references db.messages deliveryAttempt.messageID
  return (row, { db with deliveryAttempts := deliveryAttempts })

/-- An attempt enters its table and nothing else changes. -/
theorem create_ok {id : Uuid} {now : Time} {deliveryAttempt a : DeliveryAttempt} {db db' : Db}
    (h : create id now deliveryAttempt db = .ok (a, db')) :
    a = { deliveryAttempt with id := id, attemptedAt := now } ∧
      (∃ message ∈ db.messages, message.id = deliveryAttempt.messageID) ∧
      ∃ attempts, db.deliveryAttempts.insert? a = some attempts ∧
        db' = { db with deliveryAttempts := attempts } := by
  rw [create, except_bind_ok] at h
  obtain ⟨-, -, h⟩ := h
  split at h
  · cases h
  simp only [except_bind_ok] at h
  obtain ⟨attempts, ha, ⟨⟩, hr, h⟩ := h
  cases h
  obtain ⟨message, hm⟩ := references_ok hr
  exact ⟨rfl, ⟨message, (db.messages.find?_eq_some_iff _ _).mp hm⟩, attempts, insertRow_ok ha, rfl⟩

/-- An attempt is refused for its error message, its response body, its id or its message. -/
theorem create_succeeds_iff {id : Uuid} {now : Time} {deliveryAttempt : DeliveryAttempt} {db : Db} :
    (∃ x, create id now deliveryAttempt db = .ok x) ↔
      (∀ s ∈ deliveryAttempt.errorMessage, textOk s = true) ∧
      deliveryAttempt.responseBody.all bytesOk = true ∧
      (∀ a ∈ db.deliveryAttempts, a.id ≠ id) ∧
      ∃ message ∈ db.messages, message.id = deliveryAttempt.messageID := by
  constructor
  · rintro ⟨x, h⟩
    obtain ⟨hrow, hm, attempts, ha, -⟩ := create_ok h
    obtain ⟨u, htext, -⟩ := except_bind_ok.mp h
    have hbytes : deliveryAttempt.responseBody.all bytesOk = true := by
      by_contra hb
      rw [create, htext] at h
      simp [hb, bind, Except.bind] at h
    have hid := (Relational.Table.find?_eq_none_iff _ _).mp
      ((Relational.Table.insert?_eq_some_iff _ _ _).mp ha).1
    rw [hrow] at hid
    exact ⟨fun s hs ↦ checkText_ok htext s (by simpa using hs), hbytes, hid, hm⟩
  · rintro ⟨htext, hbytes, hid, message, hm, he⟩
    have hcheck : checkText deliveryAttempt.errorMessage.toList = .ok () :=
      checkText_eq fun s hs ↦ htext s (by simpa using hs)
    obtain ⟨attempts, ha⟩ := insertRow_eq (t := db.deliveryAttempts)
      (r := ({ deliveryAttempt with id := id, attemptedAt := now } : DeliveryAttempt)) hid
    have href : references db.messages deliveryAttempt.messageID = .ok () := he ▸ references_eq hm
    refine ⟨({ deliveryAttempt with id := id, attemptedAt := now },
      { db with deliveryAttempts := attempts }), ?_⟩
    rw [create, hcheck, hbytes]
    exact except_bind_ok.mpr ⟨(), rfl, except_bind_ok.mpr ⟨attempts, ha,
      except_bind_ok.mpr ⟨(), href, rfl⟩⟩⟩

/-- `SELECT ... WHERE message_id = $1 ORDER BY attempt_number ASC`; `delivery.go:21`. -/
def findByMessageID (tie : Uuid → Nat) (messageID : Uuid) (db : Db) : List DeliveryAttempt :=
  orderBy DeliveryAttempt.attemptNumber (fun a ↦ tie a.id)
    (db.deliveryAttempts.rows.filter fun a ↦ a.messageID = messageID)

end DeliveryAttemptRepository

end Chis
