import Chis.Base.Interleave
import Chis.System.Operation

/-!
# The shared world and its operations

Postgres, Redis, the clock and the log of all operations performed so far. What the world decides
on its own, from generated ids to a receiver's answer, is a `Choice`; `perform` is a function of
it, so a run is determined by a schedule of processes and choices.
-/

namespace Chis

open Program

/-- The processes: any number of workers, the scheduler, and any number of clients, each of which
is one call of the delivery service or one request of the API. -/
inductive Proc
  | worker (n : Nat)
  | scheduler
  | client (n : Nat)
deriving DecidableEq

/-- What the world decides about one operation. -/
structure Choice where
  /-- The operation fails without an effect. -/
  fail : Bool
  /-- The time at which it takes place. -/
  now : Time
  /-- What `gen_random_uuid()` gives, if asked. -/
  id : Uuid
  /-- The order among rows with equal sort keys. -/
  tie : Uuid → Nat
  /-- How an HTTP exchange ends. -/
  answer : Answer
  /-- 32 random bytes. -/
  bytes : List UInt8

/-- One operation performed: by which process, with which answer, at which time. -/
structure Entry where
  proc : Proc
  op : Op
  res : op.Res
  time : Time

/-- The state the processes share. The queue is listed from its left end, where `LPUSH` adds; the
log, newest entry first, is a history variable, and so is the list of ids generated so far. -/
structure World where
  db : Db
  queue : List String
  clock : Time
  issued : List Uuid
  log : List Entry

namespace Stmt

private def read {α : Type} (db : Db) (r : Except Err α) : Except Err α × Db := (r, db)

private def write {α : Type} (db : Db) (r : Except Err (α × Db)) : Except Err α × Db :=
  match r with
  | .ok (a, db') => (.ok a, db')
  | .error e => (.error e, db)

/-- A statement that writes gives its row, or fails and leaves the tables alone. -/
theorem write_inv {α : Type} {db db' : Db} {x : Except Err (α × Db)} {r : Except Err α}
    (h : write db x = (r, db')) :
    (∃ a, r = .ok a ∧ x = .ok (a, db')) ∨ ∃ e, r = .error e ∧ x = .error e ∧ db' = db := by
  cases x with
  | ok p =>
    cases h
    exact .inl ⟨p.1, rfl, rfl⟩
  | error e =>
    cases h
    exact .inr ⟨e, rfl, rfl, rfl⟩

private def writeUnit (db : Db) (r : Except Err Db) : Except Err Unit × Db :=
  match r with
  | .ok db' => (.ok (), db')
  | .error e => (.error e, db)

/-- A statement that only writes does so, or fails and leaves the tables alone. -/
theorem writeUnit_inv {db db' : Db} {x : Except Err Db} {r : Except Err Unit}
    (h : writeUnit db x = (r, db')) :
    (r = .ok () ∧ x = .ok db') ∨ ∃ e, r = .error e ∧ x = .error e ∧ db' = db := by
  cases x with
  | ok db' =>
    cases h
    exact .inl ⟨rfl, rfl⟩
  | error e =>
    cases h
    exact .inr ⟨e, rfl, rfl, rfl⟩

/-- The answer of a statement and the tables after it. -/
def exec (env : Platform) (ch : Choice) (db : Db) : (s : Stmt) → Except Err s.Ok × Db
  | .userCreate user => write db (UserRepository.create ch.id ch.now user db)
  | .userFindByEmail email => read db (UserRepository.findByEmail email db)
  | .userFindByID id => read db (UserRepository.findByID id db)
  | .accountCreate account => write db (AccountRepository.create ch.id ch.now account db)
  | .accountFindByUserID userID => read db (AccountRepository.findByUserID userID db)
  | .organizationCreate o => write db (OrganizationRepository.create ch.id ch.now o db)
  | .organizationFindByID id => read db (OrganizationRepository.findByID id db)
  | .organizationDelete id => (.ok (), OrganizationRepository.delete id db)
  | .getSigningSecret orgID => read db (OrganizationRepository.getSigningSecret orgID db)
  | .rotateSigningSecret orgID newSecret =>
    writeUnit db (OrganizationRepository.rotateSigningSecret ch.now orgID newSecret db)
  | .membershipCreate m => write db (MembershipRepository.create ch.id ch.now m db)
  | .membershipFindAllByUserID userID =>
    (.ok (MembershipRepository.findAllByUserID ch.tie userID db), db)
  | .membershipFindByUserAndOrgID userID orgID =>
    read db (MembershipRepository.findByUserAndOrgID userID orgID db)
  | .apiKeyCreate k => write db (ApiKeyRepository.create ch.id ch.now k db)
  | .apiKeyFindByHashedKey hashedKey => read db (ApiKeyRepository.findByHashedKey hashedKey db)
  | .apiKeyFindByOrgID orgID => (.ok (ApiKeyRepository.findByOrgID ch.tie orgID db), db)
  | .apiKeyDelete id => writeUnit db (ApiKeyRepository.delete id db)
  | .messageCreate message =>
    write db (MessageRepository.create env.jsonb ch.id ch.now message db)
  | .messageUpdateStatus id status =>
    write db (MessageRepository.updateStatus ch.now id status db)
  | .messageFindById id => read db (MessageRepository.findById id db)
  | .messageUpdate msg => (.ok (), MessageRepository.update ch.now msg db)
  | .findRetryReady limit => (.ok (MessageRepository.findRetryReady ch.tie ch.now limit db), db)
  | .countByStatus orgID => (.ok (MessageRepository.countByStatus orgID db), db)
  | .countWebhookLogs conds args =>
    read db (MessageRepository.countWebhookLogs env.lower conds args db)
  | .pageWebhookLogs conds limitIdx offsetIdx args =>
    read db (MessageRepository.pageWebhookLogs env.lower ch.tie conds limitIdx offsetIdx args db)
  | .attemptCreate a => write db (DeliveryAttemptRepository.create ch.id ch.now a db)
  | .attemptFindByMessageID id =>
    (.ok (DeliveryAttemptRepository.findByMessageID ch.tie id db), db)
  | .invitationCreate i => write db (InvitationRepository.create ch.id ch.now i db)
  | .invitationFindByID id => read db (InvitationRepository.findByID id db)
  | .invitationFindByToken token => read db (InvitationRepository.findByToken token db)
  | .invitationFindByOrgID orgID => (.ok (InvitationRepository.findByOrgID ch.tie orgID db), db)
  | .invitationFindByOrgAndEmail orgID email =>
    read db (InvitationRepository.findByOrgAndEmail orgID email db)
  | .invitationFindPendingByEmail email =>
    read db (InvitationRepository.findPendingByEmail ch.tie ch.now email db)
  | .invitationUpdateStatus id status =>
    writeUnit db (InvitationRepository.updateStatus ch.now id status db)
  | .invitationAccept id acceptedAt =>
    (.ok (), InvitationRepository.acceptInvitation ch.now acceptedAt id db)
  | .invitationDelete id => (.ok (), InvitationRepository.delete id db)

/-- A statement that fails leaves the tables alone. -/
theorem exec_error {env : Platform} {ch : Choice} {db db' : Db} {s : Stmt} {e : Err}
    (h : s.exec env ch db = (.error e, db')) : db' = db := by
  cases s with
  | userCreate | accountCreate | organizationCreate | membershipCreate | apiKeyCreate
  | messageCreate | messageUpdateStatus | attemptCreate | invitationCreate =>
    rcases write_inv h with ⟨a, ha, -⟩ | ⟨_, -, -, hd⟩
    · cases ha
    · exact hd
  | rotateSigningSecret | apiKeyDelete | invitationUpdateStatus =>
    rcases writeUnit_inv h with ⟨ha, -⟩ | ⟨_, -, -, hd⟩
    · cases ha
    · exact hd
  | _ => first | exact (Prod.mk.inj h).2.symm | cases h

/-! ### What a statement can change -/

/-- The tables after a statement: as before, or changed in the one way the statement has. -/
inductive Change (ch : Choice) (db : Db) : Stmt → Db → Prop
  | same (s : Stmt) : Change ch db s db
  | userCreate {user : User} {users : Relational.Table User.id} :
    db.users.insert? { user with id := ch.id, createdAt := ch.now, updatedAt := ch.now } =
      some users → Change ch db (.userCreate user) { db with users := users }
  | accountCreate {account : Account} {accounts : Relational.Table Account.id} :
    db.accounts.insert? { account with id := ch.id, createdAt := ch.now, updatedAt := ch.now } =
      some accounts → Change ch db (.accountCreate account) { db with accounts := accounts }
  | organizationCreate {o : Organization} {organizations : Relational.Table Organization.id} :
    db.organizations.insert? { o with id := ch.id, createdAt := ch.now, updatedAt := ch.now } =
      some organizations →
    Change ch db (.organizationCreate o) { db with organizations := organizations }
  | organizationDelete (id : Uuid) :
    Change ch db (.organizationDelete id) (OrganizationRepository.delete id db)
  | rotateSigningSecret (orgID : Uuid) (newSecret : String) :
    Change ch db (.rotateSigningSecret orgID newSecret)
      { db with
        organizations := db.organizations.modify orgID
          (fun o ↦ { o with signingSecret := newSecret, updatedAt := ch.now }) fun _ ↦ rfl }
  | membershipCreate {m : Membership} {memberships : Relational.Table Membership.id} :
    db.memberships.insert? { m with id := ch.id, createdAt := ch.now, updatedAt := ch.now } =
      some memberships →
    Change ch db (.membershipCreate m) { db with memberships := memberships }
  | apiKeyCreate {k : APIKey} {apiKeys : Relational.Table APIKey.id} :
    db.apiKeys.insert?
      { k with id := ch.id, lastUsedAt := none, createdAt := ch.now, updatedAt := ch.now } =
      some apiKeys → Change ch db (.apiKeyCreate k) { db with apiKeys := apiKeys }
  | apiKeyDelete (id : Uuid) :
    Change ch db (.apiKeyDelete id) { db with apiKeys := db.apiKeys.filter fun k ↦ k.id ≠ id }
  | messageCreate {message : Message} {payload : String}
      {messages : Relational.Table Message.id} :
    db.messages.insert? ⟨ch.id, message.orgID, message.method, message.url, payload, .pending,
      ch.now, ch.now, 0, none⟩ = some messages →
    Change ch db (.messageCreate message) { db with messages := messages }
  | messageUpdateStatus {id : Uuid} {status : MessageStatus} {row : Message} {db' : Db} :
    MessageRepository.updateStatus ch.now id status db = .ok (row, db') →
    Change ch db (.messageUpdateStatus id status) db'
  | messageUpdate (msg : Message) :
    Change ch db (.messageUpdate msg) (MessageRepository.update ch.now msg db)
  | attemptCreate {a : DeliveryAttempt} {attempts : Relational.Table DeliveryAttempt.id} :
    db.deliveryAttempts.insert? { a with id := ch.id, attemptedAt := ch.now } = some attempts →
    Change ch db (.attemptCreate a) { db with deliveryAttempts := attempts }
  | invitationCreate {i : Invitation} {invitations : Relational.Table Invitation.id} :
    db.invitations.insert?
      { i with id := ch.id, acceptedAt := none, createdAt := ch.now, updatedAt := ch.now } =
      some invitations →
    Change ch db (.invitationCreate i) { db with invitations := invitations }
  | invitationUpdateStatus (id : Uuid) (status : String) (st : InvitationStatus) :
    Change ch db (.invitationUpdateStatus id status)
      { db with
        invitations := db.invitations.modify id
          (fun i ↦ { i with status := st, updatedAt := ch.now }) fun _ ↦ rfl }
  | invitationAccept (id : Uuid) (acceptedAt : Time) :
    Change ch db (.invitationAccept id acceptedAt)
      (InvitationRepository.acceptInvitation ch.now acceptedAt id db)
  | invitationDelete (id : Uuid) :
    Change ch db (.invitationDelete id) (InvitationRepository.delete id db)

private theorem change_write {α : Type} {ch : Choice} {db : Db} {s : Stmt}
    {r : Except Err (α × Db)} (h : ∀ a db', r = .ok (a, db') → Change ch db s db') :
    Change ch db s (write db r).2 := by
  cases r with
  | error e => exact .same s
  | ok p => exact h p.1 p.2 rfl

private theorem change_writeUnit {ch : Choice} {db : Db} {s : Stmt} {r : Except Err Db}
    (h : ∀ db', r = .ok db' → Change ch db s db') : Change ch db s (writeUnit db r).2 := by
  cases r with
  | error e => exact .same s
  | ok db' => exact h db' rfl

/-- Every statement keeps to that. -/
theorem exec_change (env : Platform) (ch : Choice) (db : Db) (s : Stmt) :
    Change ch db s (s.exec env ch db).2 := by
  cases s with
  | userCreate user =>
    refine change_write fun a db' h ↦ ?_
    obtain ⟨rfl, users, hu, rfl⟩ := UserRepository.create_ok h
    exact .userCreate hu
  | accountCreate account =>
    refine change_write fun a db' h ↦ ?_
    obtain ⟨rfl, accounts, hu, rfl⟩ := AccountRepository.create_ok h
    exact .accountCreate hu
  | organizationCreate o =>
    refine change_write fun a db' h ↦ ?_
    obtain ⟨rfl, organizations, hu, rfl⟩ := OrganizationRepository.create_ok h
    exact .organizationCreate hu
  | organizationDelete id => exact .organizationDelete id
  | rotateSigningSecret orgID newSecret =>
    refine change_writeUnit fun db' h ↦ ?_
    obtain ⟨-, rfl⟩ := OrganizationRepository.rotateSigningSecret_ok h
    exact .rotateSigningSecret orgID newSecret
  | membershipCreate m =>
    refine change_write fun a db' h ↦ ?_
    obtain ⟨rfl, memberships, hu, rfl⟩ := MembershipRepository.create_ok h
    exact .membershipCreate hu
  | apiKeyCreate k =>
    refine change_write fun a db' h ↦ ?_
    obtain ⟨rfl, apiKeys, hu, rfl⟩ := ApiKeyRepository.create_ok h
    exact .apiKeyCreate hu
  | apiKeyDelete id =>
    refine change_writeUnit fun db' h ↦ ?_
    obtain ⟨-, rfl⟩ := ApiKeyRepository.delete_ok h
    exact .apiKeyDelete id
  | messageCreate message =>
    refine change_write fun a db' h ↦ ?_
    obtain ⟨-, -, payload, messages, -, hu, rfl⟩ := MessageRepository.create_ok h
    exact .messageCreate hu
  | messageUpdateStatus id status => exact change_write fun a db' h ↦ .messageUpdateStatus h
  | messageUpdate msg => exact .messageUpdate msg
  | attemptCreate a =>
    refine change_write fun a db' h ↦ ?_
    obtain ⟨rfl, -, attempts, hu, rfl⟩ := DeliveryAttemptRepository.create_ok h
    exact .attemptCreate hu
  | invitationCreate i =>
    refine change_write fun a db' h ↦ ?_
    obtain ⟨rfl, invitations, hu, rfl⟩ := InvitationRepository.create_ok h
    exact .invitationCreate hu
  | invitationUpdateStatus id status =>
    refine change_writeUnit fun db' h ↦ ?_
    obtain ⟨st, -, rfl⟩ := InvitationRepository.updateStatus_ok h
    exact .invitationUpdateStatus id status st
  | invitationAccept id acceptedAt => exact .invitationAccept id acceptedAt
  | invitationDelete id => exact .invitationDelete id
  | _ => exact .same _

end Stmt

namespace World

/-- The answer of a failed operation; not every operation can fail. -/
def failure : (o : Op) → Option o.Res
  | .sql _ | .push _ | .pop | .rand => some (.error .unavailable)
  | _ => none

/-- One operation that does not fail, at time `ch.now`. Generated ids are distinct over the whole
run; `BRPOP` on an empty queue times out. -/
def perform (env : Platform) (ch : Choice) (w : World) : (o : Op) → Option (o.Res × World)
  | .sql s =>
    if s.inserts && w.issued.contains ch.id then none
    else
      let (r, db) := s.exec env ch w.db
      some (r, { w with db := db, issued := if s.inserts then ch.id :: w.issued else w.issued })
  | .push messageID => some (.ok (), { w with queue := messageID :: w.queue })
  | .pop =>
    match w.queue.getLast? with
    | none => some (.error .redisNil, w)
    | some messageID => some (.ok messageID, { w with queue := w.queue.dropLast })
  | .send _ _ => some ((), w)
  | .answer _ => some (ch.answer, w)
  | .now => some (ch.now, w)
  | .rand => some (.ok ch.bytes, w)
  | .respond _ => some ((), w)
  | .panic => none

/-- One operation of process `i`, recorded in the log. Time does not go back. -/
def step (env : Platform) (i : Proc) (ch : Choice) (o : Op) (w : World) :
    Option (o.Res × World) :=
  if ch.now < w.clock then none
  else
    let w := { w with clock := ch.now }
    (if ch.fail then (failure o).map fun r ↦ (r, w) else perform env ch w o).map fun (r, w') ↦
      (r, { w' with log := ⟨i, o, r, ch.now⟩ :: w'.log })

/-- An operation fails without an effect, or is performed. -/
theorem step_inv {env : Platform} {i : Proc} {ch : Choice} {o : Op} {w w' : World} {r : o.Res}
    (h : step env i ch o w = some (r, w')) :
    (ch.fail = true ∧ failure o = some r ∧ w'.db = w.db ∧ w'.queue = w.queue ∧
        w'.issued = w.issued) ∨
      (ch.fail = false ∧ ∃ w₁, perform env ch { w with clock := ch.now } o = some (r, w₁) ∧
        w'.db = w₁.db ∧ w'.queue = w₁.queue ∧ w'.issued = w₁.issued) := by
  unfold step at h
  split at h
  · cases h
  · cases hf : ch.fail with
    | true =>
      simp only [hf, if_true, Option.map_map, Option.map_eq_some_iff] at h
      obtain ⟨r₁, hr, he⟩ := h
      cases he
      exact .inl ⟨rfl, hr, rfl, rfl, rfl⟩
    | false =>
      simp only [hf, Bool.false_eq_true, if_false, Option.map_eq_some_iff] at h
      obtain ⟨⟨r₁, w₁⟩, hp, he⟩ := h
      cases he
      exact .inr ⟨rfl, w₁, hp, rfl, rfl, rfl⟩

/-- What is performed touches neither the log nor the clock. -/
private theorem perform_log {env : Platform} {ch : Choice} {o : Op} {w w' : World} {r : o.Res}
    (h : perform env ch w o = some (r, w')) : w'.log = w.log ∧ w'.clock = w.clock := by
  cases o with
  | sql s =>
    simp only [perform] at h
    split at h
    · cases h
    · cases h
      exact ⟨rfl, rfl⟩
  | pop =>
    simp only [perform] at h
    split at h <;> cases h <;> exact ⟨rfl, rfl⟩
  | panic => cases h
  | _ =>
    cases h
    exact ⟨rfl, rfl⟩

/-- Every operation is recorded with its time. -/
theorem step_log {env : Platform} {i : Proc} {ch : Choice} {o : Op} {w w' : World} {r : o.Res}
    (h : step env i ch o w = some (r, w')) :
    w'.log = ⟨i, o, r, ch.now⟩ :: w.log ∧ w'.clock = ch.now ∧ w.clock ≤ ch.now := by
  unfold step at h
  split at h
  · cases h
  · next ht =>
    obtain ⟨⟨r₁, w₁⟩, hp, he⟩ := Option.map_eq_some_iff.mp h
    cases he
    split at hp
    · obtain ⟨r₂, -, he⟩ := Option.map_eq_some_iff.mp hp
      cases he
      exact ⟨rfl, rfl, Int.not_lt.mp ht⟩
    · obtain ⟨hl, hc⟩ := perform_log hp
      exact ⟨by rw [hl], hc, Int.not_lt.mp ht⟩

/-- One operation of process `i` in a run whose choices all satisfy `allow`. -/
def Exec (env : Platform) (allow : Choice → Prop) (i : Proc) (o : Op) (w : World) (r : o.Res)
    (w' : World) : Prop :=
  ∃ ch, allow ch ∧ step env i ch o w = some (r, w')

/-- An operation is recorded. -/
theorem Exec.log_eq {env : Platform} {allow : Choice → Prop} {i : Proc} {o : Op} {w w' : World}
    {r : o.Res} (h : Exec env allow i o w r w') : ∃ t, w'.log = ⟨i, o, r, t⟩ :: w.log := by
  obtain ⟨ch, -, hs⟩ := h
  exact ⟨ch.now, (step_log hs).1⟩

/-- Time does not go back. -/
theorem Exec.clock_le {env : Platform} {allow : Choice → Prop} {i : Proc} {o : Op} {w w' : World}
    {r : o.Res} (h : Exec env allow i o w r w') : w.clock ≤ w'.clock := by
  obtain ⟨ch, -, hs⟩ := h
  obtain ⟨-, hc, ht⟩ := step_log hs
  rw [hc]
  exact ht

/-- The clock shows the time of the operation. -/
theorem Exec.now_eq {env : Platform} {allow : Choice → Prop} {i : Proc} {w w' : World} {t : Time}
    (h : Exec env allow i .now w t w') :
    t = w'.clock ∧ w'.db = w.db ∧ w'.issued = w.issued := by
  obtain ⟨ch, -, hs⟩ := h
  obtain ⟨-, hc, -⟩ := step_log hs
  rcases step_inv hs with ⟨-, hr, -⟩ | ⟨-, w₁, hp, hd, -, hi⟩
  · cases hr
  · cases hp
    exact ⟨hc.symm, hd, hi⟩

/-- A statement fails without an effect, or gives its answer and the tables after it. The id of a
new row is a fresh one. -/
theorem step_sql {env : Platform} {i : Proc} {ch : Choice} {s : Stmt} {w w' : World}
    {r : Except Err s.Ok} (h : step env i ch (.sql s) w = some (r, w')) :
    (ch.fail = true ∧ r = .error .unavailable ∧ w'.db = w.db) ∨
      (ch.fail = false ∧ s.exec env ch w.db = (r, w'.db) ∧
        (s.inserts = true → ch.id ∉ w.issued ∧ ch.id ∈ w'.issued)) := by
  rcases step_inv h with ⟨hf, hr, hd, -⟩ | ⟨hf, w₁, hp, hd, -, hi⟩
  · cases hr
    exact .inl ⟨hf, rfl, hd⟩
  · simp only [perform] at hp
    split at hp
    · cases hp
    · next hc =>
      cases hp
      refine .inr ⟨hf, by rw [hd], fun hins ↦ ?_⟩
      rw [hi]
      simp only [hins, Bool.true_and, List.contains_iff_mem] at hc ⊢
      exact ⟨hc, List.mem_cons_self⟩

theorem Exec.sql {env : Platform} {allow : Choice → Prop} {i : Proc} {s : Stmt} {w w' : World}
    {r : Except Err s.Ok} (h : Exec env allow i (.sql s) w r w') :
    (r = .error .unavailable ∧ w'.db = w.db) ∨
      ∃ ch, allow ch ∧ s.exec env ch w.db = (r, w'.db) ∧
        (s.inserts = true → ch.id ∉ w.issued ∧ ch.id ∈ w'.issued) := by
  obtain ⟨ch, ha, hs⟩ := h
  rcases step_sql hs with ⟨-, hr, hd⟩ | ⟨-, hexec, hid⟩
  · exact .inl ⟨hr, hd⟩
  · exact .inr ⟨ch, ha, hexec, hid⟩

/-- Ids once generated stay generated. -/
theorem Exec.issued_subset {env : Platform} {allow : Choice → Prop} {i : Proc} {o : Op}
    {w w' : World} {r : o.Res} (h : Exec env allow i o w r w') : w.issued ⊆ w'.issued := by
  obtain ⟨ch, -, hs⟩ := h
  rcases step_inv hs with ⟨-, -, -, -, hi⟩ | ⟨-, w₁, hp, -, -, hi⟩
  · rw [hi]
    exact List.Subset.refl _
  · rw [hi]
    cases o with
    | sql s =>
      simp only [perform] at hp
      split at hp
      · cases hp
      · cases hp
        show w.issued ⊆ if s.inserts then ch.id :: w.issued else w.issued
        split
        · exact List.subset_cons_self _ _
        · exact List.Subset.refl _
    | pop =>
      simp only [perform] at hp
      split at hp <;> cases hp <;> exact List.Subset.refl _
    | panic => cases hp
    | _ =>
      cases hp
      exact List.Subset.refl _

/-- A failed statement leaves the tables alone. -/
theorem Exec.failed {env : Platform} {allow : Choice → Prop} {i : Proc} {s : Stmt} {w w' : World}
    {e : Err} (h : Exec env allow i (.sql s) w (.error e) w') : w'.db = w.db := by
  rcases h.sql with ⟨-, hd⟩ | ⟨ch, -, hexec, -⟩
  · exact hd
  · exact Stmt.exec_error hexec

/-- A statement that draws no id can be performed at any time from now on. -/
theorem exec_sql (env : Platform) (allow : Choice → Prop) (i : Proc) (s : Stmt) (ch : Choice)
    {w : World} (hs : s.inserts = false) (ha : allow ch) (hf : ch.fail = false)
    (ht : w.clock ≤ ch.now) :
    ∃ w', Exec env allow i (.sql s) w (s.exec env ch w.db).1 w' ∧
      w'.db = (s.exec env ch w.db).2 ∧ w'.clock = ch.now := by
  let w' : World :=
    { w with
      db := (s.exec env ch w.db).2
      clock := ch.now
      log := ⟨i, .sql s, (s.exec env ch w.db).1, ch.now⟩ :: w.log }
  have hstep : step env i ch (.sql s) w = some ((s.exec env ch w.db).1, w') := by
    unfold step
    rw [if_neg (Int.not_lt.mpr ht)]
    simp only [hf, hs, perform, Bool.false_eq_true, if_false, Bool.false_and]
    rfl
  exact ⟨w', ⟨ch, ha, hstep⟩, rfl, rfl⟩

/-- The clock can be looked at. -/
theorem exec_now (env : Platform) (allow : Choice → Prop) (i : Proc) (ch : Choice) {w : World}
    (ha : allow ch) (hf : ch.fail = false) (ht : w.clock ≤ ch.now) :
    ∃ w', Exec env allow i .now w ch.now w' := by
  refine ⟨{ w with clock := ch.now, log := ⟨i, .now, ch.now, ch.now⟩ :: w.log }, ch, ha, ?_⟩
  unfold step
  rw [if_neg (Int.not_lt.mpr ht), hf]
  rfl

/-- Only statements change the tables. -/
theorem Exec.db_eq {env : Platform} {allow : Choice → Prop} {i : Proc} {o : Op} {w w' : World}
    {r : o.Res} (h : Exec env allow i o w r w') (ho : ∀ s, o ≠ .sql s) : w'.db = w.db := by
  obtain ⟨ch, -, hs⟩ := h
  rcases step_inv hs with ⟨-, -, hd, -⟩ | ⟨-, w₁, hp, hd, -⟩
  · exact hd
  · rw [hd]
    cases o with
    | sql s => exact absurd rfl (ho s)
    | pop =>
      simp only [perform] at hp
      split at hp <;> cases hp <;> rfl
    | panic => cases hp
    | _ =>
      cases hp
      rfl

/-- A statement of a run in which the choices let none fail. -/
theorem Exec.sql_works {env : Platform} {allow : Choice → Prop} {i : Proc} {s : Stmt} {w w' : World}
    {r : Except Err s.Ok} (hallow : ∀ ch, allow ch → ch.fail = false)
    (h : Exec env allow i (.sql s) w r w') :
    ∃ ch, allow ch ∧ s.exec env ch w.db = (r, w'.db) ∧
      (s.inserts = true → ch.id ∉ w.issued ∧ ch.id ∈ w'.issued) := by
  obtain ⟨ch, ha, hs⟩ := h
  rcases step_sql hs with ⟨hfail, -⟩ | ⟨-, hexec, hid⟩
  · rw [hallow ch ha] at hfail
    cases hfail
  · exact ⟨ch, ha, hexec, hid⟩

/-- In such a run, a statement that reads leaves the tables alone. -/
theorem Exec.read_works {env : Platform} {allow : Choice → Prop} {i : Proc} {s : Stmt}
    {w w' : World} {r : Except Err s.Ok} (hallow : ∀ ch, allow ch → ch.fail = false)
    (hs : ∀ ch db, (s.exec env ch db).2 = db) (h : Exec env allow i (.sql s) w r w') :
    ∃ ch, (s.exec env ch w.db).1 = r ∧ w'.db = w.db ∧ w.issued ⊆ w'.issued := by
  obtain ⟨ch, -, hexec, -⟩ := h.sql_works hallow
  exact ⟨ch, congrArg Prod.fst hexec, (congrArg Prod.snd hexec).symm.trans (hs ch w.db),
    h.issued_subset⟩

/-- A draw of random bytes in such a run. -/
theorem Exec.rand_works {env : Platform} {allow : Choice → Prop} {i : Proc} {w w' : World}
    {r : Except Err (List UInt8)} (hallow : ∀ ch, allow ch → ch.fail = false)
    (h : Exec env allow i .rand w r w') :
    ∃ ch, allow ch ∧ r = .ok ch.bytes ∧ w'.db = w.db ∧ w'.issued = w.issued := by
  obtain ⟨ch, ha, hs⟩ := h
  rcases step_inv hs with ⟨hfail, -⟩ | ⟨-, w₁, hp, hd, -, hi⟩
  · rw [hallow ch ha] at hfail
    cases hfail
  · cases hp
    exact ⟨ch, ha, rfl, hd, hi⟩

/-- A look at the clock shows the time of a choice. -/
theorem Exec.now_works {env : Platform} {allow : Choice → Prop} {i : Proc} {w w' : World} {t : Time}
    (h : Exec env allow i .now w t w') :
    ∃ ch, allow ch ∧ t = ch.now ∧ w'.db = w.db ∧ w'.issued = w.issued := by
  obtain ⟨ch, ha, hs⟩ := h
  rcases step_inv hs with ⟨-, hr, -⟩ | ⟨-, w₁, hp, hd, -, hi⟩
  · cases hr
  · cases hp
    exact ⟨ch, ha, rfl, hd, hi⟩

/-- No operation fails. -/
def faultless (ch : Choice) : Prop := ch.fail = false

instance : DecidablePred faultless := fun ch ↦ inferInstanceAs (Decidable (ch.fail = false))

/-- A statement of a run in which none fails. -/
theorem Exec.sql_faultless {env : Platform} {i : Proc} {s : Stmt} {w w' : World}
    {r : Except Err s.Ok} (h : Exec env World.faultless i (.sql s) w r w') :
    ∃ ch, s.exec env ch w.db = (r, w'.db) ∧
      (s.inserts = true → ch.id ∉ w.issued ∧ ch.id ∈ w'.issued) := by
  obtain ⟨ch, hf, hs⟩ := h
  rcases step_sql hs with ⟨hfail, -⟩ | ⟨-, hexec, hid⟩
  · rw [World.faultless, hfail] at hf
    cases hf
  · exact ⟨ch, hexec, hid⟩

/-- A draw of random bytes in a run in which none fails. -/
theorem Exec.rand_faultless {env : Platform} {i : Proc} {w w' : World} {r : Except Err (List UInt8)}
    (h : Exec env World.faultless i .rand w r w') :
    ∃ bytes, r = .ok bytes ∧ w'.db = w.db ∧ w'.issued = w.issued := by
  obtain ⟨ch, hf, hs⟩ := h
  rcases step_inv hs with ⟨hfail, -⟩ | ⟨-, w₁, hp, hd, -, hi⟩
  · rw [World.faultless, hfail] at hf
    cases hf
  · cases hp
    exact ⟨ch.bytes, rfl, hd, hi⟩

/-- A run alone in which no operation fails, given by the choices. -/
theorem runs_of_play {env : Platform} {i : Proc} {α : Type} {p : Service α} {choices : List Choice}
    {w w' : World} {a : α}
    (h : p.play (fun ch ↦ step env i { ch with fail := false }) choices w = some (a, w')) :
    p.Runs (Exec env faultless i) w a w' :=
  Prog.Runs.of_play (fun ch _ _ _ _ hs ↦ ⟨{ ch with fail := false }, rfl, hs⟩) h

/-- An operation of a run in which none fails. -/
theorem Exec.faultless {env : Platform} {i : Proc} {o : Op} {w w' : World} {r : o.Res}
    (h : Exec env faultless i o w r w') :
    ∃ ch w₁, w.clock ≤ ch.now ∧ perform env ch { w with clock := ch.now } o = some (r, w₁) ∧
      w' = { w₁ with log := ⟨i, o, r, ch.now⟩ :: w₁.log } := by
  obtain ⟨ch, hf, hs⟩ := h
  unfold step at hs
  split at hs
  · cases hs
  · next ht =>
    rw [World.faultless] at hf
    simp only [hf, Bool.false_eq_true, if_false, Option.map_eq_some_iff] at hs
    obtain ⟨⟨r₁, w₁⟩, hp, he⟩ := hs
    cases he
    exact ⟨ch, w₁, Int.not_lt.mp ht, hp, rfl⟩

end World

end Chis
