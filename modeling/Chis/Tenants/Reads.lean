import Chis.Api.System
import Chis.Base.TwoRuns
import Chis.Tenants.Queries

/-!
# What the routes of an organization show

A `GET` route of an organization is answered alike in two stores that agree on the rows of this
organization and differ in anything else.
-/

namespace Chis

open Program Api

namespace Tenants

/-- Two worlds at one time, whose stores agree on the rows of `A`. -/
structure Twin (A : Uuid) (w w' : World) : Prop where
  clock : w.clock = w'.clock
  rows : SameRows (· = A) w.db w'.db
  unique : Unique w.db

/-- Two programs run alike, each in its world, where no two rows tie. -/
abbrev Together (env : Env) (i : Proc) (A : Uuid) {α : Type} (p : Service α) (w : World)
    (q : Service α) (w' : World) : Prop :=
  Prog.Alike (World.step env.toPlatform i) (fun ch ↦ Function.Injective ch.tie) (Twin A) p w q w'

section Rules

variable {env : Env} {i : Proc} {A : Uuid} {w w' : World}

/-- What a statement that only reads leaves behind. -/
private theorem Twin.step {s : Stmt} {ch : Choice} {r r' : Except Err s.Ok} {t t' : World}
    (hread : ∀ ch db, (s.exec env.toPlatform ch db).2 = db) (ht : Twin A w w')
    (h : World.step env.toPlatform i ch (.sql s) w = some (r, t))
    (h' : World.step env.toPlatform i ch (.sql s) w' = some (r', t')) : Twin A t t' := by
  have hdb {w t : World} {r : Except Err s.Ok}
      (h : World.step env.toPlatform i ch (.sql s) w = some (r, t)) : t.db = w.db := by
    rcases World.step_sql h with ⟨-, -, hd⟩ | ⟨-, hexec, -⟩
    · exact hd
    · have hd := hread ch w.db
      rw [hexec] at hd
      exact hd
  obtain ⟨-, hc, -⟩ := World.step_log h
  obtain ⟨-, hc', -⟩ := World.step_log h'
  exact ⟨hc.trans hc'.symm, by rw [hdb h, hdb h']; exact ht.rows, hdb h ▸ ht.unique⟩

private theorem step_isSome {s : Stmt} {ch : Choice} (hins : s.inserts = false) :
    (World.step env.toPlatform i ch (.sql s) w).isSome = !decide (ch.now < w.clock) := by
  unfold World.step
  split
  · next h => simp [h]
  · next h =>
    cases ch.fail <;> simp [h, World.failure, World.perform, hins]

/-- A statement that only reads, in both worlds. -/
theorem read_together {α : Type} {s : Stmt} {k k' : Except Err s.Ok → Service α}
    (hins : s.inserts = false) (hread : ∀ ch db, (s.exec env.toPlatform ch db).2 = db)
    (ht : Twin A w w')
    (hfail : ∀ t t', Twin A t t' →
      Together env i A (k (.error .unavailable)) t (k' (.error .unavailable)) t')
    (hk : ∀ ch t t', Function.Injective ch.tie → Twin A t t' → t.db = w.db → t'.db = w'.db →
      Together env i A (k (s.exec env.toPlatform ch w.db).1) t
        (k' (s.exec env.toPlatform ch w'.db).1) t') :
    Together env i A (.op (.sql s) k) w (.op (.sql s) k') w' := by
  apply Prog.Alike.op
  · intro ch _
    rw [step_isSome hins, step_isSome hins, ht.clock]
  · intro ch r t r' t' hch h h'
    have htwin := Twin.step hread ht h h'
    rcases World.step_sql h with ⟨hf, hr, -⟩ | ⟨hf, hexec, -⟩
    · rcases World.step_sql h' with ⟨-, hr', -⟩ | ⟨hf', -⟩
      · rw [hr, hr']
        exact hfail t t' htwin
      · rw [hf] at hf'
        cases hf'
    · rcases World.step_sql h' with ⟨hf', -⟩ | ⟨-, hexec', -⟩
      · rw [hf] at hf'
        cases hf'
      · have hk' := hk ch t t' hch htwin
          ((congrArg Prod.snd hexec).symm.trans (hread ch w.db))
          ((congrArg Prod.snd hexec').symm.trans (hread ch w'.db))
        rw [hexec, hexec'] at hk'
        exact hk'

/-- One that has the same answer in both. -/
theorem same_together {α : Type} {s : Stmt} {k k' : Except Err s.Ok → Service α}
    (hins : s.inserts = false) (hread : ∀ ch db, (s.exec env.toPlatform ch db).2 = db)
    (ht : Twin A w w')
    (hsame : ∀ ch, Function.Injective ch.tie →
      (s.exec env.toPlatform ch w.db).1 = (s.exec env.toPlatform ch w'.db).1)
    (hk : ∀ r t t', Twin A t t' → Together env i A (k r) t (k' r) t') :
    Together env i A (.op (.sql s) k) w (.op (.sql s) k') w' := by
  apply read_together hins hread ht
  · exact fun t t' htwin ↦ hk _ t t' htwin
  · intro ch t t' hch htwin _ _
    rw [hsame ch hch]
    exact hk _ t t' htwin

/-- A look at the clock. -/
theorem now_together {α : Type} {k k' : Time → Service α} (ht : Twin A w w')
    (hk : ∀ time t t', Twin A t t' → Together env i A (k time) t (k' time) t') :
    Together env i A (.op .now k) w (.op .now k') w' := by
  apply Prog.Alike.op
  · intro ch _
    unfold World.step
    rw [ht.clock]
    split
    · rfl
    · cases ch.fail <;> rfl
  · intro ch r t r' t' _ h h'
    have hdb {w t : World} {r : Time} (h : World.step env.toPlatform i ch .now w = some (r, t)) :
        r = ch.now ∧ t.db = w.db ∧ t.clock = ch.now := by
      obtain ⟨-, hc, -⟩ := World.step_log h
      rcases World.step_inv h with ⟨-, hr, -⟩ | ⟨-, w₁, hp, hd, -⟩
      · cases hr
      · cases hp
        exact ⟨rfl, hd, hc⟩
    obtain ⟨hr, hd, hc⟩ := hdb h
    obtain ⟨hr', hd', hc'⟩ := hdb h'
    rw [hr, hr']
    apply hk
    exact ⟨hc.trans hc'.symm, by rw [hd, hd']; exact ht.rows, hd ▸ ht.unique⟩

/-- `Wrap` answers alike. -/
theorem wrap_together {r : Request} {h h' : Handler Response}
    (hh : Together env i A h.run w h'.run w') :
    Together env i A (wrap r h) w (wrap r h') w' := by
  refine Prog.Alike.bind hh fun x t t' htwin ↦ ?_
  cases x with
  | ok res => exact .pure htwin
  | error fault => exact now_together htwin fun time t₁ t₁' htwin' ↦ .pure htwin'

/-- A handler of one statement. -/
theorem query_together {s : Stmt} {fault : Err → Fault} {k : s.Ok → Response}
    (hins : s.inserts = false) (hread : ∀ ch db, (s.exec env.toPlatform ch db).2 = db)
    (ht : Twin A w w')
    (hsame : ∀ ch, Function.Injective ch.tie →
      (s.exec env.toPlatform ch w.db).1 = (s.exec env.toPlatform ch w'.db).1) :
    Together env i A (query s fault >>= fun a ↦ pure (k a)).run w
      (query s fault >>= fun a ↦ pure (k a)).run w' := by
  rw [run_query_bind]
  apply same_together hins hread ht hsame
  rintro (e | a) t t' htwin
  · exact .pure htwin
  · exact .pure htwin

/-- A program of the services that is part of a handler. -/
theorem lift_together {α β : Type} {p p' : Service β} {k : β → Handler α}
    (hp : Together env i A p w p' w')
    (hk : ∀ b t t', Twin A t t' → Together env i A (k b).run t (k b).run t') :
    Together env i A ((ExceptT.lift p : Handler β) >>= k).run w
      ((ExceptT.lift p' : Handler β) >>= k).run w' := by
  rw [ExceptT.run_bind, ExceptT.run_bind]
  refine Prog.Alike.bind (Prog.Alike.bind hp fun b t t' htwin ↦ .pure htwin) fun x t t' htwin ↦ ?_
  cases x with
  | ok b => exact hk b t t' htwin
  | error e => exact .pure htwin

end Rules

/-! ### The handlers -/

section Handlers

variable {env : Env} {i : Proc} {A : Uuid} {w w' : World} {r : Request} (ht : Twin A w w')

include ht

theorem findWebhookLogs_together (status search : String) (page limit : Int) :
    Together env i A (findWebhookLogs A status search page limit) w
      (findWebhookLogs A status search page limit) w' := by
  unfold findWebhookLogs
  simp only [Service.sql, Prog.monad_bind, Prog.bind_call]
  apply same_together rfl (fun _ _ ↦ rfl) ht
  · exact fun ch _ ↦ countLogs_same ht.rows
  · rintro (e | total) t t' htwin
    · exact .pure htwin
    · apply same_together rfl (fun _ _ ↦ rfl) htwin
      · exact fun ch htie ↦ pageLogs_same htwin.rows htie
      · rintro (e | rows) t₁ t₁' htwin'
        · exact .pure htwin'
        · exact .pure htwin'

/-- No message of the organization. -/
private def Foreign (A : Uuid) (x : Except Err Message) : Prop := ∀ m, x = .ok m → m.orgID ≠ A

/-- A message of the organization is found in both stores, any other id gives none of its messages. -/
private theorem findById_cases (id : Uuid) :
    (∃ m ∈ w.db.messages, m.orgID = A ∧ m.id = id ∧ MessageRepository.findById id w.db = .ok m ∧
      MessageRepository.findById id w'.db = .ok m) ∨
    Foreign A (MessageRepository.findById id w.db) ∧
      Foreign A (MessageRepository.findById id w'.db) := by
  have hfound {db : Db} {m : Message} :
      MessageRepository.findById id db = .ok m ↔ m ∈ db.messages ∧ m.id = id := by
    rw [← Relational.Table.find?_eq_some_iff, MessageRepository.findById]
    cases db.messages.find? id with
    | none => simp
    | some row => simp
  by_cases hm : ∃ m ∈ w.db.messages, m.orgID = A ∧ m.id = id
  · obtain ⟨m, hmem, hA, hid⟩ := hm
    exact .inl ⟨m, hmem, hA, hid, hfound.mpr ⟨hmem, hid⟩,
      hfound.mpr ⟨(ht.rows.messages m hA).mpr hmem, hid⟩⟩
  · refine .inr ⟨fun m hx hA ↦ ?_, fun m hx hA ↦ ?_⟩
    · obtain ⟨hmem, hid⟩ := hfound.mp hx
      exact hm ⟨m, hmem, hA, hid⟩
    · obtain ⟨hmem, hid⟩ := hfound.mp hx
      exact hm ⟨m, (ht.rows.messages m hA).mp hmem, hA, hid⟩

omit ht in
/-- A message that is not the organization's is answered like a missing one. -/
private theorem onAnswer_foreign {k : Message → Handler Response} {x : Except Err Message}
    (hx : Foreign A x) :
    onAnswer (fun _ ↦ .app (.notFound "webhook log not found")) (fun msg : Message ↦ do
      if msg.orgID ≠ A then fail (.notFound "webhook log not found")
      k msg) x = .pure (.error (.app (.notFound "webhook log not found"))) := by
  cases x with
  | error e => rfl
  | ok msg =>
    rw [onAnswer, if_pos (hx msg rfl)]
    rfl

theorem webhookLogDetail_together (idParam : String) :
    Together env i A (webhookLogDetail env A idParam).run w
      (webhookLogDetail env A idParam).run w' := by
  unfold webhookLogDetail
  cases Uuid.parse idParam with
  | none => exact .pure ht
  | some id =>
    simp only []
    rw [run_query_bind]
    apply read_together rfl (fun _ _ ↦ rfl) ht
    · exact fun t t' htwin ↦ .pure htwin
    · intro ch t t' hch htwin hd hd'
      change Together env i A (onAnswer _ _ (MessageRepository.findById id w.db)) t
        (onAnswer _ _ (MessageRepository.findById id w'.db)) t'
      rcases findById_cases ht id with ⟨m, hm, hA, rfl, hx, hx'⟩ | ⟨hx, hx'⟩
      · rw [hx, hx', onAnswer, if_neg (not_not.mpr hA), run_query_bind]
        apply same_together rfl (fun _ _ ↦ rfl) htwin
        · exact fun ch htie ↦ attempts_same htwin.rows htie (hd ▸ hm) hA
        · rintro (e | attempts) t₁ t₁' htwin'
          · exact .pure htwin'
          · exact .pure htwin'
      · rw [onAnswer_foreign hx, onAnswer_foreign hx']
        exact .pure htwin

theorem webhookLogs_together :
    Together env i A (webhookLogs env A r).run w (webhookLogs env A r).run w' := by
  unfold webhookLogs
  apply lift_together (findWebhookLogs_together ht _ _ _ _)
  rintro (e | res) t t' htwin
  · exact .pure htwin
  · exact .pure htwin

end Handlers

/-! ### The routes -/

/-- The `GET` routes of an organization. -/
def isGet : OrgRoute → Bool
  | .listApiKeys | .stats | .webhookLogs | .webhookLogDetail _ => true
  | .admin .listInvitations | .admin .getSigningSecret => true
  | _ => false

section Routes

variable {env : Env} {i : Proc} {A : Uuid} {w w' : World} {r : Request}

theorem adminRoute_together {u : Uuid} {route : AdminRoute} (ht : Twin A w w')
    (hget : isGet (.admin route) = true) :
    Together env i A (route.handler env u A r).run w (route.handler env u A r).run w' := by
  cases route with
  | listInvitations =>
    exact query_together rfl (fun _ _ ↦ rfl) ht fun ch htie ↦ invitations_same ht.rows htie
  | getSigningSecret =>
    exact query_together rfl (fun _ _ ↦ rfl) ht fun ch _ ↦ secret_same ht.rows
  | _ => cases hget

theorem orgRoute_together {u : Uuid} {route : OrgRoute} (ht : Twin A w w')
    (hget : isGet route = true) :
    Together env i A (route.handle env u A r) w (route.handle env u A r) w' := by
  cases route with
  | listApiKeys =>
    exact wrap_together (query_together rfl (fun _ _ ↦ rfl) ht fun ch htie ↦ apiKeys_same ht.rows htie)
  | stats =>
    exact wrap_together (query_together rfl (fun _ _ ↦ rfl) ht fun ch _ ↦ counts_same ht.rows)
  | webhookLogs => exact wrap_together (webhookLogs_together ht)
  | webhookLogDetail id => exact wrap_together (webhookLogDetail_together ht id)
  | admin route =>
    apply same_together rfl (fun _ _ ↦ rfl) ht
    · exact fun ch _ ↦ membership_same ht.rows ht.unique u
    · rintro (e | m) t t' htwin
      · exact .pure htwin
      · change Together env i A (if (m : Membership).role = .admin then _ else _) t
          (if m.role = .admin then _ else _) t'
        split
        · exact wrap_together (adminRoute_together htwin hget)
        · exact .pure htwin
  | _ => cases hget

theorem orgScoped_together {u : Uuid} {route : OrgRoute} (ht : Twin A w w')
    (horg : Uuid.parse r.orgHeader = some A) (hget : isGet route = true) :
    Together env i A (orgScoped env u route r) w (orgScoped env u route r) w' := by
  unfold orgScoped validateOrgAccess
  split
  · exact .pure ht
  · rw [horg]
    apply same_together rfl (fun _ _ ↦ rfl) ht
    · exact fun ch _ ↦ membership_same ht.rows ht.unique u
    · rintro (e | m) t t' htwin
      · exact .pure htwin
      · exact orgRoute_together htwin hget

theorem handle_together {route : OrgRoute} (ht : Twin A w w')
    (horg : Uuid.parse r.orgHeader = some A) (hget : isGet route = true) :
    Together env i A (handle env r (.org route)) w (handle env r (.org route)) w' := by
  unfold handle validateToken
  cases bearerToken r.authorization with
  | none => exact .pure ht
  | some token =>
    apply now_together ht
    intro time t t' htwin
    cases huser : tokenUser env time token with
    | none =>
      simp only [Prog.bind_pure, huser]
      exact .pure htwin
    | some u =>
      simp only [Prog.bind_pure, huser]
      exact orgScoped_together htwin horg hget

/-- Two stores that agree on the rows of organization `A` answer a `GET` request to its routes alike:
with the same choices of the time, of what fails and of the order of rows with equal sort keys. -/
theorem reads_isolated {route : OrgRoute} {db : Db} (hget : isGet route = true)
    (horg : Uuid.parse r.orgHeader = some A) (hunique : Unique w.db)
    (hrows : SameRows (· = A) w.db db) {choices : List Choice}
    (htie : ∀ ch ∈ choices, Function.Injective ch.tie) :
    ((handle env r (.org route)).play (World.step env.toPlatform i) choices w).map Prod.fst =
      ((handle env r (.org route)).play (World.step env.toPlatform i) choices
        { w with db := db }).map Prod.fst := by
  have htwin : Twin A w { w with db := db } := ⟨rfl, hrows, hunique⟩
  exact (handle_together htwin horg hget).play htie

end Routes

/-! ### A sample -/

/-- User 2 is a member of organization 3. -/
private def tenant : Db :=
  { Db.empty with memberships := ⟨[⟨⟨1⟩, ⟨2⟩, ⟨3⟩, .member, 0, 0⟩], by decide⟩ }

/-- There is a message of organization 4, too. -/
private def shared : Db :=
  { tenant with messages := ⟨[{ Message.zero with id := ⟨5⟩, orgID := ⟨4⟩ }], by decide⟩ }

private theorem tenant_unique : Unique tenant where
  users := Relational.Table.distinct_empty _
  organizations := Relational.Table.distinct_empty _
  memberships m hm m' hm' _ := by
    rw [List.mem_singleton.mp hm, List.mem_singleton.mp hm']
  apiKeys := Relational.Table.distinct_empty _
  tokens := Relational.Table.distinct_empty _
  invitations := Relational.Table.distinct_empty _
  texts _ hi := nomatch hi

private theorem shared_rows : SameRows (· = ⟨3⟩) tenant shared where
  organizations _ _ := Iff.rfl
  memberships _ _ := Iff.rfl
  apiKeys _ _ := Iff.rfl
  messages m hm := by
    constructor
    · intro hmem
      rw [List.mem_singleton.mp hmem] at hm
      exact absurd hm (by decide)
    · exact fun hmem ↦ nomatch hmem
  attempts a := iff_of_false (fun h ↦ nomatch h.1) (fun h ↦ nomatch h.1)
  invitations _ _ := Iff.rfl

private def sampleDetail : OrgRoute := .webhookLogDetail (Uuid.toString ⟨5⟩)

private def sampleRead : Request := sampleRequestOf ⟨2⟩ ⟨3⟩ ""

private def sampleChoices : List Choice :=
  List.replicate 4 ⟨false, 0, .nil, fun id ↦ id.toFin, .failed "", []⟩

private theorem sample_org : Uuid.parse sampleRead.orgHeader = some ⟨3⟩ := Uuid.parse_toString _

private theorem sample_tie : ∀ ch ∈ sampleChoices, Function.Injective ch.tie := by
  intro ch hch
  rw [List.eq_of_mem_replicate hch]
  intro id id' he
  exact congrArg Uuid.mk (Fin.ext he)

private def sampleReads (db : Db) : Option Response :=
  ((handle sampleEnv sampleRead (.org sampleDetail)).play
    (World.step sampleEnv.toPlatform (.client 0)) sampleChoices ⟨db, [], 0, [], []⟩).map Prod.fst

/-- The message of organization 4 is as good as missing. -/
theorem foreign_message_missing : sampleReads tenant = sampleReads shared ∧
    (sampleReads shared).map Response.code = some 404 := by
  constructor
  · unfold sampleReads
    exact @reads_isolated sampleEnv (.client 0) ⟨3⟩ ⟨tenant, [], 0, [], []⟩ sampleRead sampleDetail
      shared rfl sample_org tenant_unique shared_rows sampleChoices sample_tie
  · decide +kernel

end Tenants

end Chis
