import Chis.Api.Rules
import Chis.Tenants.Rows

/-!
# What the routes of an organization write

Every operation of a request to the routes of an organization writes rows of that organization, or
rows its handler has seen to be of that organization; deleting an API key is the exception.
-/

namespace Chis

open Program Api

namespace Tenants

/-- The handler has read that the invitation `id` belongs to organization `A`. -/
def Shown (A : Uuid) (past : List (Event Op.Res)) (id : Uuid) : Prop :=
  (∃ invs : List Invitation, (Stmt.invitationFindByOrgID A).returned invs ∈ past ∧
    ∃ inv ∈ invs, inv.id = id) ∨
  ∃ (email : String) (inv : Invitation),
    (Stmt.invitationFindByOrgAndEmail A email).returned inv ∈ past ∧ inv.id = id

/-- The operations that write rows of `A` only, after those of `past`, started in a store `db`. -/
def Allowed (A : Uuid) (db : Db) (past : List (Event Op.Res)) : Op → Prop
  | .sql (.invitationUpdateStatus id _) | .sql (.invitationDelete id) => Shown A past id
  | .sql s => s.within A db
  | _ => True

/-- What may be written of `A` only depends on the rows of the others. -/
private theorem within_congr {A : Uuid} {db db' : Db} (h : SameRows (· ≠ A) db db') {s : Stmt}
    (hs : s.within A db) : s.within A db' := by
  cases s with
  | apiKeyDelete id =>
    intro k hk hid
    by_contra hne
    exact hne (hs k ((h.apiKeys k hne).mp hk) hid)
  | messageUpdateStatus id status =>
    intro m hm hid
    by_contra hne
    exact hne (hs m ((h.messages m hne).mp hm) hid)
  | messageUpdate msg =>
    intro m hm hid
    by_contra hne
    exact hne (hs m ((h.messages m hne).mp hm) hid)
  | attemptCreate a =>
    intro m hm hid
    by_contra hne
    exact hne (hs m ((h.messages m hne).mp hm) hid)
  | invitationUpdateStatus id status =>
    intro i hi hid
    by_contra hne
    exact hne (hs i ((h.invitations i hne).mp hi) hid)
  | invitationAccept id acceptedAt =>
    intro i hi hid
    by_contra hne
    exact hne (hs i ((h.invitations i hne).mp hi) hid)
  | invitationDelete id =>
    intro i hi hid
    by_contra hne
    exact hne (hs i ((h.invitations i hne).mp hi) hid)
  | _ => exact hs

/-! ### Handlers -/

section Handlers

variable {A : Uuid} {db : Db} {past : List (Event Op.Res)} {env : Env} {userID : Uuid} {r : Request}

attribute [local simp] Allowed Stmt.within

/-- The handler keeps to organization `A`. -/
abbrev Keeps (A : Uuid) (db : Db) {α : Type} (h : Handler α) (past : List (Event Op.Res)) : Prop :=
  Tells (Allowed A db) (fun _ _ ↦ True) h past

private theorem Keeps.bind {α β : Type} {h : Handler α} {k : α → Handler β} (hh : Keeps A db h past)
    (hk : ∀ past a, Keeps A db (k a) past) : Keeps A db (h >>= k) past :=
  tells_bind (Tells.mono (fun past a _ ↦ hk past a) hh)

theorem createApiKey_keeps : Keeps A db (createApiKey env A r) past := by
  simp [createApiKey]

theorem listApiKeys_keeps : Keeps A db (listApiKeys env A) past := by
  simp [listApiKeys]

/-- Nothing but its id says which key a deletion takes away. -/
theorem deleteApiKey_keeps {idParam : String}
    (h : ∀ id, Uuid.parse idParam = some id → ∀ k ∈ db.apiKeys, k.id = id → k.orgID = A) :
    Keeps A db (deleteApiKey idParam) past := by
  unfold deleteApiKey
  split
  · next id hid => simpa using h id hid
  · simp

theorem stats_keeps : Keeps A db (stats A) past := by
  simp [stats]

theorem webhookLogs_keeps : Keeps A db (webhookLogs env A r) past := by
  refine tells_lift_bind ?_
  simp [findWebhookLogs]

theorem webhookLogDetail_keeps {idParam : String} :
    Keeps A db (webhookLogDetail env A idParam) past := by
  unfold webhookLogDetail
  split
  · simp
  · simp

theorem listInvitations_keeps : Keeps A db (listInvitations env A) past := by
  simp [listInvitations]

theorem deleteOrg_keeps : Keeps A db (deleteOrg env A r) past := by
  simp [deleteOrg]

theorem getSigningSecret_keeps : Keeps A db (getSigningSecret A) past := by
  simp [getSigningSecret]

theorem rotateSigningSecret_keeps : Keeps A db (rotateSigningSecret A) past := by
  simp [rotateSigningSecret]

/-- The invitation cancelled is one of the list just read. -/
theorem cancelInvitation_keeps {idParam : String} :
    Keeps A db (cancelInvitation A idParam) past := by
  unfold cancelInvitation
  split
  · next id _ =>
    simp only [tells_query_bind, tells_ite]
    refine ⟨trivial, fun (invs : List Invitation) ↦ ⟨fun _ ↦ tells_fail_bind _ _, fun hany ↦ ?_⟩⟩
    have hmem : ∃ inv ∈ invs, inv.id = id := by simpa using hany
    exact ⟨.inl ⟨invs, List.mem_cons_self, hmem⟩, fun _ ↦ (tells_pure _).mpr trivial⟩
  · simp

/-- The invitation removed is the one just read. -/
theorem removeOldInvitation_keeps {email : String} :
    Keeps A db (removeOldInvitation A email) past := by
  have hdelete (inv : Invitation) :
      Keeps A db (query (.invitationDelete inv.id)
        (fun _ ↦ .app (.internal "failed to remove old invitation")) >>= fun _ ↦ pure ())
        ((Stmt.invitationFindByOrgAndEmail A email).returned inv :: past) := by
    rw [Keeps, tells_query_bind]
    exact ⟨.inr ⟨email, inv, List.mem_cons_self, rfl⟩, fun _ ↦ (tells_pure _).mpr trivial⟩
  unfold removeOldInvitation
  rw [Keeps, tells_attempt_bind]
  refine ⟨trivial, fun (inv : Invitation) ↦ ?_, fun e ↦ by simp⟩
  cases hs : inv.status with
  | pending => simp [hs]
  | accepted => simp [hs]
  | expired => simpa only [hs] using hdelete inv
  | cancelled => simpa only [hs] using hdelete inv

theorem alreadyMember_keeps {email : String} : Keeps A db (alreadyMember email A) past := by
  simp [alreadyMember]

theorem createInvitation_keeps : Keeps A db (createInvitation env userID A r) past := by
  unfold createInvitation
  rw [Keeps, tells_check_bind]
  intro req _
  refine Keeps.bind alreadyMember_keeps fun past member ↦ (tells_ite _ _ _).mpr ⟨fun _ ↦ by simp, ?_⟩
  intro _
  refine Keeps.bind removeOldInvitation_keeps fun past _ ↦ ?_
  simp [newInvitation]

end Handlers

/-! ### Requests -/

/-- The request deletes an API key that is not of organization `A`. -/
def DeletesForeignKey (A : Uuid) (db : Db) : OrgRoute → Prop
  | .deleteApiKey idParam =>
    ∃ id, Uuid.parse idParam = some id ∧ ∃ k ∈ db.apiKeys, k.id = id ∧ k.orgID ≠ A
  | _ => False

section Requests

variable {A : Uuid} {db : Db} {past : List (Event Op.Res)} {env : Env} {userID : Uuid} {r : Request}

private theorem wrap_keeps {h : Handler Response} (hh : Keeps A db h past) :
    (wrap r h).Traces (Allowed A db) (fun _ _ ↦ True) past :=
  traces_wrap (fun _ ↦ trivial) (fun _ _ _ ↦ trivial) hh

private theorem admin_keeps (route : AdminRoute) :
    Keeps A db (route.handler env userID A r) past := by
  cases route with
  | createInvitation => exact createInvitation_keeps
  | listInvitations => exact listInvitations_keeps
  | cancelInvitation id => exact cancelInvitation_keeps
  | deleteOrg => exact deleteOrg_keeps
  | getSigningSecret => exact getSigningSecret_keeps
  | rotateSigningSecret => exact rotateSigningSecret_keeps

theorem handle_keeps {route : OrgRoute} (hroute : ¬ DeletesForeignKey A db route) :
    (route.handle env userID A r).Traces (Allowed A db) (fun _ _ ↦ True) past := by
  cases route with
  | createApiKey => exact wrap_keeps createApiKey_keeps
  | listApiKeys => exact wrap_keeps listApiKeys_keeps
  | deleteApiKey idParam =>
    refine wrap_keeps (deleteApiKey_keeps fun id hid k hk hkey ↦ ?_)
    by_contra hne
    exact hroute ⟨id, hid, k, hk, hkey, hne⟩
  | stats => exact wrap_keeps stats_keeps
  | webhookLogs => exact wrap_keeps webhookLogs_keeps
  | webhookLogDetail idParam => exact wrap_keeps webhookLogDetail_keeps
  | admin route =>
    simp only [OrgRoute.handle, requireAdmin, Prog.monad_bind, traces_sql_bind, Allowed, Stmt.within,
      true_and]
    refine ⟨fun (m : Membership) ↦ ?_, fun _ ↦ by simp⟩
    by_cases hrole : m.role = .admin
    · simp only [hrole, if_true]
      exact wrap_keeps (admin_keeps route)
    · simp [hrole]

/-- Every operation of an admitted request keeps to the organization of its header. -/
theorem orgScoped_keeps {route : OrgRoute} (hA : Uuid.parse r.orgHeader = some A)
    (hroute : ¬ DeletesForeignKey A db route) :
    (orgScoped env userID route r).Traces (Allowed A db) (fun _ _ ↦ True) past := by
  unfold orgScoped validateOrgAccess
  split
  · simp
  · simp only [hA, Prog.monad_bind, traces_sql_bind, Allowed, Stmt.within, true_and]
    exact ⟨fun _ ↦ handle_keeps hroute, fun _ ↦ by simp⟩

end Requests

/-! ### In a store -/

section Store

variable {A : Uuid} {db : Db} {past : List (Event Op.Res)} {env : Platform} {i : Proc}

/-- Nothing is left out of what the world may decide. -/
def anyChoice (_ : Choice) : Prop := True

/-- The rows of the other organizations are those of `db`, and what the handler has read of `A` is
so. -/
structure Untouched (A : Uuid) (db : Db) (past : List (Event Op.Res)) (w : World) : Prop where
  same : SameRows (· ≠ A) db w.db
  shown : ∀ id, Shown A past id → ∀ inv ∈ db.invitations, inv.id = id → inv.orgID = A

/-- An invitation of `A` is read. -/
private theorem shown_of_read {w : World} (hsame : SameRows (· ≠ A) db w.db) {inv : Invitation}
    (hinv : inv ∈ w.db.invitations) (ho : inv.orgID = A) :
    ∀ inv' ∈ db.invitations, inv'.id = inv.id → inv'.orgID = A := by
  intro inv' hinv' hid
  by_contra hne
  have hmem : inv' ∈ w.db.invitations := (hsame.invitations inv' hne).mpr hinv'
  have he : inv' = inv := w.db.invitations.eq_of_key hmem hinv hid
  rw [he] at hne
  exact hne ho

private theorem Untouched.step {o : Op} {w w' : World} {r : o.Res} (h : Untouched A db past w)
    (hx : World.Exec env anyChoice i o w r w') (ho : Allowed A db past o) :
    Untouched A db (⟨o, r⟩ :: past) w' := by
  constructor
  · by_cases hs : ∃ s, o = .sql s
    · obtain ⟨s, rfl⟩ := hs
      have hwithin : s.within A db := by
        cases s with
        | invitationUpdateStatus id status => exact h.shown id ho
        | invitationDelete id => exact h.shown id ho
        | _ => exact ho
      rcases World.Exec.sql hx with ⟨-, hd⟩ | ⟨ch, -, hexec, -⟩
      · rw [hd]
        exact h.same
      · have hc := Stmt.exec_change env ch w.db s
        rw [hexec] at hc
        exact h.same.trans (hc.sameRows (within_congr h.same hwithin))
    · rw [World.Exec.db_eq hx fun s he ↦ hs ⟨s, he⟩]
      exact h.same
  · rintro id (⟨invs, hmem, inv, hinv, rfl⟩ | ⟨email, inv, hmem, rfl⟩)
    · cases hmem with
      | tail _ hmem => exact h.shown _ (.inl ⟨invs, hmem, inv, hinv, rfl⟩)
      | head =>
        rcases World.Exec.sql hx with ⟨hr, -⟩ | ⟨ch, -, hexec, -⟩
        · cases hr
        · have hr : InvitationRepository.findByOrgID ch.tie A w.db = invs := by
            injection (Prod.mk.inj hexec).1
          rw [← hr, InvitationRepository.findByOrgID, mem_orderBy, List.mem_filter] at hinv
          exact shown_of_read h.same hinv.1 (by simpa using hinv.2)
    · cases hmem with
      | tail _ hmem => exact h.shown _ (.inr ⟨email, inv, hmem, rfl⟩)
      | head =>
        rcases World.Exec.sql hx with ⟨hr, -⟩ | ⟨ch, -, hexec, -⟩
        · cases hr
        · have hr : InvitationRepository.findByOrgAndEmail A email w.db = .ok inv :=
            (Prod.mk.inj hexec).1
          obtain ⟨hinv, ho⟩ := InvitationRepository.findByOrgAndEmail_ok hr
          exact shown_of_read h.same hinv ho

/-- A program whose every operation keeps to `A`, run alone, leaves the others' rows alone. -/
theorem untouched_of_traces {w : World} {α : Type} {p : Service α}
    (hp : p.Traces (Allowed A w.db) (fun _ _ ↦ True) []) {a : α} {w' : World}
    (hx : p.Runs (World.Exec env anyChoice i) w a w') : SameRows (· ≠ A) w.db w'.db := by
  have h0 : Untouched A w.db [] w := by
    refine ⟨.refl _ _, ?_⟩
    rintro id (⟨_, h, -⟩ | ⟨_, _, h, -⟩) <;> cases h
  obtain ⟨past, h, -⟩ := hx.post (hp.wp (fun _ _ _ _ _ h hx ho ↦ h.step hx ho) h0)
  exact h.same

end Store

/-! ### The exception -/

section Exception

variable {A : Uuid} {env : Env} {i : Proc} {userID : Uuid} {r : Request} {w : World}

/-- The world does what it is asked at once. -/
def atOnce (now : Time) : Choice := ⟨false, now, .nil, fun _ ↦ 0, .failed "", []⟩

/-- A member of an organization deletes any key whose id is known, of whichever organization. -/
private theorem deletes_key {idParam : String} {id : Uuid} {k : APIKey} {m : Membership}
    (hA : Uuid.parse r.orgHeader = some A)
    (hm : MembershipRepository.findByUserAndOrgID userID A w.db = .ok m)
    (hid : Uuid.parse idParam = some id) (hk : k ∈ w.db.apiKeys) (hkey : k.id = id) :
    ∃ w', (orgScoped env userID (.deleteApiKey idParam) r).Runs
      (World.Exec env.toPlatform anyChoice i) w ⟨204, none⟩ w' ∧ k ∉ w'.db.apiKeys := by
  have hheader : r.orgHeader ≠ "" := by
    intro he
    rw [he, Uuid.parse_empty] at hA
    cases hA
  have hfind : w.db.apiKeys.find? id = some k := (w.db.apiKeys.find?_eq_some_iff id k).mpr ⟨hk, hkey⟩
  obtain ⟨w₁, hx₁, hd₁, -⟩ := World.exec_sql env.toPlatform anyChoice i
    (.membershipFindByUserAndOrgID userID A) (atOnce w.clock) rfl trivial rfl le_rfl
  obtain ⟨w₂, hx₂, hd₂, -⟩ := World.exec_sql env.toPlatform anyChoice i
    (.apiKeyDelete id) (atOnce w₁.clock) rfl trivial rfl le_rfl
  have hread : (Stmt.exec env.toPlatform (atOnce w.clock) w.db
      (.membershipFindByUserAndOrgID userID A)) = (.ok m, w.db) := by
    rw [← hm]
    rfl
  rw [hread] at hx₁ hd₁
  have hdelete : (Stmt.exec env.toPlatform (atOnce w₁.clock) w.db (.apiKeyDelete id)) =
      (.ok (), { w.db with apiKeys := w.db.apiKeys.filter fun k ↦ k.id ≠ id }) := by
    simp only [Stmt.exec, ApiKeyRepository.delete, hfind]
    rfl
  rw [hd₁, hdelete] at hx₂ hd₂
  refine ⟨w₂, ?_, ?_⟩
  · unfold orgScoped validateOrgAccess
    rw [if_neg hheader]
    simp only [hA]
    refine ⟨_, w₁, hx₁, ?_⟩
    simp only [OrgRoute.handle, deleteApiKey, hid]
    exact ⟨_, w₂, hx₂, rfl, rfl⟩
  · rw [hd₂]
    simp [hkey]

/-- For an admitted request, the rows of all other organizations stay as they are exactly when the
request does not delete an API key of one of them. -/
theorem others_untouched_iff {route : OrgRoute} (hA : Uuid.parse r.orgHeader = some A)
    (hm : ∃ m, MembershipRepository.findByUserAndOrgID userID A w.db = .ok m) :
    (∀ res w', (orgScoped env userID route r).Runs (World.Exec env.toPlatform anyChoice i) w res w' →
      SameRows (· ≠ A) w.db w'.db) ↔ ¬ DeletesForeignKey A w.db route := by
  constructor
  · intro h hroute
    cases route with
    | deleteApiKey idParam =>
      obtain ⟨id, hid, k, hk, hkey, hne⟩ := hroute
      obtain ⟨m, hm⟩ := hm
      obtain ⟨w', hx, hgone⟩ := deletes_key hA hm hid hk hkey
      exact hgone (((h _ w' hx).apiKeys k hne).mpr hk)
    | _ => exact hroute
  · intro hroute res w' hx
    exact untouched_of_traces (orgScoped_keeps hA hroute) hx

end Exception

/-! ### A sample -/

/-- Two organizations; user 3 is a member of the first, and the second has a key. -/
def sampleDb : Db :=
  { Db.empty with
    organizations := ⟨[⟨⟨1⟩, "Acme", "acme", "a", 0, 0⟩, ⟨⟨2⟩, "Bolt", "bolt", "b", 0, 0⟩], by decide⟩
    memberships := ⟨[⟨⟨4⟩, ⟨3⟩, ⟨1⟩, .member, 0, 0⟩], by decide⟩
    apiKeys := ⟨[⟨⟨5⟩, ⟨2⟩, "key", "chis_sk_", "hash", none, none, 0, 0⟩], by decide⟩ }

def sampleWorld : World := ⟨sampleDb, [], 0, [], []⟩

/-- A request of the first organization. -/
def sampleRequest : Request :=
  { path := "/api"
    authorization := ""
    orgHeader := Uuid.toString ⟨1⟩
    apiKeyHeader := ""
    query := []
    body := "" }

/-- A listing leaves the second organization alone. -/
theorem others_untouched_sample :
    (∀ res w', (orgScoped sampleEnv ⟨3⟩ .listApiKeys sampleRequest).Runs
      (World.Exec sampleEnv.toPlatform anyChoice (.client 0)) sampleWorld res w' →
      SameRows (· ≠ ⟨1⟩) sampleWorld.db w'.db) ↔ ¬ DeletesForeignKey ⟨1⟩ sampleWorld.db .listApiKeys :=
  others_untouched_iff (Uuid.parse_toString _) ⟨_, rfl⟩

/-- A member of the first organization deletes the key of the second one. -/
theorem foreign_key_deleted :
    Uuid.parse sampleRequest.orgHeader = some ⟨1⟩ ∧
      ∃ w', (orgScoped sampleEnv ⟨3⟩ (.deleteApiKey (Uuid.toString ⟨5⟩)) sampleRequest).Runs
        (World.Exec sampleEnv.toPlatform anyChoice (.client 0)) sampleWorld ⟨204, none⟩ w' ∧
        ¬ SameRows (· ≠ ⟨1⟩) sampleWorld.db w'.db := by
  refine ⟨Uuid.parse_toString _, ?_⟩
  have hk : (⟨⟨5⟩, ⟨2⟩, "key", "chis_sk_", "hash", none, none, 0, 0⟩ : APIKey) ∈
      sampleWorld.db.apiKeys := List.mem_singleton.mpr rfl
  have hm : MembershipRepository.findByUserAndOrgID ⟨3⟩ ⟨1⟩ sampleWorld.db =
      .ok ⟨⟨4⟩, ⟨3⟩, ⟨1⟩, .member, 0, 0⟩ := rfl
  have hA : Uuid.parse sampleRequest.orgHeader = some ⟨1⟩ := Uuid.parse_toString _
  obtain ⟨w', hx, hgone⟩ := deletes_key hA hm (Uuid.parse_toString ⟨5⟩) hk rfl
  exact ⟨w', hx, fun h ↦ hgone ((h.apiKeys _ (by decide)).mpr hk)⟩

end Tenants

end Chis
