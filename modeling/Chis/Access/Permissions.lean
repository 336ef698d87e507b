import Chis.Access.Requests

/-!
# What a request is allowed to do

Before a request touches an organization, its secret, its keys or its invitations, it has passed the
checks of its route: `Permitted` says which, and every operation of every route keeps to it.
-/

namespace Chis.Access

open Program Api

/-! ### What has been checked -/

/-- The request is one of user `u`: its token was one of `u` when the request first looked at the
clock. -/
def RequestedBy (env : Env) (r : Request) (past : List (Event Op.Res)) (u : Uuid) : Prop :=
  ∃ token t, bearerToken r.authorization = some token ∧ [Op.sawTime t] <:+ past ∧
    tokenUser env t token = some u

/-- The user of the request held an admin membership of the organization when it was looked up. -/
def Administers (env : Env) (r : Request) (past : List (Event Op.Res)) (orgID : Uuid) : Prop :=
  ∃ u, ∃ m : Membership, RequestedBy env r past u ∧
    (Stmt.membershipFindByUserAndOrgID u orgID).returned m ∈ past ∧ m.role = .admin

/-- The request names an invitation by its token or by its id. -/
inductive Presents (env : Env) (route : Route) (r : Request) (past : List (Event Op.Res))
    (inv : Invitation) : Prop
  | token (token : String) : route = .acceptInvitation →
    decodeAndValidate AcceptInvitationRequest.fields
      (fun req ↦ fieldErrors env "token" [.required] req.token) r.body = .ok ⟨token⟩ →
    (Stmt.invitationFindByToken token).returned inv ∈ past → Presents env route r past inv
  | id (idParam : String) (id : Uuid) : route = .respondToInvitation idParam →
    Uuid.parse idParam = some id → (Stmt.invitationFindByID id).returned inv ∈ past →
    Presents env route r past inv

/-- The invitation is addressed to user `u`. -/
def Addressed (past : List (Event Op.Res)) (u : Uuid) (inv : Invitation) : Prop :=
  ∃ user : User, (Stmt.userFindByID u).returned user ∈ past ∧ user.email = inv.email

/-- User `u` has presented the invitation, which is addressed to `u` unless it was by its token. -/
structure Entitled (env : Env) (route : Route) (r : Request) (past : List (Event Op.Res)) (u : Uuid)
    (inv : Invitation) : Prop where
  authenticated : RequestedBy env r past u
  presents : Presents env route r past inv
  addressed : route = .acceptInvitation ∨ Addressed past u inv

/-- User `u` is a member of the organization of the invitation. -/
def Member (past : List (Event Op.Res)) (u : Uuid) (inv : Invitation) : Prop :=
  (∃ m : Membership, (Stmt.membershipFindByUserAndOrgID u inv.orgID).returned m ∈ past) ∨
    ∃ m₀ m : Membership, (Stmt.membershipCreate m₀).returned m ∈ past ∧ m₀.userID = u ∧
      m₀.orgID = inv.orgID

/-- The key was drawn by a request to create one, for the organization of its header. -/
structure Mints (env : Env) (route : Route) (r : Request) (past : List (Event Op.Res))
    (k : APIKey) : Prop where
  route : route = .org .createApiKey
  org : Uuid.parse r.orgHeader = some k.orgID
  hash : ∃ bytes, ⟨.rand, (.ok bytes : Except Err (List UInt8))⟩ ∈ past ∧
    k.hashedKey = Helper.hexEncode (env.sha256 (Helper.randomText "chis_sk_" bytes))

/-- What a request has done before each operation that needs permission. -/
def Permitted (env : Env) (route : Route) (r : Request) (past : List (Event Op.Res)) : Op → Prop
  | .sql (.organizationDelete orgID) | .sql (.getSigningSecret orgID)
  | .sql (.rotateSigningSecret orgID _) => Administers env r past orgID
  | .sql (.userCreate user) => user.emailVerified = false
  | .sql (.membershipCreate m) => route = .register ∨ route = .createOrg ∨
    ∃ inv, Entitled env route r past m.userID inv ∧ Addressed past m.userID inv ∧
      inv.orgID = m.orgID
  | .sql (.apiKeyCreate k) => Mints env route r past k
  | .sql (.invitationCreate inv) => Administers env r past inv.orgID
  | .sql (.invitationUpdateStatus id status) =>
    (status = "cancelled" ∧ ∃ orgID, ∃ invs : List Invitation, Administers env r past orgID ∧
      (Stmt.invitationFindByOrgID orgID).returned invs ∈ past ∧ ∃ inv ∈ invs, inv.id = id) ∨
    ((status = "expired" ∨ status = "declined") ∧
      ∃ u inv, Entitled env route r past u inv ∧ inv.id = id) ∨
    (status = "accepted" ∧ ∃ u inv, Entitled env route r past u inv ∧ Addressed past u inv ∧
      Member past u inv ∧ inv.id = id)
  | .sql (.invitationAccept id _) => ∃ u inv, Entitled env route r past u inv ∧
    Addressed past u inv ∧ Member past u inv ∧ inv.id = id
  | .sql (.invitationDelete id) => ∃ orgID email, ∃ inv : Invitation, Administers env r past orgID ∧
    (Stmt.invitationFindByOrgAndEmail orgID email).returned inv ∈ past ∧ inv.id = id
  | _ => True

/-! ### Later events -/

section Later

variable {env : Env} {route : Route} {r : Request} {past past' : List (Event Op.Res)}
  {u orgID : Uuid} {inv : Invitation}

/-- A request is one of one user only. -/
theorem RequestedBy.unique {u' : Uuid} (h : RequestedBy env r past u)
    (h' : RequestedBy env r past u') : u = u' := by
  obtain ⟨token, t, htoken, ht, hu⟩ := h
  obtain ⟨token', t', htoken', ht', hu'⟩ := h'
  have hlast : [Op.sawTime t] = [Op.sawTime t'] :=
    (List.suffix_of_suffix_length_le ht ht' (Nat.le_refl 1)).eq_of_length rfl
  cases hlast
  rw [htoken] at htoken'
  cases htoken'
  exact Option.some.inj (hu.symm.trans hu')

theorem RequestedBy.mono (hsub : past <:+ past') (h : RequestedBy env r past u) :
    RequestedBy env r past' u := by
  obtain ⟨token, t, htoken, ht, hu⟩ := h
  exact ⟨token, t, htoken, ht.trans hsub, hu⟩

theorem Administers.mono (hsub : past <:+ past') (h : Administers env r past orgID) :
    Administers env r past' orgID := by
  obtain ⟨u, m, hu, hm, hrole⟩ := h
  exact ⟨u, m, hu.mono hsub, hsub.subset hm, hrole⟩

theorem Addressed.mono (hsub : past <:+ past') (h : Addressed past u inv) :
    Addressed past' u inv := by
  obtain ⟨user, hu, hemail⟩ := h
  exact ⟨user, hsub.subset hu, hemail⟩

theorem Entitled.mono (hsub : past <:+ past') (h : Entitled env route r past u inv) :
    Entitled env route r past' u inv where
  authenticated := h.authenticated.mono hsub
  presents := by
    cases h.presents with
    | token token hroute hreq hread => exact .token token hroute hreq (hsub.subset hread)
    | id idParam id hroute hparse hread => exact .id idParam id hroute hparse (hsub.subset hread)
  addressed := h.addressed.imp_right (Addressed.mono hsub)

end Later

/-! ### Handlers -/

section Handlers

variable {env : Env} {route : Route} {r : Request} {past : List (Event Op.Res)} {u orgID : Uuid}
  {inv : Invitation}

attribute [local simp] Permitted

/-- The handler does nothing that is not permitted. -/
abbrev Obeys (env : Env) (route : Route) (r : Request) {α : Type} (h : Handler α)
    (past : List (Event Op.Res)) : Prop :=
  Tells (Permitted env route r) (fun _ _ ↦ True) h past

theorem checkExpiry_obeys (h : Entitled env route r past u inv) :
    Tells (Permitted env route r) (fun past' _ ↦ past <:+ past') (checkExpiry inv) past := by
  unfold checkExpiry
  simp only [tells_clock_bind, Permitted, true_and]
  intro t
  have hsub : past <:+ Op.sawTime t :: past := List.suffix_cons _ _
  by_cases ht : inv.expiresAt < t
  · rw [if_pos ht, tells_attempt_bind]
    exact ⟨.inr (.inl ⟨.inl rfl, u, inv, h.mono hsub, rfl⟩), fun _ ↦ tells_fail _,
      fun _ ↦ tells_fail _⟩
  · rw [if_neg ht, tells_pure]
    exact hsub

theorem join_obeys (h : Entitled env route r past u inv) (ha : Addressed past u inv) :
    Obeys env route r (join u inv) past := by
  unfold join Obeys
  rw [tells_attempt_bind]
  refine ⟨trivial, ?_, ?_⟩
  · intro (m : Membership)
    rw [tells_attempt_bind]
    have hsub : past <:+ (Stmt.membershipFindByUserAndOrgID u inv.orgID).returned m :: past :=
      List.suffix_cons _ _
    refine ⟨?_, fun _ ↦ tells_fail _, fun _ ↦ tells_fail _⟩
    exact .inr (.inr ⟨rfl, u, inv, h.mono hsub, ha.mono hsub, .inl ⟨m, List.mem_cons_self⟩, rfl⟩)
  · intro e
    have hsub : past <:+ (Stmt.membershipFindByUserAndOrgID u inv.orgID).failed e :: past :=
      List.suffix_cons _ _
    simp only [tells_query_bind, tells_clock_bind, tells_attempt_bind, Permitted, true_and]
    refine ⟨.inr (.inr ⟨inv, h.mono hsub, ha.mono hsub, rfl⟩), fun (m : Membership) t ↦
      ⟨⟨u, inv, h.mono ?_, ha.mono ?_, ?_, rfl⟩, fun _ ↦ by simp⟩⟩
    · exact List.IsSuffix.trans hsub (List.IsSuffix.trans (List.suffix_cons _ _)
        (List.suffix_cons _ _))
    · exact List.IsSuffix.trans hsub (List.IsSuffix.trans (List.suffix_cons _ _)
        (List.suffix_cons _ _))
    · exact .inr ⟨newMembership u inv.orgID inv.role, m, by simp, rfl, rfl⟩

theorem acceptInvitation_obeys (hu : RequestedBy env r past u) :
    Obeys env .acceptInvitation r (acceptInvitation env u r) past := by
  unfold acceptInvitation Obeys
  simp only [tells_check_bind, tells_query_bind, tells_ite, Permitted, true_and]
  refine fun req hreq (inv : Invitation) ↦ ⟨fun _ ↦ tells_fail_bind _ _, fun _ ↦ ?_⟩
  have h : Entitled env .acceptInvitation r
      ((Stmt.invitationFindByToken req.token).returned inv :: past) u inv :=
    ⟨hu.mono (List.suffix_cons _ _), .token req.token rfl hreq List.mem_cons_self, .inl rfl⟩
  refine tells_bind (Tells.mono (fun past' _ hsub ↦ ?_) (checkExpiry_obeys h))
  simp only [tells_query_bind, tells_ite, Permitted, true_and]
  refine fun (user : User) ↦ ⟨fun _ ↦ tells_fail_bind _ _, fun hemail ↦ ?_⟩
  have hsub' := List.IsSuffix.trans hsub
    (List.suffix_cons ((Stmt.userFindByID u).returned user) past')
  exact join_obeys (h.mono hsub') ⟨user, List.mem_cons_self, Classical.not_not.mp hemail⟩

theorem respondToInvitation_obeys {idParam : String} (hu : RequestedBy env r past u) :
    Obeys env (.respondToInvitation idParam) r (respondToInvitation env u idParam r) past := by
  unfold respondToInvitation Obeys
  split
  · next id hid =>
    simp only [tells_check_bind, tells_query_bind, tells_ite, Permitted, true_and]
    refine fun req _ (user : User) (inv : Invitation) ↦ ⟨fun _ ↦ tells_fail_bind _ _, fun hemail ↦
      ⟨fun _ ↦ tells_fail_bind _ _, fun _ ↦ ?_⟩⟩
    have ha : Addressed ((Stmt.invitationFindByID id).returned inv ::
        (Stmt.userFindByID u).returned user :: past) u inv :=
      ⟨user, by simp, Classical.not_not.mp hemail⟩
    have h : Entitled env (.respondToInvitation idParam) r
        ((Stmt.invitationFindByID id).returned inv :: (Stmt.userFindByID u).returned user :: past)
        u inv :=
      ⟨hu.mono ((List.suffix_cons _ _).trans (List.suffix_cons _ _)),
        .id idParam id rfl hid List.mem_cons_self, .inr ha⟩
    refine tells_bind (Tells.mono (fun past' _ hsub ↦ ?_) (checkExpiry_obeys h))
    rw [tells_ite]
    constructor
    · intro _
      rw [tells_query_bind]
      exact ⟨.inr (.inl ⟨.inr rfl, u, inv, h.mono hsub, rfl⟩), fun _ ↦ (tells_pure _).mpr trivial⟩
    · exact fun _ ↦ join_obeys (h.mono hsub) (ha.mono hsub)
  · simp

theorem cancelInvitation_obeys {idParam : String} (h : Administers env r past orgID) :
    Obeys env route r (cancelInvitation orgID idParam) past := by
  unfold cancelInvitation Obeys
  split
  · next id _ =>
    simp only [tells_query_bind, tells_ite]
    refine ⟨trivial, fun (invs : List Invitation) ↦ ⟨fun _ ↦ tells_fail_bind _ _, fun hany ↦ ?_⟩⟩
    have hmem : ∃ inv ∈ invs, inv.id = id := by simpa using hany
    refine ⟨.inl ⟨rfl, orgID, invs, ?_, List.mem_cons_self, hmem⟩,
      fun _ ↦ (tells_pure _).mpr trivial⟩
    exact h.mono (List.suffix_cons _ _)
  · simp

theorem removeOldInvitation_obeys {email : String} (h : Administers env r past orgID) :
    Tells (Permitted env route r) (fun past' _ ↦ past <:+ past') (removeOldInvitation orgID email)
      past := by
  have hdelete (inv : Invitation) :
      Tells (Permitted env route r) (fun past' _ ↦ past <:+ past')
        (query (.invitationDelete inv.id)
          (fun _ ↦ .app (.internal "failed to remove old invitation")) >>= fun _ ↦ pure ())
        ((Stmt.invitationFindByOrgAndEmail orgID email).returned inv :: past) := by
    rw [tells_query_bind]
    refine ⟨⟨orgID, email, inv, h.mono (List.suffix_cons _ _), List.mem_cons_self, rfl⟩,
      fun _ ↦ (tells_pure _).mpr ?_⟩
    exact (List.suffix_cons _ _).trans (List.suffix_cons _ _)
  unfold removeOldInvitation
  rw [tells_attempt_bind]
  refine ⟨trivial, fun (inv : Invitation) ↦ ?_, fun e ↦ ?_⟩
  · cases hs : inv.status with
    | pending => simp [hs]
    | accepted => simp [hs]
    | expired => simpa only [hs] using hdelete inv
    | cancelled => simpa only [hs] using hdelete inv
  · simp

theorem createInvitation_obeys (h : Administers env r past orgID) :
    Obeys env route r (createInvitation env u orgID r) past := by
  unfold createInvitation
  rw [Obeys, tells_check_bind]
  intro req _
  have hmember : Tells (Permitted env route r) (fun past' _ ↦ past <:+ past')
      (alreadyMember req.email orgID) past := by
    have htwo (e e' : Event Op.Res) : past <:+ e :: e' :: past :=
      (List.suffix_cons _ _).trans (List.suffix_cons _ _)
    simp [alreadyMember, htwo]
  refine tells_bind (Tells.mono (fun past₁ member h₁ ↦ ?_) hmember)
  rw [tells_ite]
  refine ⟨fun _ ↦ tells_fail_bind _ _, fun _ ↦ ?_⟩
  refine tells_bind (Tells.mono (fun past₂ _ h₂ ↦ ?_) (removeOldInvitation_obeys (h.mono h₁)))
  simp only [tells_random_bind, tells_clock_bind, tells_query_bind, tells_attempt_bind, Permitted,
    true_and]
  refine fun bytes t ↦ ⟨?_, fun _ ↦ by simp⟩
  exact h.mono (List.IsSuffix.trans (List.IsSuffix.trans h₁ h₂)
    (List.IsSuffix.trans (List.suffix_cons _ _) (List.suffix_cons _ _)))

theorem createApiKey_obeys (horg : Uuid.parse r.orgHeader = some orgID) :
    Obeys env (.org .createApiKey) r (createApiKey env orgID r) past := by
  unfold createApiKey Obeys
  rw [tells_check_bind]
  intro req _
  rw [tells_random_bind]
  refine ⟨trivial, fun bytes ↦ ?_⟩
  rw [tells_query_bind]
  refine ⟨?_, fun _ ↦ (tells_pure _).mpr trivial⟩
  exact
    { route := rfl
      org := horg
      hash := ⟨bytes, List.mem_cons_self, rfl⟩ }

theorem deleteOrg_obeys (h : Administers env r past orgID) :
    Obeys env route r (deleteOrg env orgID r) past := by
  unfold deleteOrg Obeys
  simp only [tells_check_bind, tells_query_bind, tells_ite, Permitted, true_and]
  refine fun req _ (org : Organization) ↦ ⟨fun _ ↦ tells_fail_bind _ _, fun _ ↦ ?_⟩
  exact ⟨h.mono (List.suffix_cons _ _), fun _ ↦ (tells_pure _).mpr trivial⟩

theorem getSigningSecret_obeys (h : Administers env r past orgID) :
    Obeys env route r (getSigningSecret orgID) past := by
  unfold getSigningSecret Obeys
  rw [tells_query_bind]
  exact ⟨h, fun _ ↦ (tells_pure _).mpr trivial⟩

theorem rotateSigningSecret_obeys (h : Administers env r past orgID) :
    Obeys env route r (rotateSigningSecret orgID) past := by
  unfold rotateSigningSecret Obeys
  rw [tells_random_bind]
  refine ⟨trivial, fun _ ↦ ?_⟩
  rw [tells_query_bind]
  exact ⟨h.mono (List.suffix_cons _ _), fun _ ↦ (tells_pure _).mpr trivial⟩

theorem register_obeys : Obeys env .register r (register env r) past := by
  unfold register Obeys
  simp only [tells_check_bind, tells_random_bind, Permitted, true_and]
  intro req _ salt
  split
  · simp only [tells_query_bind, tells_random_bind, Permitted, true_and]
    exact ⟨rfl, fun (user : User) _ bytes (org : Organization) ↦ ⟨.inl trivial, fun _ ↦ by simp⟩⟩
  · simp

theorem createOrg_obeys : Obeys env .createOrg r (createOrg env u r) past := by
  unfold createOrg Obeys
  simp only [tells_check_bind, tells_random_bind, tells_query_bind, Permitted, true_and]
  exact fun req _ bytes (org : Organization) ↦ ⟨.inr (.inl trivial), fun _ ↦ by simp⟩

/-! ### Routes -/

private theorem wrap_obeys {h : Handler Response} (hh : Obeys env route r h past) :
    (wrap r h).Traces (Permitted env route r) (fun _ _ ↦ True) past :=
  traces_wrap (fun _ ↦ trivial) (fun _ _ _ ↦ trivial) hh

private theorem login_obeys : Obeys env route r (login env r) past := by
  unfold login Obeys
  simp only [tells_check_bind, tells_query_bind, Permitted, true_and]
  intro req _ (user : User) (account : Account)
  cases account.passwordHash with
  | none => exact ⟨trivial, fun e ↦ (e : Empty).elim⟩
  | some hash =>
    rw [tells_ite]
    refine ⟨fun _ ↦ tells_fail_bind _ _, fun _ ↦ ?_⟩
    rw [tells_clock_bind]
    refine ⟨trivial, fun t ↦ ?_⟩
    split <;> simp

-- an evaluation of the program would go down to the digits of an id
attribute [local irreducible] Uuid.parse Uuid.toString in
private theorem send_obeys {orgId : Uuid} : Obeys env route r (send env orgId r) past := by
  unfold send
  rw [Obeys, tells_check_bind]
  intro req _
  simp only []
  split
  · simp
  · refine tells_lift_bind ?_
    unfold Delivery.queueMessage
    rw [Uuid.parse_toString]
    simp [Uuid.parse_toString]

private theorem deleteApiKey_obeys {idParam : String} :
    Obeys env route r (deleteApiKey idParam) past := by
  unfold deleteApiKey
  split <;> simp

private theorem webhookLogs_obeys : Obeys env route r (webhookLogs env orgID r) past := by
  refine tells_lift_bind ?_
  simp [findWebhookLogs]

private theorem webhookLogDetail_obeys {idParam : String} :
    Obeys env route r (webhookLogDetail env orgID idParam) past := by
  unfold webhookLogDetail
  split <;> simp

private theorem admin_obeys {route : AdminRoute} (h : Administers env r past orgID) :
    Obeys env (.org (.admin route)) r (route.handler env u orgID r) past := by
  cases route with
  | createInvitation => exact createInvitation_obeys h
  | listInvitations => simp [AdminRoute.handler, listInvitations]
  | cancelInvitation id => exact cancelInvitation_obeys h
  | deleteOrg => exact deleteOrg_obeys h
  | getSigningSecret => exact getSigningSecret_obeys h
  | rotateSigningSecret => exact rotateSigningSecret_obeys h

private theorem org_obeys {route : OrgRoute} (hu : RequestedBy env r past u)
    (horg : Uuid.parse r.orgHeader = some orgID) :
    (route.handle env u orgID r).Traces (Permitted env (.org route) r) (fun _ _ ↦ True) past := by
  cases route with
  | createApiKey => exact wrap_obeys (createApiKey_obeys horg)
  | listApiKeys => exact wrap_obeys (by simp [listApiKeys])
  | deleteApiKey id => exact wrap_obeys deleteApiKey_obeys
  | stats => exact wrap_obeys (by simp [stats])
  | webhookLogs => exact wrap_obeys webhookLogs_obeys
  | webhookLogDetail id => exact wrap_obeys webhookLogDetail_obeys
  | admin route =>
    refine traces_requireAdmin trivial (fun _ _ _ ↦ trivial) fun m hrole ↦ ?_
    exact wrap_obeys (admin_obeys ⟨u, m, hu.mono (List.suffix_cons _ _), List.mem_cons_self, hrole⟩)

theorem handle_permitted :
    (handle env r route).Traces (Permitted env route r) (fun _ _ ↦ True) [] := by
  have htoken (next : Uuid → Service Response)
      (hnext : ∀ t u, RequestedBy env r [Op.sawTime t] u →
        (next u).Traces (Permitted env route r) (fun _ _ ↦ True) [Op.sawTime t]) :
      (validateToken env r next).Traces (Permitted env route r) (fun _ _ ↦ True) [] :=
    traces_validateToken trivial (fun _ ↦ trivial) fun token t u htoken hu ↦
      hnext t u ⟨token, t, htoken, List.suffix_rfl, hu⟩
  unfold handle
  cases route with
  | register => exact wrap_obeys register_obeys
  | login => exact wrap_obeys login_obeys
  | send =>
    exact traces_validateApiKey (fun _ ↦ trivial) (fun _ ↦ trivial) (fun _ _ _ ↦ trivial) fun _ _ ↦
      wrap_obeys send_obeys
  | listOrgs => exact htoken _ fun t u _ ↦ wrap_obeys (by simp [listOrgs])
  | createOrg => exact htoken _ fun t u _ ↦ wrap_obeys createOrg_obeys
  | acceptInvitation => exact htoken _ fun t u hu ↦ wrap_obeys (acceptInvitation_obeys hu)
  | getPendingInvitations =>
    exact htoken _ fun t u _ ↦ wrap_obeys (by simp [getPendingInvitations])
  | respondToInvitation id =>
    exact htoken _ fun t u hu ↦ wrap_obeys (respondToInvitation_obeys hu)
  | org route =>
    refine htoken _ fun t u hu ↦ traces_validateOrgAccess (fun _ ↦ trivial) (fun _ _ _ ↦ trivial)
      fun orgID m horg ↦ org_obeys (hu.mono (List.suffix_cons _ _)) horg

/-- Whatever its route and its answers, a request does nothing that is not permitted. -/
theorem serve_permitted :
    (serve env route r).Traces (Permitted env route r) (fun _ _ ↦ True) [] := by
  unfold serve
  rw [Prog.monad_bind, Prog.traces_bind]
  exact Prog.Traces.mono (fun _ _ h ↦ h) (fun _ _ _ ↦ ⟨trivial, fun _ ↦ trivial⟩) handle_permitted

end Handlers

end Chis.Access
