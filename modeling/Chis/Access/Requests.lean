import Chis.Api.System

/-!
# What a request has done before it grants access

The operations by which memberships and invitations come about and change, and what the request
that performs one of them has read before: `Justified` holds of every operation of every route.
-/

namespace Chis.Access

open Program Api

/-! ### What a request knows -/

/-- The token of the request was one of user `u` when the clock was looked at. -/
def Authenticated (env : Env) (r : Request) (past : List (Event Op.Res)) (u : Uuid) : Prop :=
  ∃ token t, bearerToken r.authorization = some token ∧ Op.sawTime t ∈ past ∧
    tokenUser env t token = some u

/-- An invitation was read, by its token or by its id. -/
def Read (past : List (Event Op.Res)) (inv : Invitation) : Prop :=
  (∃ token, (Stmt.invitationFindByToken token).returned inv ∈ past) ∨
    ∃ id, (Stmt.invitationFindByID id).returned inv ∈ past

/-- The request that created an organization is creating its first membership. -/
structure Founds (env : Env) (route : Route) (r : Request) (past : List (Event Op.Res))
    (m : Membership) : Prop where
  org : ∃ (o org : Organization), (Stmt.organizationCreate o).returned org ∈ past ∧ org.id = m.orgID
  role : m.role = .admin
  user : (route = .register ∧ ∃ u user : User, (Stmt.userCreate u).returned user ∈ past ∧
      user.id = m.userID) ∨
    (route = .createOrg ∧ Authenticated env r past m.userID)

/-- The one invitation that a request has read was pending. -/
structure Pending (past : List (Event Op.Res)) (inv : Invitation) : Prop where
  read : Read past inv
  only : ∀ inv', Read past inv' → inv' = inv
  pending : inv.status = .pending

/-- A request of user `u` takes up an invitation to it, which was pending when it was read and not
past its time when the clock was looked at next. -/
structure TakesUp (env : Env) (route : Route) (r : Request) (past : List (Event Op.Res)) (u : Uuid)
    (inv : Invitation) : Prop extends Pending past inv where
  route : route = .acceptInvitation ∨ ∃ id, route = .respondToInvitation id
  authenticated : Authenticated env r past u
  addressee : ∃ user : User, (Stmt.userFindByID u).returned user ∈ past ∧ user.email = inv.email
  inTime : ∃ t older newer, past = newer ++ Op.sawTime t :: older ∧ Read older inv ∧
    t ≤ inv.expiresAt

/-- An admin of the organization is inviting somebody. -/
structure Invites (env : Env) (route : Route) (r : Request) (past : List (Event Op.Res))
    (inv : Invitation) : Prop where
  route : route = .org (.admin .createInvitation)
  admin : ∃ (u : Uuid) (m : Membership), inv.invitedBy = some u ∧ Authenticated env r past u ∧
    (Stmt.membershipFindByUserAndOrgID u inv.orgID).returned m ∈ past ∧ m.role = .admin
  status : inv.status = .pending

/-- What a request has read before each operation that concerns memberships or invitations. -/
def Justified (env : Env) (route : Route) (r : Request) (past : List (Event Op.Res)) : Op → Prop
  | .sql (.membershipCreate m) =>
    Founds env route r past m ∨
      ∃ inv, TakesUp env route r past m.userID inv ∧ inv.orgID = m.orgID ∧ inv.role = m.role
  | .sql (.invitationCreate inv) => Invites env route r past inv
  | .sql (.invitationUpdateStatus id status) =>
    (status = "cancelled" ∧ ∃ orgID, ∃ invs : List Invitation,
      (Stmt.invitationFindByOrgID orgID).returned invs ∈ past ∧ ∃ inv ∈ invs, inv.id = id) ∨
    ((status = "expired" ∨ status = "accepted" ∨ status = "declined") ∧
      ∃ inv, Pending past inv ∧ inv.id = id)
  | .sql (.invitationAccept id _) => ∃ u inv, TakesUp env route r past u inv ∧ inv.id = id
  | .sql (.invitationDelete id) => ∃ inv : Invitation,
    (∃ orgID email, (Stmt.invitationFindByOrgAndEmail orgID email).returned inv ∈ past) ∧
      inv.id = id ∧ (inv.status = .expired ∨ inv.status = .cancelled)
  | _ => True

/-! ### Later events -/

section Later

variable {env : Env} {route : Route} {r : Request} {past : List (Event Op.Res)} {u : Uuid}
  {inv : Invitation} {e : Event Op.Res}

theorem Authenticated.cons (h : Authenticated env r past u) : Authenticated env r (e :: past) u := by
  obtain ⟨token, t, htoken, ht, hu⟩ := h
  exact ⟨token, t, htoken, List.mem_cons_of_mem _ ht, hu⟩

theorem read_cons : Read (e :: past) inv ↔ Read [e] inv ∨ Read past inv := by
  simp only [Read, List.mem_cons, List.not_mem_nil, or_false]
  constructor
  · rintro (⟨token, h | h⟩ | ⟨id, h | h⟩)
    · exact .inl (.inl ⟨token, h⟩)
    · exact .inr (.inl ⟨token, h⟩)
    · exact .inl (.inr ⟨id, h⟩)
    · exact .inr (.inr ⟨id, h⟩)
  · rintro ((⟨token, h⟩ | ⟨id, h⟩) | ⟨token, h⟩ | ⟨id, h⟩)
    · exact .inl ⟨token, .inl h⟩
    · exact .inr ⟨id, .inl h⟩
    · exact .inl ⟨token, .inr h⟩
    · exact .inr ⟨id, .inr h⟩

theorem Pending.cons (h : Pending past inv) (he : ∀ inv, ¬ Read [e] inv) : Pending (e :: past) inv where
  read := read_cons.mpr (.inr h.read)
  only inv' h' := h.only inv' ((read_cons.mp h').resolve_left (he inv'))
  pending := h.pending

theorem TakesUp.cons (h : TakesUp env route r past u inv) (he : ∀ inv, ¬ Read [e] inv) :
    TakesUp env route r (e :: past) u inv where
  toPending := h.toPending.cons he
  route := h.route
  authenticated := h.authenticated.cons
  addressee := by
    obtain ⟨user, hu, hemail⟩ := h.addressee
    exact ⟨user, List.mem_cons_of_mem _ hu, hemail⟩
  inTime := by
    obtain ⟨t, older, newer, rfl, hread, ht⟩ := h.inTime
    exact ⟨t, older, e :: newer, rfl, hread, ht⟩

end Later

/-! ### Handlers -/

section Handlers

variable {env : Env} {route : Route} {r : Request} {past : List (Event Op.Res)}

attribute [local simp] Justified

/-- The handler does nothing that is not justified. -/
abbrev Careful (env : Env) (route : Route) (r : Request) {α : Type} (h : Handler α)
    (past : List (Event Op.Res)) : Prop :=
  Tells (Justified env route r) (fun _ _ ↦ True) h past

theorem register_careful : Careful env .register r (register env r) past := by
  unfold register
  simp only [tells_check_bind, tells_random_bind, Justified, true_and]
  intro req _ salt
  split
  · simp only [tells_query_bind, tells_random_bind, Justified, true_and]
    refine fun (user : User) _ bytes (org : Organization) ↦ ⟨.inl ?_, fun _ ↦ by simp⟩
    exact
      { org := ⟨_, org, List.mem_cons_self, rfl⟩
        role := rfl
        user := .inl ⟨rfl, newUser req, user, by simp, rfl⟩ }
  · simp

theorem createOrg_careful {u : Uuid} (hu : Authenticated env r past u) :
    Careful env .createOrg r (createOrg env u r) past := by
  unfold createOrg
  simp only [tells_check_bind, tells_random_bind, tells_query_bind, Justified, true_and]
  refine fun req _ bytes (org : Organization) ↦ ⟨.inl ?_, fun _ ↦ by simp⟩
  exact
    { org := ⟨_, org, List.mem_cons_self, rfl⟩
      role := rfl
      user := .inr ⟨rfl, hu.cons.cons⟩ }

/-- Past its check, an invitation is in time. -/
theorem checkExpiry_careful {inv : Invitation} (h : Pending past inv) :
    Tells (Justified env route r) (fun past' _ ↦ ∃ t, past' = Op.sawTime t :: past ∧
      t ≤ inv.expiresAt) (checkExpiry inv) past := by
  unfold checkExpiry
  simp only [tells_clock_bind, Justified, true_and]
  intro t
  by_cases ht : inv.expiresAt < t
  · rw [if_pos ht, tells_attempt_bind]
    refine ⟨.inr ⟨.inl rfl, inv, h.cons fun _ ↦ by simp [Read], rfl⟩, ?_, ?_⟩
    · exact fun _ ↦ tells_fail _
    · exact fun _ ↦ tells_fail _
  · rw [if_neg ht, tells_pure]
    exact ⟨t, rfl, Int.not_lt.mp ht⟩

theorem join_careful {u : Uuid} {inv : Invitation} (h : TakesUp env route r past u inv) :
    Careful env route r (join u inv) past := by
  unfold join
  simp only [tells_attempt_bind, Justified, true_and]
  constructor
  · intro (m : Membership)
    have hm : Pending ((Stmt.membershipFindByUserAndOrgID u inv.orgID).returned m :: past) inv :=
      h.toPending.cons fun _ ↦ by simp [Read]
    exact ⟨.inr ⟨.inr (.inl trivial), inv, hm, rfl⟩, fun _ ↦ tells_fail _, fun _ ↦ tells_fail _⟩
  · intro e
    have h₁ := h.cons (e := (Stmt.membershipFindByUserAndOrgID u inv.orgID).failed e)
      fun _ ↦ by simp [Read]
    simp only [tells_query_bind, tells_clock_bind, tells_attempt_bind, Justified, true_and]
    refine ⟨.inr ⟨inv, h₁, rfl, rfl⟩, fun (m : Membership) t ↦ ⟨⟨u, inv, ?_, rfl⟩, fun _ ↦ by simp⟩⟩
    exact (h₁.cons fun _ ↦ by simp [Read]).cons fun _ ↦ by simp [Read]

theorem acceptInvitation_careful {u : Uuid} {t₀ : Time} (hu : Authenticated env r [Op.sawTime t₀] u) :
    Careful env .acceptInvitation r (acceptInvitation env u r) [Op.sawTime t₀] := by
  unfold acceptInvitation
  simp only [tells_check_bind, tells_query_bind, tells_ite, Justified, true_and]
  refine fun req _ (inv : Invitation) ↦ ⟨fun _ ↦ tells_fail_bind _ _, fun hs ↦ ?_⟩
  have hread : Read [(Stmt.invitationFindByToken req.token).returned inv, Op.sawTime t₀] inv :=
    .inl ⟨req.token, List.mem_cons_self⟩
  have hpending : Pending [(Stmt.invitationFindByToken req.token).returned inv, Op.sawTime t₀] inv :=
    ⟨hread, fun inv' h ↦ by simpa [Read] using h, Classical.not_not.mp hs⟩
  refine tells_bind (Tells.mono ?_ (checkExpiry_careful hpending))
  rintro _ - ⟨t, rfl, ht⟩
  simp only [tells_query_bind, tells_ite, Justified, true_and]
  refine fun (user : User) ↦ ⟨fun _ ↦ tells_fail_bind _ _, fun hemail ↦ join_careful ?_⟩
  exact
    { toPending := (hpending.cons fun _ ↦ by simp [Read]).cons fun _ ↦ by simp [Read]
      route := .inl rfl
      authenticated := hu.cons.cons.cons
      addressee := ⟨user, List.mem_cons_self, Classical.not_not.mp hemail⟩
      inTime := ⟨t, _, [(Stmt.userFindByID u).returned user], rfl, hread, ht⟩ }

theorem respondToInvitation_careful {u : Uuid} {idParam : String} {t₀ : Time}
    (hu : Authenticated env r [Op.sawTime t₀] u) :
    Careful env (.respondToInvitation idParam) r (respondToInvitation env u idParam r)
      [Op.sawTime t₀] := by
  unfold respondToInvitation
  split
  · next id _ =>
    simp only [tells_check_bind, tells_query_bind, tells_ite, Justified, true_and]
    refine fun req _ (user : User) (inv : Invitation) ↦ ⟨fun _ ↦ tells_fail_bind _ _, fun hemail ↦
      ⟨fun _ ↦ tells_fail_bind _ _, fun hs ↦ ?_⟩⟩
    have hread : Read [(Stmt.invitationFindByID id).returned inv,
        (Stmt.userFindByID u).returned user, Op.sawTime t₀] inv := .inr ⟨id, List.mem_cons_self⟩
    have hpending : Pending [(Stmt.invitationFindByID id).returned inv,
        (Stmt.userFindByID u).returned user, Op.sawTime t₀] inv :=
      ⟨hread, fun inv' h ↦ by simpa [Read] using h, Classical.not_not.mp hs⟩
    refine tells_bind (Tells.mono ?_ (checkExpiry_careful hpending))
    rintro _ - ⟨t, rfl, ht⟩
    have hpending' := hpending.cons (e := Op.sawTime t) fun _ ↦ by simp [Read]
    rw [tells_ite]
    constructor
    · intro _
      rw [tells_query_bind]
      exact ⟨.inr ⟨.inr (.inr rfl), inv, hpending', rfl⟩, fun _ ↦ (tells_pure _).mpr trivial⟩
    · intro _
      refine join_careful ?_
      exact
        { toPending := hpending'
          route := .inr ⟨idParam, rfl⟩
          authenticated := hu.cons.cons.cons
          addressee := ⟨user, by simp, Classical.not_not.mp hemail⟩
          inTime := ⟨t, _, [], rfl, hread, ht⟩ }
  · simp

theorem cancelInvitation_careful {orgID : Uuid} {idParam : String} :
    Careful env route r (cancelInvitation orgID idParam) past := by
  unfold cancelInvitation
  split
  · next id _ =>
    simp only [tells_query_bind, tells_ite, Justified, true_and]
    refine fun (invs : List Invitation) ↦ ⟨fun _ ↦ tells_fail_bind _ _, fun hany ↦ ?_⟩
    have hmem : ∃ inv ∈ invs, inv.id = id := by simpa using hany
    exact ⟨.inl ⟨orgID, invs, List.mem_cons_self, hmem⟩, fun _ ↦ (tells_pure _).mpr trivial⟩
  · simp

theorem removeOldInvitation_careful {orgID : Uuid} {email : String} :
    Tells (Justified env route r) (fun past' _ ↦ past ⊆ past') (removeOldInvitation orgID email)
      past := by
  have hdelete (inv : Invitation) (hs : inv.status = .expired ∨ inv.status = .cancelled) :
      Tells (Justified env route r) (fun past' _ ↦ past ⊆ past')
        (query (.invitationDelete inv.id)
          (fun _ ↦ .app (.internal "failed to remove old invitation")) >>= fun _ ↦ pure ())
        ((Stmt.invitationFindByOrgAndEmail orgID email).returned inv :: past) := by
    rw [tells_query_bind]
    refine ⟨⟨inv, ⟨orgID, email, List.mem_cons_self⟩, rfl, hs⟩, fun _ ↦ (tells_pure _).mpr ?_⟩
    exact fun e he ↦ List.mem_cons_of_mem _ (List.mem_cons_of_mem _ he)
  unfold removeOldInvitation
  rw [tells_attempt_bind]
  refine ⟨trivial, fun (inv : Invitation) ↦ ?_, fun e ↦ ?_⟩
  · cases hs : inv.status with
    | pending => simp [hs]
    | accepted => simp [hs]
    | expired => simpa only [hs] using hdelete inv (.inl hs)
    | cancelled => simpa only [hs] using hdelete inv (.inr hs)
  · simp

theorem createInvitation_careful {u orgID : Uuid} {m : Membership} (hu : Authenticated env r past u)
    (hm : (Stmt.membershipFindByUserAndOrgID u orgID).returned m ∈ past) (hrole : m.role = .admin) :
    Careful env (.org (.admin .createInvitation)) r (createInvitation env u orgID r) past := by
  unfold createInvitation
  rw [Careful, tells_check_bind]
  intro req _
  have hmember : Tells (Justified env (.org (.admin .createInvitation)) r)
      (fun past' _ ↦ past ⊆ past') (alreadyMember req.email orgID) past := by
    simp [alreadyMember]
  refine tells_bind (Tells.mono (fun past₁ member h₁ ↦ ?_) hmember)
  rw [tells_ite]
  refine ⟨fun _ ↦ tells_fail_bind _ _, fun _ ↦ ?_⟩
  refine tells_bind (Tells.mono (fun past₂ _ h₂ ↦ ?_) removeOldInvitation_careful)
  simp only [tells_random_bind, tells_clock_bind, tells_query_bind, tells_attempt_bind, Justified,
    true_and]
  have hsub : past ⊆ past₂ := List.Subset.trans h₁ h₂
  refine fun bytes t ↦ ⟨?_, fun _ ↦ by simp⟩
  obtain ⟨token, t', htoken, ht', hu'⟩ := hu
  exact
    { route := rfl
      admin := ⟨u, m, rfl, ⟨token, t', htoken, by simp [hsub ht'], hu'⟩, by
        simp only [List.mem_cons]
        exact .inr (.inr (hsub hm)), hrole⟩
      status := rfl }

/-! ### Routes -/

private theorem wrap_careful {h : Handler Response} (hh : Careful env route r h past) :
    (wrap r h).Traces (Justified env route r) (fun _ _ ↦ True) past :=
  traces_wrap (fun _ ↦ trivial) (fun _ _ _ ↦ trivial) hh

private theorem login_careful : Careful env route r (login env r) past := by
  unfold login
  simp only [tells_check_bind, tells_query_bind, Justified, true_and]
  intro req _ (user : User) (account : Account)
  cases account.passwordHash with
  | none => exact ⟨trivial, fun e ↦ (e : Empty).elim⟩
  | some hash =>
    rw [tells_ite]
    refine ⟨fun _ ↦ tells_fail_bind _ _, fun _ ↦ ?_⟩
    rw [tells_clock_bind]
    refine ⟨trivial, fun t ↦ ?_⟩
    split <;> simp

-- an evaluation of the program would go down to the digits of an id
attribute [local irreducible] Uuid.parse Uuid.toString in
private theorem send_careful {orgId : Uuid} : Careful env route r (send env orgId r) past := by
  unfold send
  rw [Careful, tells_check_bind]
  intro req _
  simp only []
  split
  · simp
  · refine tells_lift_bind ?_
    unfold Delivery.queueMessage
    rw [Uuid.parse_toString]
    simp [Uuid.parse_toString]

private theorem createApiKey_careful {orgID : Uuid} :
    Careful env route r (createApiKey env orgID r) past := by
  simp [createApiKey]

private theorem deleteApiKey_careful {idParam : String} :
    Careful env route r (deleteApiKey idParam) past := by
  unfold deleteApiKey
  split <;> simp

private theorem webhookLogs_careful {orgID : Uuid} :
    Careful env route r (webhookLogs env orgID r) past := by
  refine tells_lift_bind ?_
  simp [findWebhookLogs]

private theorem webhookLogDetail_careful {orgID : Uuid} {idParam : String} :
    Careful env route r (webhookLogDetail env orgID idParam) past := by
  unfold webhookLogDetail
  split <;> simp

private theorem admin_careful {route : AdminRoute} {u orgID : Uuid} {m : Membership}
    (hu : Authenticated env r past u)
    (hm : (Stmt.membershipFindByUserAndOrgID u orgID).returned m ∈ past) (hrole : m.role = .admin) :
    Careful env (.org (.admin route)) r (route.handler env u orgID r) past := by
  cases route with
  | createInvitation => exact createInvitation_careful hu hm hrole
  | listInvitations => simp [AdminRoute.handler, listInvitations]
  | cancelInvitation id => exact cancelInvitation_careful
  | deleteOrg => simp [AdminRoute.handler, deleteOrg]
  | getSigningSecret => simp [AdminRoute.handler, getSigningSecret]
  | rotateSigningSecret => simp [AdminRoute.handler, rotateSigningSecret]

private theorem org_careful {route : OrgRoute} {u orgID : Uuid} (hu : Authenticated env r past u) :
    (route.handle env u orgID r).Traces (Justified env (.org route) r) (fun _ _ ↦ True) past := by
  cases route with
  | createApiKey => exact wrap_careful createApiKey_careful
  | listApiKeys => exact wrap_careful (by simp [listApiKeys])
  | deleteApiKey id => exact wrap_careful deleteApiKey_careful
  | stats => exact wrap_careful (by simp [stats])
  | webhookLogs => exact wrap_careful webhookLogs_careful
  | webhookLogDetail id => exact wrap_careful webhookLogDetail_careful
  | admin route =>
    refine traces_requireAdmin trivial (fun _ _ _ ↦ trivial) fun m hrole ↦ ?_
    exact wrap_careful (admin_careful hu.cons List.mem_cons_self hrole)

theorem handle_careful : (handle env r route).Traces (Justified env route r) (fun _ _ ↦ True) [] := by
  have htoken (next : Uuid → Service Response)
      (hnext : ∀ t u, Authenticated env r [Op.sawTime t] u →
        (next u).Traces (Justified env route r) (fun _ _ ↦ True) [Op.sawTime t]) :
      (validateToken env r next).Traces (Justified env route r) (fun _ _ ↦ True) [] :=
    traces_validateToken trivial (fun _ ↦ trivial) fun token t u htoken hu ↦
      hnext t u ⟨token, t, htoken, List.mem_singleton.mpr rfl, hu⟩
  unfold handle
  cases route with
  | register => exact wrap_careful register_careful
  | login => exact wrap_careful login_careful
  | send =>
    exact traces_validateApiKey (fun _ ↦ trivial) (fun _ ↦ trivial) (fun _ _ _ ↦ trivial) fun _ _ ↦
      wrap_careful send_careful
  | listOrgs => exact htoken _ fun t u _ ↦ wrap_careful (by simp [listOrgs])
  | createOrg => exact htoken _ fun t u hu ↦ wrap_careful (createOrg_careful hu)
  | acceptInvitation => exact htoken _ fun t u hu ↦ wrap_careful (acceptInvitation_careful hu)
  | getPendingInvitations =>
    exact htoken _ fun t u _ ↦ wrap_careful (by simp [getPendingInvitations])
  | respondToInvitation id =>
    exact htoken _ fun t u hu ↦ wrap_careful (respondToInvitation_careful hu)
  | org route =>
    refine htoken _ fun t u hu ↦ traces_validateOrgAccess (fun _ ↦ trivial) (fun _ _ _ ↦ trivial)
      fun orgID m _ ↦ org_careful hu.cons

/-- Whatever its route and its answers, a request does nothing that is not justified by what it has
read before. -/
theorem serve_careful :
    (serve env route r).Traces (Justified env route r) (fun _ _ ↦ True) [] := by
  unfold serve
  rw [Prog.monad_bind, Prog.traces_bind]
  exact Prog.Traces.mono (fun _ _ h ↦ h) (fun _ _ _ ↦ ⟨trivial, fun _ ↦ trivial⟩) handle_careful

end Handlers

end Chis.Access
