import Chis.Access.Accepting
import Chis.Responses.Users

/-!
# What a user is offered

The organizations that `ListOrgs` shows are those whose requests `ValidateOrgAccess` lets through, with
the role that `RequireAdmin` goes by. The invitations that `GetPendingInvitations` shows are those that
`RespondToInvitation` lets the user accept, except for the very instant at which one expires.
-/

namespace Chis.Access

open Program Api

/-! ### Organizations -/

/-- What `ListOrgs` answers. -/
def orgListing (orgs : List MembershipWithOrg) : Response :=
  writeJSON 200 (.arr (orgs.map fun m ↦
    .obj [("id", .str m.orgID.toString), ("name", .str m.orgName), ("slug", .str m.orgSlug),
      ("role", .str m.role.label)]))

/-- A middleware passes a request on to `next`, or answers with `code`. -/
def Passes (env : Env) (i : Proc) (w : World) (code : Nat) (next : Service Response) (passes : Prop)
    (p : Service Response) : Prop :=
  ∀ res w', p.Runs (available env i) w res w' →
    (passes ∧ ∃ w₁, w₁.db = w.db ∧ next.Runs (available env i) w₁ res w') ∨
      ¬ passes ∧ res.code = code ∧ w'.db = w.db

/-- The organizations shown are those that the middlewares let the user into, each once. -/
structure Offered (env : Env) (w : World) (u : Uuid) (orgs : List MembershipWithOrg) : Prop where
  once : (orgs.map MembershipWithOrg.orgID).Nodup
  named : ∀ m ∈ orgs, ∃ o ∈ w.db.organizations, o.id = m.orgID ∧ o.name = m.orgName ∧
    o.slug = m.orgSlug
  member : ∀ (i : Proc) (r : Request) (orgID : Uuid) (next : Uuid → Service Response),
    Uuid.parse r.orgHeader = some orgID →
    Passes env i w 403 (next orgID) (∃ m ∈ orgs, m.orgID = orgID) (validateOrgAccess r u next)
  admin : ∀ (i : Proc) (orgID : Uuid) (next : Service Response),
    Passes env i w 403 next (∃ m ∈ orgs, m.orgID = orgID ∧ m.role = .admin)
      (requireAdmin u orgID next)

section Organizations

variable {env : Env} {i : Proc} {w w' : World} {u orgID : Uuid} {tie : Uuid → Nat}

private theorem mem_findAllByUserID {x : MembershipWithOrg} :
    x ∈ MembershipRepository.findAllByUserID tie u w.db ↔
      ∃ m ∈ w.db.memberships, m.userID = u ∧ ∃ o ∈ w.db.organizations, o.id = m.orgID ∧
        x = ⟨m.orgID, o.name, o.slug, m.role⟩ := by
  simp only [MembershipRepository.findAllByUserID, List.mem_filterMap, mem_orderBy, List.mem_filter,
    decide_eq_true_eq, Option.map_eq_some_iff, and_assoc, Relational.Table.find?_eq_some_iff]
  simp only [eq_comm, Relational.Table.mem_def]

/-- The list has the memberships of the user. -/
private theorem listed_iff (hw : w.Sound) {role : Role} :
    (∃ m ∈ MembershipRepository.findAllByUserID tie u w.db, m.orgID = orgID ∧ m.role = role) ↔
      ∃ m ∈ w.db.memberships, m.userID = u ∧ m.orgID = orgID ∧ m.role = role := by
  constructor
  · rintro ⟨x, hx, rfl, rfl⟩
    obtain ⟨m, hm, hu, o, -, -, rfl⟩ := mem_findAllByUserID.mp hx
    exact ⟨m, hm, hu, rfl, rfl⟩
  · rintro ⟨m, hm, hu, rfl, rfl⟩
    obtain ⟨o, ho, hid⟩ := hw.references.memberships m hm
    exact ⟨_, mem_findAllByUserID.mpr ⟨m, hm, hu, o, ho, hid, rfl⟩, rfl, rfl⟩

private theorem membership_read {y : Except Err Membership}
    (hx : available env i (.sql (.membershipFindByUserAndOrgID u orgID)) w y w') :
    MembershipRepository.findByUserAndOrgID u orgID w.db = y ∧ w'.db = w.db := by
  obtain ⟨ch, hexec, -⟩ := World.Exec.sql_faultless hx
  exact ⟨(Prod.mk.inj hexec).1, (Prod.mk.inj hexec).2.symm⟩

private theorem passes_org {r : Request} {next : Uuid → Service Response}
    (hparse : Uuid.parse r.orgHeader = some orgID) :
    Passes env i w 403 (next orgID) (∃ m ∈ w.db.memberships, m.userID = u ∧ m.orgID = orgID)
      (validateOrgAccess r u next) := by
  intro res w' hrun
  have hheader : r.orgHeader ≠ "" := by
    intro he
    rw [he, Uuid.parse_empty] at hparse
    cases hparse
  unfold validateOrgAccess at hrun
  simp only [if_neg hheader, hparse] at hrun
  obtain ⟨y, w₁, hx, hrun⟩ := hrun
  obtain ⟨hy, hd⟩ := membership_read hx
  cases y with
  | ok m =>
    obtain ⟨hm, hu, ho⟩ := MembershipRepository.findByUserAndOrgID_ok hy
    exact .inl ⟨⟨m, hm, hu, ho⟩, w₁, hd, hrun⟩
  | error e =>
    obtain ⟨rfl, rfl⟩ := hrun
    refine .inr ⟨?_, rfl, hd⟩
    rintro ⟨m, hm, hu, ho⟩
    exact MembershipRepository.findByUserAndOrgID_error hy m hm hu ho

private theorem passes_admin (hw : w.Sound) {next : Service Response} :
    Passes env i w 403 next
      (∃ m ∈ w.db.memberships, m.userID = u ∧ m.orgID = orgID ∧ m.role = .admin)
      (requireAdmin u orgID next) := by
  intro res w' hrun
  obtain ⟨y, w₁, hx, hrun⟩ := hrun
  obtain ⟨hy, hd⟩ := membership_read hx
  cases y with
  | ok m =>
    obtain ⟨hm, hu, ho⟩ := MembershipRepository.findByUserAndOrgID_ok hy
    by_cases hrole : m.role = .admin
    · change (if m.role = .admin then next else _).Runs _ _ _ _ at hrun
      rw [if_pos hrole] at hrun
      exact .inl ⟨⟨m, hm, hu, ho, hrole⟩, w₁, hd, hrun⟩
    · change (if m.role = .admin then next else _).Runs _ _ _ _ at hrun
      rw [if_neg hrole] at hrun
      obtain ⟨rfl, rfl⟩ := hrun
      refine .inr ⟨?_, rfl, hd⟩
      rintro ⟨m', hm', hu', ho', hrole'⟩
      -- A user has one membership of an organization.
      have : m' = m := by
        apply hw.unique.memberships m' hm' m hm
        show (m'.userID, m'.orgID) = (m.userID, m.orgID)
        rw [hu, ho, hu', ho']
      exact hrole (this ▸ hrole')
  | error e =>
    obtain ⟨rfl, rfl⟩ := hrun
    refine .inr ⟨?_, rfl, hd⟩
    rintro ⟨m, hm, hu, ho, -⟩
    exact MembershipRepository.findByUserAndOrgID_error hy m hm hu ho

private theorem listed_once (hw : w.Sound) :
    ((MembershipRepository.findAllByUserID tie u w.db).map MembershipWithOrg.orgID).Nodup := by
  generalize hrows : orderBy Membership.createdAt (fun m ↦ tie m.id)
    (w.db.memberships.rows.filter fun m ↦ m.userID = u) = rows
  have hmem {m : Membership} (hm : m ∈ rows) : m ∈ w.db.memberships ∧ m.userID = u := by
    rw [← hrows, mem_orderBy, List.mem_filter, decide_eq_true_eq] at hm
    exact hm
  have hnodup : rows.Nodup := by
    rw [← hrows, (orderBy_perm _ _ _).nodup_iff]
    exact (List.Nodup.of_map _ w.db.memberships.nodup).filter _
  have hmap : (MembershipRepository.findAllByUserID tie u w.db).map MembershipWithOrg.orgID =
      rows.map Membership.orgID := by
    rw [MembershipRepository.findAllByUserID, hrows, List.map_filterMap, ← List.filterMap_eq_map]
    apply List.filterMap_congr
    intro m hm
    obtain ⟨o, ho, hid⟩ := hw.references.memberships m (hmem hm).1
    rw [(w.db.organizations.find?_eq_some_iff _ _).mpr ⟨ho, hid⟩]
    rfl
  rw [hmap]
  apply List.Nodup.map_on _ hnodup
  intro m hm m' hm' he
  apply hw.unique.memberships m (hmem hm).1 m' (hmem hm').1
  show (m.userID, m.orgID) = (m'.userID, m'.orgID)
  rw [(hmem hm).2, (hmem hm').2, he]

theorem listOrgs_offers (hw : w.Sound) :
    (listOrgs u).run.wp (available env i) (fun x w' ↦ w'.db = w.db ∧
      ∃ orgs, x = .ok (orgListing orgs) ∧ Offered env w u orgs) w := by
  unfold listOrgs
  rw [wp_query_bind]
  constructor
  · intro (orgs : List MembershipWithOrg) w₁ hx
    obtain ⟨ch, hexec, -⟩ := World.Exec.sql_faultless hx
    obtain ⟨horgs, hd⟩ := Prod.mk.inj hexec
    obtain rfl : MembershipRepository.findAllByUserID ch.tie u w.db = orgs := Except.ok.inj horgs
    refine ⟨hd.symm, _, rfl, ?_⟩
    constructor
    · exact listed_once hw
    · intro x hx
      obtain ⟨m, -, -, o, ho, hid, rfl⟩ := mem_findAllByUserID.mp hx
      exact ⟨o, ho, hid, rfl, rfl⟩
    · intro j r orgID next hparse res w' hrun
      have hiff : (∃ m ∈ MembershipRepository.findAllByUserID ch.tie u w.db, m.orgID = orgID) ↔
          ∃ m ∈ w.db.memberships, m.userID = u ∧ m.orgID = orgID := by
        constructor
        · rintro ⟨m, hm, ho⟩
          obtain ⟨m', hm', hu, ho', -⟩ := (listed_iff hw).mp ⟨m, hm, ho, rfl⟩
          exact ⟨m', hm', hu, ho'⟩
        · rintro ⟨m, hm, hu, ho⟩
          obtain ⟨m', hm', ho', -⟩ := (listed_iff hw).mpr ⟨m, hm, hu, ho, rfl⟩
          exact ⟨m', hm', ho'⟩
      rw [hiff]
      exact passes_org hparse res w' hrun
    · intro j orgID next res w' hrun
      rw [listed_iff hw]
      exact passes_admin hw res w' hrun
  · intro e w₁ hx
    obtain ⟨ch, hexec, -⟩ := World.Exec.sql_faultless hx
    cases congrArg Prod.fst hexec

end Organizations

/-! ### Invitations -/

/-- What `GetPendingInvitations` answers. -/
def pendingListing (env : Env) (offers : List PendingInvitation) : Response :=
  writeJSON 200 (.arr (offers.map fun p ↦
    .obj [("id", .str p.id.toString), ("orgName", .str p.orgName), ("orgSlug", .str p.orgSlug),
      ("role", .str p.role.label),
      ("expiresAt", .str (Calendar.rfc3339Nano (env.zone p.expiresAt) p.expiresAt))]))

/-- The body of a request says `accept`. -/
def SaysAccept (env : Env) (r : Request) : Prop :=
  decodeAndValidate RespondToInvitationRequest.fields
    (fun req ↦ fieldErrors env "action" [.required, .oneof ["accept", "decline"]] req.action)
    r.body = .ok ⟨"accept"⟩

/-- How the acceptance of an offer ends: with a membership on the terms shown, unless the user has one
already. -/
inductive TakenUp (user : User) (p : PendingInvitation) (orgID : Uuid) (db : Db) :
    Except Fault Response → Db → Prop
  | joined {m : Membership} {db' : Db} : m ∈ db'.memberships → m ∉ db.memberships →
    m.userID = user.id → m.orgID = orgID → m.role = p.role →
    TakenUp user p orgID db
      (.ok (writeJSON 200 (.obj [("message", .str "invitation accepted"),
        ("orgId", .str orgID.toString), ("orgName", .str p.orgName), ("orgSlug", .str p.orgSlug),
        ("role", .str p.role.label)]))) db'
  | already {m : Membership} {db' : Db} : m ∈ db.memberships → m.userID = user.id → m.orgID = orgID →
    db'.memberships = db.memberships →
    TakenUp user p orgID db
      (.error (.app (.conflict "you are already a member of this organization"))) db'

/-- The invitations shown at time `t` are those that the user can accept. -/
structure Acceptable (env : Env) (w : World) (user : User) (t : Time)
    (offers : List PendingInvitation) : Prop where
  offered : ∀ p ∈ offers, ∃ inv ∈ w.db.invitations, inv.id = p.id ∧
    ∀ idParam r i t' y w', Uuid.parse idParam = some p.id → SaysAccept env r → t' ≤ p.expiresAt →
      (respondToInvitation env user.id idParam r).run.Runs (atTime env t' i) w y w' →
      TakenUp user p inv.orgID w.db y w'.db
  others : ∀ inv ∈ w.db.invitations, (∀ p ∈ offers, p.id ≠ inv.id) → inv.expiresAt ≠ t →
    ∀ idParam r i y w', Uuid.parse idParam = some inv.id → SaysAccept env r →
      (respondToInvitation env user.id idParam r).run.Runs (atTime env t i) w y w' →
      w'.db.memberships = w.db.memberships

section Invitations

variable {env : Env} {i : Proc} {w w' : World} {user : User} {t : Time} {tie : Uuid → Nat}
  {offers : List PendingInvitation}

private theorem mem_findPendingByEmail {p : PendingInvitation}
    (h : InvitationRepository.findPendingByEmail tie t user.email w.db = .ok offers) :
    p ∈ offers ↔ ∃ inv ∈ w.db.invitations, (inv.email = user.email ∧ inv.status = .pending ∧
      t < inv.expiresAt) ∧ ∃ o ∈ w.db.organizations, o.id = inv.orgID ∧
        p = ⟨inv.id, o.name, o.slug, inv.role, inv.expiresAt⟩ := by
  simp only [InvitationRepository.findPendingByEmail, except_bind_ok] at h
  obtain ⟨-, -, h⟩ := h
  cases h
  simp only [List.mem_filterMap, mem_orderBy, List.mem_filter, Bool.and_eq_true, decide_eq_true_eq,
    Option.map_eq_some_iff, and_assoc, Relational.Table.find?_eq_some_iff]
  simp only [eq_comm, Relational.Table.mem_def]

/-- Where an id is left, who is not a member yet joins. -/
private theorem taken_of_joins {inv : Invitation} {o : Organization} {x : Except Fault Response}
    {db' : Db} (hid : ∃ id, ∀ m ∈ w.db.memberships, m.id ≠ id) (huser : user ∈ w.db.users)
    (ho : o ∈ w.db.organizations) (horg : o.id = inv.orgID) (h : Joins t user.id inv w.db x db') :
    TakenUp user ⟨inv.id, o.name, o.slug, inv.role, inv.expiresAt⟩ inv.orgID w.db x db' := by
  cases h with
  | member hm =>
    obtain ⟨hm, hu, horg⟩ := MembershipRepository.findByUserAndOrgID_ok hm
    exact .already hm hu horg rfl
  | refused hno hfail =>
    obtain ⟨id, hfresh⟩ := hid
    refine absurd (MembershipRepository.create_succeeds_iff.mpr ⟨hfresh, ?_, ⟨user, huser, rfl⟩,
      o, ho, horg⟩) (hfail id hfresh)
    intro m hm he
    obtain ⟨hu, ho⟩ := Prod.mk.inj he
    exact MembershipRepository.findByUserAndOrgID_error hno m hm hu ho
  | @joined e id m db₁ hno hc =>
    obtain ⟨hm, memberships, hins, hd⟩ := MembershipRepository.create_ok hc
    have hnew := ((w.db.memberships.insert?_eq_some_iff _ _).mp hins).1
    rw [(w.db.organizations.find?_eq_some_iff _ _).mpr ⟨ho, horg⟩]
    subst hd
    refine .joined ((Relational.Table.mem_of_insert? hins m).mpr (.inr rfl)) (fun hmem ↦ ?_) ?_ ?_ ?_
    · exact (w.db.memberships.find?_eq_none_iff _).mp hnew m hmem rfl
    all_goals rw [hm]; rfl

private theorem acceptable (hw : w.Sound) (hid : ∃ id, ∀ m ∈ w.db.memberships, m.id ≠ id)
    (huser : user ∈ w.db.users)
    (h : InvitationRepository.findPendingByEmail tie t user.email w.db = .ok offers) :
    Acceptable env w user t offers where
  offered p hp := by
    obtain ⟨inv, hinv, ⟨hemail, hpending, -⟩, o, ho, horg, rfl⟩ := (mem_findPendingByEmail h).mp hp
    refine ⟨inv, hinv, rfl, fun idParam r i t' y w' hparse hsays htime hrun ↦ ?_⟩
    have hends : Accepts t' user inv w.db y w'.db :=
      hrun.post (respondToInvitation_ends hw huser hinv hparse hsays)
    generalize w'.db = db' at hends ⊢
    cases hends with
    | stranger hne => exact absurd hemail.symm hne
    | settled _ hs => exact absurd hpending hs
    | late _ _ hlate => exact absurd htime (Int.not_le.mpr hlate)
    | joins _ _ _ hj => exact taken_of_joins hid huser ho horg hj
  others inv hinv hnot htime idParam r i y w' hparse hsays hrun := by
    have hends : Accepts t user inv w.db y w'.db :=
      hrun.post (respondToInvitation_ends hw huser hinv hparse hsays)
    generalize w'.db = db' at hends ⊢
    cases hends with
    | stranger _ hm => exact hm
    | settled => rfl
    | late => rfl
    | joins hemail hpending hle =>
      obtain ⟨o, ho, horg⟩ := hw.references.invitations inv hinv
      have hmem := (mem_findPendingByEmail h).mpr ⟨inv, hinv, ⟨hemail.symm, hpending,
        lt_of_le_of_ne hle (Ne.symm htime)⟩, o, ho, horg, rfl⟩
      exact absurd rfl (hnot _ hmem)

theorem getPendingInvitations_offers (hw : w.Sound)
    (hid : ∃ id, ∀ m ∈ w.db.memberships, m.id ≠ id) (htext : textOk user.email = true)
    (huser : user ∈ w.db.users) :
    (getPendingInvitations env user.id).run.wp (atTime env t i) (fun x w' ↦ w'.db = w.db ∧
      ∃ offers, x = .ok (pendingListing env offers) ∧ Acceptable env w user t offers) w := by
  unfold getPendingInvitations
  rw [wp_query_bind]
  refine ⟨fun user' w₁ h₁ ↦ ?_,
    fun e w₁ h₁ ↦ (nomatch (user_found huser (available_of_atTime h₁)).1)⟩
  obtain ⟨hu, hd₁⟩ := user_found huser (available_of_atTime h₁)
  cases hu
  rw [wp_query_bind]
  constructor
  · intro (offers : List PendingInvitation) w₂ h₂
    obtain ⟨ch, rfl, hexec, -⟩ := atTime_sql h₂
    obtain ⟨hfind, hd₂⟩ := Prod.mk.inj hexec
    rw [hd₁] at hd₂ hfind
    exact ⟨hd₂.symm, offers, rfl, acceptable hw hid huser hfind⟩
  · intro e w₂ h₂
    obtain ⟨ch, -, hexec, -⟩ := atTime_sql h₂
    have hfind := (Prod.mk.inj hexec).1
    rw [InvitationRepository.findPendingByEmail, checkText_eq (by simpa using htext)] at hfind
    cases hfind

end Invitations

/-! ### Runs -/

section Run

variable {env : Env} {sent : Nat → Route × Request} {G : World → Proc → Op → Prop} {now : Time}
  {c : Config Proc World Op Op.Res} {i : Proc} {w' : World} {x : Except Fault Response}

/-- In every run, the organizations shown to a user are those whose requests are let through, and the
role shown is the one that decides about the routes of admins. -/
theorem organizations_offered {u : Uuid} (h : (system env sent G).Reachable (World.start now) c)
    (hrun : (listOrgs u).run.Runs (available env i) c.state x w') :
    w'.db = c.state.db ∧ ∃ orgs, x = .ok (orgListing orgs) ∧ Offered env c.state u orgs :=
  hrun.post (listOrgs_offers (sound h))

/-- In every run, the invitations shown to a user are those that the user can accept, on the terms
shown. -/
theorem invitations_offered {user : User} {t : Time}
    (h : (system env sent G).Reachable (World.start now) c)
    (hid : ∃ id, ∀ m ∈ c.state.db.memberships, m.id ≠ id) (huser : user ∈ c.state.db.users)
    (hrun : (getPendingInvitations env user.id).run.Runs (atTime env t i) c.state x w') :
    w'.db = c.state.db ∧ ∃ offers, x = .ok (pendingListing env offers) ∧
      Acceptable env c.state user t offers :=
  hrun.post (getPendingInvitations_offers (sound h) hid (Responses.emails_ok h user huser) huser)

/-- Ann is shown her organization. -/
theorem organizations_offered_sample : ∃ c x w',
    (system sampleEnv sampleSent anyStep).Reachable (World.start 0) c ∧
      (c.state.db.memberships.rows.map fun m ↦ (m.userID, m.orgID)) =
        [(⟨1⟩, ⟨3⟩), (⟨5⟩, ⟨7⟩)] ∧
      (listOrgs ⟨1⟩).run.Runs (available sampleEnv (.client 5)) c.state x w' ∧
      ∃ orgs, x = .ok (orgListing orgs) ∧ Offered sampleEnv c.state ⟨1⟩ orgs := by
  have hrun : (sampleRun (fun _ _ _ ↦ true) sampleInvited).map (fun c ↦
      c.state.db.memberships.rows.map fun m ↦ (m.userID, m.orgID)) =
      some [(⟨1⟩, ⟨3⟩), (⟨5⟩, ⟨7⟩)] := by
    decide +kernel
  obtain ⟨c, h, hseen⟩ := sample_seen (G := anyStep) (fun _ _ _ _ ↦ trivial) hrun
  obtain ⟨w', hx, -⟩ := World.exec_sql sampleEnv.toPlatform World.faultless (.client 5)
    (.membershipFindAllByUserID ⟨1⟩) ⟨false, c.state.clock, .nil, fun _ ↦ 0, .failed "", []⟩
    rfl rfl rfl (Int.le_refl c.state.clock)
  have hruns : (listOrgs ⟨1⟩).run.Runs (available sampleEnv (.client 5)) c.state _ w' :=
    ⟨_, w', hx, rfl, rfl⟩
  exact ⟨c, _, w', h, hseen, hruns, (organizations_offered h hruns).2⟩

-- an evaluation of the handler would go down to the digits of an id
attribute [local irreducible] getPendingInvitations in
/-- Bob is shown the invitation to Ann's. -/
theorem invitations_offered_sample : ∃ c user x w',
    (system sampleEnv sampleSent anyStep).Reachable (World.start 0) c ∧ user.email = "bob@b.io" ∧
      (getPendingInvitations sampleEnv user.id).run.Runs (atTime sampleEnv 0 (.client 4)) c.state x w' ∧
      ∃ offers, x = .ok (pendingListing sampleEnv offers) ∧
        Acceptable sampleEnv c.state user 0 offers := by
  have hrun : ((sampleRun (fun _ _ _ ↦ true) sampleInvited).bind fun c ↦
      (playAtZero (getPendingInvitations sampleEnv ⟨5⟩).run [0, 0] c.state).map fun _ ↦
        ((c.state.db.users.find? ⟨5⟩).map User.email, c.state.db.memberships.rows.map Membership.id)) =
      some (some "bob@b.io", [⟨4⟩, ⟨8⟩]) := by
    decide +kernel
  obtain ⟨c, hc, hrun⟩ := Option.bind_eq_some_iff.mp hrun
  obtain ⟨⟨x, w'⟩, hplay, hseen⟩ := Option.map_eq_some_iff.mp hrun
  obtain ⟨hfound, hids⟩ := Prod.mk.inj hseen
  obtain ⟨user, hfind, hemail⟩ := Option.map_eq_some_iff.mp hfound
  obtain ⟨huser, hu⟩ := (c.state.db.users.find?_eq_some_iff _ _).mp hfind
  have h := sample_reachable (fun _ _ _ _ ↦ trivial) hc (G := anyStep)
  have hfresh : ∃ id, ∀ m ∈ c.state.db.memberships, m.id ≠ id := by
    refine ⟨.nil, fun m hm ↦ ?_⟩
    have hmem := List.mem_map_of_mem (f := Membership.id) hm
    rw [hids] at hmem
    revert hmem
    generalize m.id = id
    rintro hmem rfl
    exact absurd hmem (by decide)
  have hruns : (getPendingInvitations sampleEnv user.id).run.Runs (atTime sampleEnv 0 (.client 4))
      c.state x w' := by
    rw [hu]
    exact Prog.Runs.of_play
      (fun ch _ _ _ _ hs ↦ ⟨{ ch with fail := false, now := 0 }, ⟨rfl, rfl⟩, hs⟩) hplay
  exact ⟨c, user, x, w', h, hemail, hruns, (invitations_offered h hfresh huser hruns).2⟩

end Run

end Chis.Access
