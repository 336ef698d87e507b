import Chis.Access.Invitations
import Chis.Access.Permissions
import Chis.System.Permanence

/-!
# What takes an admin

In every run, whoever deletes an organization, sees or replaces its secret, or creates or cancels an
invitation of it has been its admin when `RequireAdmin` looked. Everybody else changes an invitation
only by answering one of their own.
-/

namespace Chis.Access

open Program Api Relation

/-! ### Runs -/

/-- What each process keeps to. -/
def duty (env : Env) (sent : Nat → Route × Request) : Proc → List (Event Op.Res) → Op → Prop
  | .client n => Permitted env (sent n).1 (sent n).2
  | _ => fun _ o ↦ background o = true

section Run

variable {env : Env} {sent : Nat → Route × Request} {G : World → Proc → Op → Prop} {now : Time}
  {c c' : Config Proc World Op Op.Res}

theorem dutiful (h : (system env sent G).Reachable (World.start now) c) (i : Proc) :
    Valid (duty env sent i) (c.state.past i) := by
  refine (system_records env sent G).valid (fun _ ↦ rfl) ?_ h i
  rintro (n | _ | n) p hp
  · exact Prog.Traces.of_uses (fun _ _ h ↦ h) (fun _ _ ↦ trivial) (iteration_uses _) p
  · exact Prog.Traces.of_uses (fun _ _ h ↦ h) (fun _ _ ↦ trivial) processRetries_uses p
  · rcases hp with hp | rfl
    · exact absurd rfl (hp n)
    · exact serve_permitted

/-- An operation about to be performed is within the duty of its process. -/
theorem duty_next (h : (system env sent G).Reachable (World.start now) c) {i : Proc} {o : Op}
    {k : o.Res → Service Unit} {r : o.Res} {w' : World} (hp : c.procs i = .op o k)
    (hx : (system env sent G).exec i o c.state r w') : duty env sent i (c.state.past i) o :=
  (system_records env sent G).justified (dutiful (h.tail (.act hp hx)) i) hx

/-- Statements that are not for workers are run by requests only, with permission. -/
theorem permitted_next (h : (system env sent G).Reachable (World.start now) c) {i : Proc} {o : Op}
    {k : o.Res → Service Unit} {r : o.Res} {w' : World} (hp : c.procs i = .op o k)
    (hx : (system env sent G).exec i o c.state r w') (ho : background o = false) :
    ∃ n, i = .client n ∧ Permitted env (sent n).1 (sent n).2 (c.state.past i) o := by
  have hd := duty_next h hp hx
  cases i with
  | client n => exact ⟨n, rfl, hd⟩
  | worker n => exact absurd (ho.symm.trans hd) (by decide)
  | scheduler => exact absurd (ho.symm.trans hd) (by decide)

/-- Every step of a run keeps to what single operations do. -/
theorem system_exec (i : Proc) (o : Op) (w : World) (r : o.Res) (w' : World)
    (h : (system env sent G).exec i o w r w') : World.Exec env.toPlatform (fun _ ↦ True) i o w r w' :=
  h.2

/-! ### Admins -/

/-- Process `i` is a request of user `u`, who held an admin membership of the organization when the
request passed `RequireAdmin`, in configuration `c₀` of the run. -/
structure AdminRequest (env : Env) (sent : Nat → Route × Request) (G : World → Proc → Op → Prop)
    (now : Time) (c : Config Proc World Op Op.Res) (i : Proc) (u orgID : Uuid)
    (c₀ : Config Proc World Op Op.Res) : Prop where
  user : ∃ n, i = .client n ∧ RequestedBy env (sent n).2 (c.state.past i) u
  reachable : (system env sent G).Reachable (World.start now) c₀
  passed : ∃ c₁, ∃ m ∈ c₀.state.db.memberships, (system env sent G).Step c₀ c₁ ∧
    (system env sent G).exec i (.sql (.membershipFindByUserAndOrgID u orgID)) c₀.state (.ok m)
      c₁.state ∧ ReflTransGen (system env sent G).Step c₁ c ∧ m.userID = u ∧ m.orgID = orgID ∧
      m.role = .admin

/-- Whoever administers an organization by what the request has read is an admin. -/
theorem Administers.request (h : (system env sent G).Reachable (World.start now) c) {n : Nat}
    {orgID : Uuid} (ha : Administers env (sent n).2 (c.state.past (.client n)) orgID) :
    ∃ u c₀, AdminRequest env sent G now c (.client n) u orgID c₀ := by
  obtain ⟨u, m, hu, hm, hrole⟩ := ha
  obtain ⟨c₀, c₁, h₀, hx, hs, h₁⟩ := (system_records env sent G).happened (fun _ ↦ rfl) h hm
  obtain ⟨ch, hexec⟩ := exec_ok hx
  obtain ⟨hrow, huser, horg⟩ := MembershipRepository.findByUserAndOrgID_ok (Prod.mk.inj hexec).1
  exact ⟨u, c₀, ⟨n, rfl, hu⟩, h₀, c₁, m, hrow, hs, hx, h₁, huser, horg, hrole⟩

/-- As long as the organization exists, the admin is one still. -/
theorem AdminRequest.still {i : Proc} {u orgID : Uuid} {c₀ : Config Proc World Op Op.Res}
    (ha : AdminRequest env sent G now c i u orgID c₀) :
    (∃ m ∈ c.state.db.memberships, m.userID = u ∧ m.orgID = orgID ∧ m.role = .admin) ∨
      c.state.Gone orgID := by
  obtain ⟨c₁, m, hm, hs, -, h₁, huser, horg, hrole⟩ := ha.passed
  rcases World.membership_stays system_exec (.head hs h₁) (Api.sound ha.reachable) hm with hm | hg
  · exact .inl ⟨m, hm, huser, horg, hrole⟩
  · exact .inr (horg ▸ hg)

/-! ### What admins do -/

/-- What an operation does to an organization that takes an admin. A worker that reads the secret
answers no user. -/
inductive Governs (orgID : Uuid) (w w' : World) : Proc → Op → Prop
  | deletes {i : Proc} {o : Op} : (∃ org ∈ w.db.organizations, org.id = orgID) →
    (∀ org ∈ w'.db.organizations, org.id ≠ orgID) → Governs orgID w w' i o
  | readsSecret {n : Nat} : Governs orgID w w' (.client n) (.sql (.getSigningSecret orgID))
  | replacesSecret {i : Proc} {o : Op} (org org' : Organization) : org ∈ w.db.organizations →
    org' ∈ w'.db.organizations → org.id = orgID → org'.id = orgID →
    org'.signingSecret ≠ org.signingSecret → Governs orgID w w' i o
  | invites {i : Proc} {o : Op} (inv : Invitation) : inv ∈ w'.db.invitations →
    inv.orgID = orgID → (∀ inv₀ ∈ w.db.invitations, inv₀.id ≠ inv.id) → Governs orgID w w' i o
  | cancels {i : Proc} {o : Op} (inv inv' : Invitation) : inv ∈ w.db.invitations →
    inv.orgID = orgID → inv' ∈ w'.db.invitations → inv'.id = inv.id → inv.status ≠ .cancelled →
    inv'.status = .cancelled → Governs orgID w w' i o

/-- A statement whose answer a process remembers was run at some point of the run. -/
theorem returned_then (h : (system env sent G).Reachable (World.start now) c) {i : Proc} {s : Stmt}
    {a : s.Ok} (hm : s.returned a ∈ c.state.past i) :
    ∃ c₀ ch db', (system env sent G).Reachable (World.start now) c₀ ∧
      ReflTransGen (system env sent G).Step c₀ c ∧
      s.exec env.toPlatform ch c₀.state.db = (.ok a, db') := by
  obtain ⟨c₀, c₁, h₀, hx, hs, h₁⟩ := (system_records env sent G).happened (fun _ ↦ rfl) h hm
  obtain ⟨ch, hexec⟩ := exec_ok hx
  exact ⟨c₀, ch, _, h₀, .head hs h₁, hexec⟩

/-! ### Invitations -/

/-- The request presents the token. -/
def PresentsToken (env : Env) (route : Route) (r : Request) (token : String) : Prop :=
  route = .acceptInvitation ∧ decodeAndValidate AcceptInvitationRequest.fields
    (fun req ↦ fieldErrors env "token" [.required] req.token) r.body = .ok ⟨token⟩

/-- From `w` to `w'`, user `u` accepts an invitation or finds it expired, one that is addressed to
the user's own email or whose token the request presents. -/
structure Answered (env : Env) (route : Route) (r : Request) (u : Uuid) (w w' : World)
    (inv inv' : Invitation) : Prop where
  before : inv ∈ w.db.invitations
  after : inv' ∈ w'.db.invitations
  id : inv'.id = inv.id
  terms : inv'.terms = inv.terms
  status : inv'.status = .accepted ∨ inv'.status = .expired
  own : (∃ user ∈ w.db.users, user.id = u ∧ user.email = inv.email) ∨
    PresentsToken env route r inv.token

/-- A user who is entitled to answer an invitation answers one of their own. -/
theorem Entitled.own (h : (system env sent G).Reachable (World.start now) c) {n : Nat} {u : Uuid}
    {inv inv₀ : Invitation}
    (he : Entitled env (sent n).1 (sent n).2 (c.state.past (.client n)) u inv)
    (h₀ : inv₀ ∈ c.state.db.invitations) (hid : inv.id = inv₀.id) :
    (∃ user ∈ c.state.db.users, user.id = u ∧ user.email = inv₀.email) ∨
      PresentsToken env (sent n).1 (sent n).2 inv₀.token := by
  have hterms {c₁ : Config Proc World Op Op.Res}
      (h₁ : (system env sent G).Reachable (World.start now) c₁)
      (hto : ReflTransGen (system env sent G).Step c₁ c) (hi : inv ∈ c₁.state.db.invitations) :
      inv₀.terms = inv.terms :=
    World.terms_stay system_exec hto (Api.sound h₁) hi h₀ hid.symm
  cases he.presents with
  | token token hroute hreq hread =>
    obtain ⟨c₁, ch, db', h₁, hto, hexec⟩ := returned_then h hread
    have hfound := (Prod.mk.inj hexec).1
    have ht := hterms h₁ hto (InvitationRepository.findByToken_ok hfound)
    simp only [Invitation.terms, Prod.mk.injEq] at ht
    right
    rw [ht.2.2.2.1, InvitationRepository.findByToken_token hfound]
    exact ⟨hroute, hreq⟩
  | id idParam id hroute hparse hread =>
    obtain ⟨c₁, ch, db', h₁, hto, hexec⟩ := returned_then h hread
    have ht := hterms h₁ hto (InvitationRepository.findByID_ok (Prod.mk.inj hexec).1).1
    simp only [Invitation.terms, Prod.mk.injEq] at ht
    rcases he.addressed with hroute' | ⟨user, hu, hemail⟩
    · rw [hroute] at hroute'
      cases hroute'
    · obtain ⟨c₂, ch, db', h₂, hto, hexec⟩ := returned_then h hu
      have hf := (c₂.state.db.users.find?_eq_some_iff u user).mp (elim_ok.mp (Prod.mk.inj hexec).1)
      left
      refine ⟨user, World.user_stays system_exec hto hf.1, hf.2, ?_⟩
      rw [hemail, ht.2.1]

private theorem listed_row {env : Platform} {ch : Choice} {db db' : Db} {orgID : Uuid}
    {invs : List Invitation} {inv : Invitation}
    (hx : (Stmt.invitationFindByOrgID orgID).exec env ch db = (.ok invs, db')) (hi : inv ∈ invs) :
    inv ∈ db.invitations ∧ inv.orgID = orgID := by
  rw [← Except.ok.inj (Prod.mk.inj hx).1] at hi
  have hrow := List.mem_filter.mp ((mem_orderBy _ _ _ _).mp hi)
  exact ⟨hrow.1, of_decide_eq_true hrow.2⟩

/-- An invitation has kept its terms since a request read it. -/
private theorem terms_since (h : (system env sent G).Reachable (World.start now) c) {i : Proc}
    {o : Op} {k : o.Res → Service Unit} {r : o.Res} {w' : World} (hp : c.procs i = .op o k)
    (hx : (system env sent G).exec i o c.state r w') {s : Stmt} {a : s.Ok} {inv inv₂ : Invitation}
    (hm : s.returned a ∈ c.state.past i)
    (hrow : ∀ ch db db', s.exec env.toPlatform ch db = (.ok a, db') → inv₂ ∈ db.invitations)
    (hinv : inv ∈ c.state.db.invitations ∨ inv ∈ w'.db.invitations) (hid : inv.id = inv₂.id) :
    inv.terms = inv₂.terms := by
  obtain ⟨c₂, ch, db', h₂, hto, hexec⟩ := returned_then h hm
  have hrow₂ := hrow ch _ _ hexec
  rcases hinv with hinv | hinv
  · exact World.terms_stay system_exec hto (Api.sound h₂) hrow₂ hinv hid
  · exact World.terms_stay system_exec (hto.tail (.act hp hx)) (Api.sound h₂) hrow₂ hinv hid

/-- An operation that changes an invitation is one of an admin, or of a user who answers it. -/
theorem invitation_change (h : (system env sent G).Reachable (World.start now) c) {i : Proc} {o : Op}
    {k : o.Res → Service Unit} {r : o.Res} {w' : World} (hp : c.procs i = .op o k)
    (hx : (system env sent G).exec i o c.state r w') {inv : Invitation}
    (hchange : ¬ (inv ∈ c.state.db.invitations ↔ inv ∈ w'.db.invitations)) :
    (∃ u c₀, AdminRequest env sent G now c i u inv.orgID c₀) ∨
      ∃ n u inv₀ inv₁, i = .client n ∧ RequestedBy env (sent n).2 (c.state.past i) u ∧
        (inv = inv₀ ∨ inv = inv₁) ∧
        Answered env (sent n).1 (sent n).2 u c.state w' inv₀ inv₁ := by
  have hinv : inv ∈ c.state.db.invitations ∨ inv ∈ w'.db.invitations := by
    by_contra hno
    rw [not_or] at hno
    exact hchange (iff_of_false hno.1 hno.2)
  have hadmin {n : Nat} {orgID : Uuid} (hi : i = .client n)
      (ha : Administers env (sent n).2 (c.state.past i) orgID) (horg : inv.orgID = orgID) :
      ∃ u c₀, AdminRequest env sent G now c i u inv.orgID c₀ := by
    subst hi
    rw [horg]
    exact ha.request h
  by_cases hs : ∃ s, o = .sql s
  · obtain ⟨s, rfl⟩ := hs
    rcases World.Exec.sql hx.2 with ⟨-, hd⟩ | ⟨ch, -, hexec, -⟩
    · rw [hd] at hchange
      exact absurd Iff.rfl hchange
    · rcases Stmt.invitation_changed hexec hchange with
        rfl | rfl | ⟨inv₀, rfl, horg⟩ | ⟨inv₀, h₀, inv₁, h₁, hwhich, hid, hterms, hwrite⟩
      · obtain ⟨n, hi, ha⟩ := permitted_next h hp hx rfl
        exact .inl (hadmin hi ha rfl)
      · obtain ⟨n, hi, orgID, email, inv₂, ha, hm, hid⟩ := permitted_next h hp hx rfl
        have ht := terms_since h hp hx hm (fun ch db db' hexec ↦
          (InvitationRepository.findByOrgAndEmail_ok (Prod.mk.inj hexec).1).1) hinv hid.symm
        obtain ⟨c₂, ch₂, _, -, -, hexec₂⟩ := returned_then h hm
        have horg := (InvitationRepository.findByOrgAndEmail_ok (Prod.mk.inj hexec₂).1).2
        refine .inl (hadmin hi ha ?_)
        rw [← horg]
        exact congrArg Prod.fst ht
      · obtain ⟨n, hi, ha⟩ := permitted_next h hp hx rfl
        exact .inl (hadmin hi ha horg.symm)
      · have hanswer {n : Nat} {u : Uuid} {inv₂ : Invitation} (hi : i = .client n)
            (he : Entitled env (sent n).1 (sent n).2 (c.state.past i) u inv₂)
            (hid₂ : inv₂.id = inv₀.id) (hst : inv₁.status = .accepted ∨ inv₁.status = .expired) :
            ∃ n u inv₀ inv₁, i = .client n ∧ RequestedBy env (sent n).2 (c.state.past i) u ∧
              (inv = inv₀ ∨ inv = inv₁) ∧
              Answered env (sent n).1 (sent n).2 u c.state w' inv₀ inv₁ := by
          subst hi
          exact ⟨n, u, inv₀, inv₁, rfl, he.authenticated, hwhich, h₀, h₁, hid, hterms, hst,
            he.own h h₀ hid₂⟩
        have hinvterms : inv.terms = inv₀.terms := by
          rcases hwhich with rfl | rfl
          · rfl
          · exact hterms
        rcases hwrite with ⟨status, rfl, hst⟩ | ⟨t, rfl, hst⟩
        · obtain ⟨n, hi, hperm⟩ := permitted_next h hp hx rfl
          rcases hperm with ⟨rfl, orgID, invs, ha, hm, inv₂, hmem, hid₂⟩ |
            ⟨hname, u, inv₂, he, hid₂⟩ | ⟨rfl, u, inv₂, he, -, -, hid₂⟩
          · obtain ⟨c₂, ch₂, _, -, -, hexec₂⟩ := returned_then h hm
            have ht := terms_since h hp hx hm (fun ch db db' hexec ↦ (listed_row hexec hmem).1)
              (.inl h₀) hid₂.symm
            refine .inl (hadmin hi ha ?_)
            rw [← (listed_row hexec₂ hmem).2]
            exact congrArg Prod.fst (hinvterms.trans ht)
          · rcases hname with rfl | rfl
            · exact .inr (hanswer hi he hid₂ (.inr (Option.some.inj hst).symm))
            · cases hst
          · exact .inr (hanswer hi he hid₂ (.inl (Option.some.inj hst).symm))
        · obtain ⟨n, hi, u, inv₂, he, -, -, hid₂⟩ := permitted_next h hp hx rfl
          exact .inr (hanswer hi he hid₂ (.inl hst))
  · rw [World.Exec.db_eq hx.2 fun s he ↦ hs ⟨s, he⟩] at hchange
    exact absurd Iff.rfl hchange

/-- What takes an admin is done by an admin. -/
theorem governs_admin (h : (system env sent G).Reachable (World.start now) c) {i : Proc} {o : Op}
    {k : o.Res → Service Unit} {r : o.Res} {w' : World} (hp : c.procs i = .op o k)
    (hx : (system env sent G).exec i o c.state r w') {orgID : Uuid}
    (hg : Governs orgID c.state w' i o) : ∃ u c₀, AdminRequest env sent G now c i u orgID c₀ := by
  have hsound := Api.sound h
  have hsound' := hsound.exec hx.2
  have hdelete {org : Organization} (ho : o = .sql (.organizationDelete org.id))
      (horg : org.id = orgID) : ∃ u c₀, AdminRequest env sent G now c i u orgID c₀ := by
    subst ho horg
    obtain ⟨n, rfl, ha⟩ := permitted_next h hp hx rfl
    exact Administers.request h ha
  have hinvitation {inv inv' : Invitation} (hi : inv ∈ c.state.db.invitations)
      (hi' : inv' ∈ w'.db.invitations) (hid : inv'.id = inv.id) : inv'.orgID = inv.orgID := by
    have hstep : (system env sent G).Step c ⟨w', Function.update c.procs i (k r)⟩ := .act hp hx
    exact congrArg Prod.fst (World.terms_stay system_exec (.single hstep) hsound hi hi' hid)
  cases hg with
  | deletes hthere hgone =>
    obtain ⟨org, horg, rfl⟩ := hthere
    rcases hx.2.change with hd | ⟨s, ch, rfl, hc, -⟩
    · rw [hd] at hgone
      exact absurd rfl (hgone org horg)
    · rcases hc.organization_stays horg with rfl | ⟨org', horg', hid, -⟩
      · exact hdelete rfl rfl
      · exact absurd hid (hgone org' horg')
  | @readsSecret n => exact Administers.request h (duty_next h hp hx)
  | replacesSecret org org' horg horg' hid hid' hsecret =>
    rcases hx.2.change with hd | ⟨s, ch, rfl, hc, -⟩
    · rw [hd] at horg'
      rw [c.state.db.organizations.eq_of_key horg' horg (hid'.trans hid.symm)] at hsecret
      exact absurd rfl hsecret
    · rcases hc.organization_stays horg with rfl | ⟨org₁, horg₁, hid₁, hsecret₁ | ⟨secret, rfl⟩⟩
      · exact hdelete rfl hid
      · rw [w'.db.organizations.eq_of_key horg' horg₁ (hid'.trans (hid.symm.trans hid₁.symm))]
          at hsecret
        exact absurd hsecret₁ hsecret
      · subst hid
        obtain ⟨n, rfl, ha⟩ := permitted_next h hp hx rfl
        exact Administers.request h ha
  | invites inv hi horg hnew =>
    subst horg
    have hchange : ¬ (inv ∈ c.state.db.invitations ↔ inv ∈ w'.db.invitations) :=
      fun hiff ↦ hnew inv (hiff.mpr hi) rfl
    rcases invitation_change h hp hx hchange with ha | ⟨n, u, inv₀, inv₁, -, -, hwhich, hanswer⟩
    · exact ha
    · rcases hwhich with rfl | rfl
      · exact absurd rfl (hnew inv hanswer.before)
      · exact absurd hanswer.id.symm (hnew inv₀ hanswer.before)
  | cancels inv inv' hi horg hi' hid hst hst' =>
    subst horg
    have hchange : ¬ (inv' ∈ c.state.db.invitations ↔ inv' ∈ w'.db.invitations) := by
      intro hiff
      rw [c.state.db.invitations.eq_of_key (hiff.mpr hi') hi hid] at hst'
      exact hst hst'
    rcases invitation_change h hp hx hchange with ha | ⟨n, u, inv₀, inv₁, -, -, hwhich, hanswer⟩
    · rw [← hinvitation hi hi' hid]
      exact ha
    · rcases hwhich with rfl | rfl
      · exact absurd (iff_of_true hanswer.before hi') hchange
      · rcases hanswer.status with hs | hs <;> rw [hst'] at hs <;> cases hs

/-- Every operation that takes an admin belongs to a request of a user who held an admin membership
of the organization when the request passed `RequireAdmin`; and every change of an invitation
belongs to a request of a user who, without an admin membership of its organization, can only have
answered it, as its addressee or with its token. -/
theorem admin_only (h : (system env sent anyStep).Reachable (World.start now) c) {i : Proc} {o : Op}
    {k : o.Res → Service Unit} {r : o.Res} {w' : World} (hp : c.procs i = .op o k)
    (hx : (system env sent anyStep).exec i o c.state r w') (orgID : Uuid) :
    (Governs orgID c.state w' i o → ∃ u c₀, AdminRequest env sent anyStep now c i u orgID c₀) ∧
      ∀ inv, inv.orgID = orgID → ¬ (inv ∈ c.state.db.invitations ↔ inv ∈ w'.db.invitations) →
        ∃ n u, i = .client n ∧ RequestedBy env (sent n).2 (c.state.past i) u ∧
          ((∀ m ∈ c.state.db.memberships, m.userID = u → m.orgID = orgID → m.role = .member) →
            ∃ inv₀ inv₁, (inv = inv₀ ∨ inv = inv₁) ∧
              Answered env (sent n).1 (sent n).2 u c.state w' inv₀ inv₁) := by
  refine ⟨governs_admin h hp hx, fun inv horg hchange ↦ ?_⟩
  subst horg
  rcases invitation_change h hp hx hchange with ⟨u, c₀, ha⟩ | ⟨n, u, inv₀, inv₁, hi, hu, hrest⟩
  · obtain ⟨n, hi, hu⟩ := ha.user
    refine ⟨n, u, hi, hu, fun hmember ↦ ?_⟩
    rcases ha.still with ⟨m, hm, huser, horg, hrole⟩ | hgone
    · have hno := hmember m hm huser horg
      rw [hrole] at hno
      cases hno
    · have hsound := Api.sound h
      refine absurd (iff_of_false (fun hinv ↦ ?_) fun hinv ↦ ?_) hchange
      · exact (hsound.nothing_left hgone).2.2.2.2 inv hinv rfl
      · exact ((hsound.exec hx.2).nothing_left (hgone.exec hx.2)).2.2.2.2 inv hinv rfl
  · exact ⟨n, u, hi, hu, fun _ ↦ ⟨inv₀, inv₁, hrest⟩⟩

end Run

/-- Who is invited where. -/
def sampleInvitees (w : World) : List (Uuid × String) :=
  w.db.invitations.rows.map fun inv ↦ (inv.orgID, inv.email)

/-- Ann, who founded her organization, is the admin who invites Bob to it. -/
theorem admin_only_sample :
    ∃ c o k r w', (system sampleEnv sampleSent anyStep).Reachable (World.start 0) c ∧
      c.procs (.client 2) = .op o k ∧
      (system sampleEnv sampleSent anyStep).exec (.client 2) o c.state r w' ∧
      sampleInvitees w' = [(⟨3⟩, "bob@b.io")] ∧
      ∃ u c₀, AdminRequest sampleEnv sampleSent anyStep 0 c (.client 2) u ⟨3⟩ c₀ := by
  have hrun : (sentRuns sampleSent
      (sampleTurns 0 [0, 1, 2, 0, 3, 4, 0] ++ sampleTurns 1 [0, 5, 6, 0, 7, 8, 0] ++
        sampleTurns 2 [0, 0, 0, 0, 0, 0, 0, 0]) (sampleTurns 2 [9])).map
      (fun p ↦ (sampleInvitees p.1.state, sampleInvitees p.2.state)) =
      some ([], [(⟨3⟩, "bob@b.io")]) := by decide +kernel
  obtain ⟨c, o, k, r, w', h, hp, hx, hbefore, hafter⟩ :=
    sample_seen_step (f := sampleInvitees) hrun
  refine ⟨c, o, k, r, w', h, hp, hx, hafter, (admin_only h hp hx ⟨3⟩).1 ?_⟩
  have hnone : c.state.db.invitations.rows = [] := List.map_eq_nil_iff.mp hbefore
  obtain ⟨inv, hrows, hinv⟩ := List.map_eq_singleton_iff.mp hafter
  refine .invites inv ?_ (congrArg Prod.fst hinv) fun inv₀ h₀ ↦ ?_
  · rw [Relational.Table.mem_def, hrows]
    exact List.mem_singleton_self inv
  · rw [Relational.Table.mem_def, hnone] at h₀
    cases h₀

end Chis.Access
