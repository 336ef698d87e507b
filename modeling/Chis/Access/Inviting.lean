import Chis.Access.Accepting
import Chis.Access.Administration
import Chis.Accounts.SignUp

/-!
# Inviting again

`CreateInvitation` goes by the stored status of the invitation there is for an email: it removes an
expired or a cancelled one, and refuses to replace a pending one, be it past its time or not. An
accepted one has made its addressee a member.
-/

namespace Chis.Access

open Program Api Relation

/-! ### Accepted invitations -/

/-- A user with the email of the invitation is a member of its organization. -/
def InviteeJoined (db : Db) (inv : Invitation) : Prop :=
  ∃ user ∈ db.users, user.email = inv.email ∧
    ∃ m ∈ db.memberships, m.userID = user.id ∧ m.orgID = inv.orgID

section Run

variable {env : Env} {sent : Nat → Route × Request} {G : World → Proc → Op → Prop} {now : Time}
  {c : Config Proc World Op Op.Res}

/-- The invitation that a request presents was in the table. -/
theorem Presents.row (h : (system env sent G).Reachable (World.start now) c) {i : Proc}
    {route : Route} {r : Request} {inv : Invitation}
    (hp : Presents env route r (c.state.past i) inv) :
    ∃ c₁, (system env sent G).Reachable (World.start now) c₁ ∧
      ReflTransGen (system env sent G).Step c₁ c ∧ inv ∈ c₁.state.db.invitations := by
  cases hp with
  | token token _ _ hread =>
    obtain ⟨c₁, ch, db', h₁, hto, hexec⟩ := returned_then h hread
    exact ⟨c₁, h₁, hto, InvitationRepository.findByToken_ok (Prod.mk.inj hexec).1⟩
  | id idParam id _ _ hread =>
    obtain ⟨c₁, ch, db', h₁, hto, hexec⟩ := returned_then h hread
    exact ⟨c₁, h₁, hto, (InvitationRepository.findByID_ok (Prod.mk.inj hexec).1).1⟩

/-- The user to whom an invitation is addressed is in the table. -/
theorem Addressed.row (h : (system env sent G).Reachable (World.start now) c) {i : Proc} {u : Uuid}
    {inv : Invitation} (ha : Addressed (c.state.past i) u inv) :
    ∃ user ∈ c.state.db.users, user.id = u ∧ user.email = inv.email := by
  obtain ⟨user, hread, hemail⟩ := ha
  obtain ⟨c₁, ch, db', h₁, hto, hexec⟩ := returned_then h hread
  obtain ⟨hmem, hid⟩ :=
    (c₁.state.db.users.find?_eq_some_iff u user).mp (elim_ok.mp (Prod.mk.inj hexec).1)
  exact ⟨user, World.user_stays system_exec hto hmem, hid, hemail⟩

/-- A member whom a request has found or inserted is one still, or the organization is gone. -/
theorem Member.row (h : (system env sent G).Reachable (World.start now) c) {i : Proc} {u : Uuid}
    {inv : Invitation} (hm : Member (c.state.past i) u inv) :
    (∃ m ∈ c.state.db.memberships, m.userID = u ∧ m.orgID = inv.orgID) ∨
      c.state.Gone inv.orgID := by
  have hstays {c₁ : Config Proc World Op Op.Res} {m : Membership}
      (h₁ : (system env sent G).Reachable (World.start now) c₁)
      (hto : ReflTransGen (system env sent G).Step c₁ c) (hmem : m ∈ c₁.state.db.memberships)
      (hu : m.userID = u) (ho : m.orgID = inv.orgID) :
      (∃ m ∈ c.state.db.memberships, m.userID = u ∧ m.orgID = inv.orgID) ∨
        c.state.Gone inv.orgID := by
    rcases World.membership_stays system_exec hto (Api.sound h₁) hmem with hmem | hg
    · exact .inl ⟨m, hmem, hu, ho⟩
    · exact .inr (ho ▸ hg)
  rcases hm with ⟨m, hread⟩ | ⟨m₀, m, hread, hu, ho⟩
  · obtain ⟨c₁, ch, db', h₁, hto, hexec⟩ := returned_then h hread
    obtain ⟨hmem, hu, ho⟩ := MembershipRepository.findByUserAndOrgID_ok (Prod.mk.inj hexec).1
    exact hstays h₁ hto hmem hu ho
  · obtain ⟨c₀, c₁, h₀, hx, hs, hto⟩ := (system_records env sent G).happened (fun _ ↦ rfl) h hread
    obtain ⟨ch, hexec⟩ := exec_ok hx
    rcases Stmt.write_inv hexec with ⟨a, ha, hc⟩ | ⟨e, he, -⟩
    · cases ha
      obtain ⟨hrow, memberships, hins, hd⟩ := MembershipRepository.create_ok hc
      have hmem : m ∈ c₁.state.db.memberships := by
        rw [hd]
        exact (Relational.Table.mem_of_insert? hins m).mpr (.inr rfl)
      exact hstays (h₀.tail hs) hto hmem ((congrArg Membership.userID hrow).trans hu)
        ((congrArg Membership.orgID hrow).trans ho)
    · cases he

/-- Whoever may mark an invitation as accepted has joined its organization. -/
theorem joined_of_entitled (h : (system env sent G).Reachable (World.start now) c) {i : Proc}
    {route : Route} {r : Request} {u : Uuid} {inv inv₀ : Invitation}
    (he : Entitled env route r (c.state.past i) u inv) (ha : Addressed (c.state.past i) u inv)
    (hm : Member (c.state.past i) u inv) (h₀ : inv₀ ∈ c.state.db.invitations)
    (hid : inv.id = inv₀.id) : InviteeJoined c.state.db inv₀ := by
  obtain ⟨c₁, h₁, hto, hrow⟩ := he.presents.row h
  have hterms := World.terms_stay system_exec hto (Api.sound h₁) hrow h₀ hid.symm
  simp only [Invitation.terms, Prod.mk.injEq] at hterms
  obtain ⟨horg, hemail, -⟩ := hterms
  obtain ⟨user, huser, rfl, haddress⟩ := ha.row h
  rcases hm.row h with ⟨m, hmem, hu, ho⟩ | hg
  · exact ⟨user, huser, haddress.trans hemail.symm, m, hmem, hu, ho.trans horg.symm⟩
  · exact absurd horg ((Api.sound h).nothing_left hg |>.2.2.2.2 inv₀ h₀)

/-- One operation leaves those who have joined members. -/
theorem InviteeJoined.exec {i : Proc} {o : Op} {w w' : World} {r : o.Res} {inv inv₀ : Invitation}
    (hj : InviteeJoined w.db inv₀) (hs : w.Sound) (hx : (system env sent G).exec i o w r w')
    (hterms : inv.terms = inv₀.terms) (hinv : inv ∈ w'.db.invitations) : InviteeJoined w'.db inv := by
  simp only [Invitation.terms, Prod.mk.injEq] at hterms
  obtain ⟨horg, hemail, -⟩ := hterms
  obtain ⟨user, huser, haddress, m, hm, hu, ho⟩ := hj
  refine ⟨user, hx.2.user huser, haddress.trans hemail.symm, m, ?_, hu, ho.trans horg.symm⟩
  rcases hx.2.membership hs hm with hm | hg
  · exact hm
  · exact absurd (horg.trans ho.symm) (((hs.exec hx.2).nothing_left hg).2.2.2.2 inv hinv)

/-- The addressee of an accepted invitation is a member of its organization. -/
theorem accepted_joined (h : (system env sent G).Reachable (World.start now) c) :
    ∀ inv ∈ c.state.db.invitations, inv.status = .accepted → InviteeJoined c.state.db inv := by
  refine h.induct (I := fun c ↦ ∀ inv ∈ c.state.db.invitations, inv.status = .accepted →
    InviteeJoined c.state.db inv) (fun inv hinv ↦ by cases hinv) fun c c' hreach ih hstep ↦ ?_
  cases hstep with
  | @act i o k r w' hp hx =>
    intro inv hinv hst
    have hsound := Api.sound hreach
    have hkeep {inv₀ : Invitation} (h₀ : inv₀ ∈ c.state.db.invitations) (hid : inv₀.id = inv.id)
        (hj : InviteeJoined c.state.db inv₀) : InviteeJoined w'.db inv :=
      hj.exec hsound hx
        (World.terms_stay system_exec (.single (.act hp hx)) hsound h₀ hinv hid.symm) hinv
    cases origin hx hinv with
    | kept inv₀ h₀ hid hstatus => exact hkeep h₀ hid (ih inv₀ h₀ (hstatus.trans hst))
    | created inv₀ inv₁ _ _ hstatus =>
      have hpending := created_pending (promised_next hreach hp hx)
      rw [← hstatus, hst] at hpending
      cases hpending
    | updated inv₀ status h₀ hid hlabel =>
      rw [hst] at hlabel
      obtain ⟨n, rfl, hperm⟩ := permitted_next hreach hp hx rfl
      rcases hperm with ⟨rfl, -⟩ | ⟨rfl | rfl, -⟩ | ⟨-, u, inv₂, he, ha, hm, hid₂⟩
      · cases hlabel
      · cases hlabel
      · cases hlabel
      · exact hkeep h₀ hid (joined_of_entitled hreach he ha hm h₀ (hid₂.trans hid.symm))
    | accepted inv₀ t h₀ hid =>
      obtain ⟨n, rfl, u, inv₂, he, ha, hm, hid₂⟩ := permitted_next hreach hp hx rfl
      exact hkeep h₀ hid (joined_of_entitled hreach he ha hm h₀ (hid₂.trans hid.symm))
  | again => exact ih

end Run

/-! ### One more invitation -/

/-- Every operation works, takes place at time `t` and draws a token that is not in `db`. -/
abbrev drawing (env : Env) (t : Time) (db : Db) (i : Proc) :
    (o : Op) → World → o.Res → World → Prop :=
  World.Exec env.toPlatform (fun ch ↦ (ch.fail = false ∧ ch.now = t) ∧
    ∀ inv ∈ db.invitations, inv.token ≠ Helper.randomText "" ch.bytes) i

/-- The pair of organization and email has one invitation: it is pending, new and good for a
week. -/
structure Invited (orgID : Uuid) (email : String) (t : Time) (db : Db) (x : Except Fault Response)
    (db' : Db) : Prop where
  answer : status x = 201
  one : ∃ inv, (∀ inv' : Invitation,
      (inv' ∈ db'.invitations ∧ inv'.orgID = orgID ∧ inv'.email = email) ↔ inv' = inv) ∧
    inv.status = .pending ∧ inv.expiresAt = t + 7 * 24 * 3600 * 1000000 ∧
    ∀ inv₀ ∈ db.invitations, inv₀.token ≠ inv.token

section Alone

variable {env : Env} {allow : Choice → Prop} {i : Proc} {w : World} {orgID : Uuid} {email : String}
  (hallow : ∀ ch, allow ch → ch.fail = false)

/-- Nobody with the email is a member. -/
def Outside (db : Db) (orgID : Uuid) (email : String) : Prop :=
  ∀ user ∈ db.users, user.email = email → ∀ m ∈ db.memberships, m.userID = user.id → m.orgID ≠ orgID

include hallow in
/-- Only members are found to be so. -/
theorem alreadyMember_ends :
    (alreadyMember email orgID).run.wp (World.Exec env.toPlatform allow i)
      (fun x w' ↦ w'.db = w.db ∧ w.issued ⊆ w'.issued ∧
        (x = .ok false ∨ x = .ok true ∧ textOk email = true ∧ ¬ Outside w.db orgID email)) w := by
  unfold alreadyMember
  rw [wp_attempt_bind]
  constructor
  · intro (user : User) w₁ h₁
    obtain ⟨ch₁, hfind, hd₁, hi₁⟩ := h₁.read_works hallow (fun _ _ ↦ rfl)
    obtain ⟨huser, hemail⟩ := UserRepository.findByEmail_ok hfind
    rw [wp_attempt_bind]
    constructor
    · intro (m : Membership) w₂ h₂
      obtain ⟨ch₂, hm, hd₂, hi₂⟩ := h₂.read_works hallow (fun _ _ ↦ rfl)
      obtain ⟨hmem, hu, ho⟩ := MembershipRepository.findByUserAndOrgID_ok hm
      rw [hd₁] at hmem
      refine ⟨hd₂.trans hd₁, List.Subset.trans hi₁ hi₂, .inr ⟨rfl, ?_, fun hout ↦ ?_⟩⟩
      · exact UserRepository.findByEmail_text hfind
      · exact hout user huser hemail m hmem hu ho
    · intro e w₂ h₂
      obtain ⟨ch₂, -, hd₂, hi₂⟩ := h₂.read_works hallow (fun _ _ ↦ rfl)
      exact ⟨hd₂.trans hd₁, List.Subset.trans hi₁ hi₂, .inl rfl⟩
  · intro e w₁ h₁
    obtain ⟨ch₁, -, hd₁, hi₁⟩ := h₁.read_works hallow (fun _ _ ↦ rfl)
    exact ⟨hd₁, hi₁, .inl rfl⟩

/-- The store without the invitations of the pair. -/
structure Cleared (orgID : Uuid) (email : String) (db db' : Db) : Prop where
  others : db' = { db with invitations := db'.invitations }
  invitations : ∀ inv, inv ∈ db'.invitations ↔
    inv ∈ db.invitations ∧ (inv.orgID = orgID → inv.email ≠ email)

private theorem cleared_delete {db : Db} {inv : Invitation} (hs : Unique db)
    (hinv : inv ∈ db.invitations) :
    Cleared inv.orgID inv.email db (InvitationRepository.delete inv.id db) where
  others := rfl
  invitations inv' := by
    refine (Relational.Table.mem_filter _ _ _).trans (and_congr_right fun hmem ↦ ?_)
    rw [decide_eq_true_iff]
    constructor
    · intro hid ho he
      exact hid (congrArg Invitation.id (hs.invitations inv' hmem inv hinv (by simp [ho, he])))
    · intro hpair hid
      have he := db.invitations.eq_of_key hmem hinv hid
      subst he
      exact hpair rfl rfl

/-- How the attempt ends to make room for a new invitation of the pair. -/
inductive Removal (orgID : Uuid) (email : String) (db : Db) : Except Fault Unit → Db → Prop
  | cleared {db' : Db} : textOk email = true →
    (∀ inv ∈ db.invitations, inv.orgID = orgID → inv.email = email →
      inv.status = .expired ∨ inv.status = .cancelled) →
    Cleared orgID email db db' → Removal orgID email db (.ok ()) db'
  | refused {e : Fault} {db' : Db} (inv : Invitation) : inv ∈ db.invitations → inv.orgID = orgID →
    inv.email = email → inv.status = .pending ∨ inv.status = .accepted → status (.error e) = 409 →
    Removal orgID email db (.error e) db'
  | illegible {e : Fault} {db' : Db} : textOk email = false → status (.error e) = 500 →
    Removal orgID email db (.error e) db'

include hallow in
theorem removeOldInvitation_ends (hs : Unique w.db) :
    (removeOldInvitation orgID email).run.wp (World.Exec env.toPlatform allow i)
      (fun x w' ↦ Removal orgID email w.db x w'.db ∧ w.issued ⊆ w'.issued) w := by
  unfold removeOldInvitation
  rw [wp_attempt_bind]
  constructor
  · intro (inv : Invitation) w₁ h₁
    obtain ⟨ch₁, hfind, hd₁, hi₁⟩ := h₁.read_works hallow (fun _ _ ↦ rfl)
    obtain ⟨hinv, rfl, rfl⟩ := InvitationRepository.findByOrgAndEmail_pair hfind
    have hdelete (hst : inv.status = .expired ∨ inv.status = .cancelled) :
        (query (.invitationDelete inv.id)
          (fun _ ↦ .app (.internal "failed to remove old invitation")) >>= fun _ ↦
            (pure () : Handler Unit)).run.wp (World.Exec env.toPlatform allow i)
          (fun x w' ↦ Removal inv.orgID inv.email w.db x w'.db ∧ w.issued ⊆ w'.issued) w₁ := by
      rw [wp_query_bind]
      constructor
      · intro a w₂ h₂
        obtain ⟨ch₂, -, hexec₂, -⟩ := h₂.sql_works hallow
        refine ⟨.cleared (hs.texts inv hinv).2 (fun inv' hmem ho he ↦ ?_) ?_,
          List.Subset.trans hi₁ h₂.issued_subset⟩
        · rwa [hs.invitations inv' hmem inv hinv (by simp [ho, he])]
        · rw [← (Prod.mk.inj hexec₂).2, hd₁]
          exact cleared_delete hs hinv
      · intro e w₂ h₂
        obtain ⟨ch₂, -, hexec₂, -⟩ := h₂.sql_works hallow
        cases (Prod.mk.inj hexec₂).1
    cases hst : inv.status with
    | pending =>
      simp only [hst]
      rw [wp_fail]
      exact ⟨.refused inv hinv rfl rfl (.inl hst) rfl, hi₁⟩
    | accepted =>
      simp only [hst]
      rw [wp_fail]
      exact ⟨.refused inv hinv rfl rfl (.inr hst) rfl, hi₁⟩
    | expired => simpa only [hst] using hdelete (.inl hst)
    | cancelled => simpa only [hst] using hdelete (.inr hst)
  · intro e w₁ h₁
    obtain ⟨ch₁, hfind, hd₁, hi₁⟩ := h₁.read_works hallow (fun _ _ ↦ rfl)
    rcases InvitationRepository.findByOrgAndEmail_error hfind with ⟨rfl, htext, hnone⟩ | ⟨he, htext⟩
    · simp only [if_true, wp_handler_pure]
      refine ⟨.cleared htext (fun inv hinv ho hemail ↦ absurd hemail (hnone inv hinv ho)) ?_, hi₁⟩
      rw [hd₁]
      exact ⟨rfl, fun inv ↦ ⟨fun hinv ↦ ⟨hinv, hnone inv hinv⟩, And.left⟩⟩
    · simp only []
      rw [if_neg he, wp_fail]
      exact ⟨.illegible htext rfl, hi₁⟩

/-- The row that a new invitation becomes. -/
private theorem invited_of_created {env : Env} {t : Time} {u : Uuid} {req : CreateInvitationRequest}
    {token : String} {id : Uuid} {now : Time} {a : Invitation} {db db₁ db₂ : Db}
    (hclear : Cleared orgID req.email db db₁)
    (hcreate : InvitationRepository.create id now (newInvitation orgID u req token t) db₁ =
      .ok (a, db₂))
    (htoken : ∀ inv ∈ db.invitations, inv.token ≠ token) :
    Invited orgID req.email t db (.ok (writeJSON 201 (invitationJSON env a))) db₂ := by
  obtain ⟨ha, invitations, hins, hd⟩ := InvitationRepository.create_ok hcreate
  refine ⟨rfl, a, fun inv ↦ ?_, by rw [ha]; rfl, by rw [ha]; rfl, by rw [ha]; exact htoken⟩
  rw [hd]
  refine (and_congr_left fun _ ↦ Relational.Table.mem_of_insert? hins inv).trans ?_
  constructor
  · rintro ⟨hmem | rfl, ho, he⟩
    · exact absurd he (((hclear.invitations inv).mp hmem).2 ho)
    · rfl
  · rintro rfl
    exact ⟨.inr rfl, by rw [ha]; rfl, by rw [ha]; rfl⟩

include hallow in
/-- Once there is room, the invitation is created. -/
theorem insertInvitation_ends {db : Db} {req : CreateInvitationRequest} {user : User}
    {org : Organization} (hclear : Cleared orgID req.email db w.db)
    (hnew : ∀ ch, allow ch → ∀ inv ∈ db.invitations, inv.token ≠ Helper.randomText "" ch.bytes)
    (hids : ∀ inv ∈ db.invitations, inv.id ∈ w.issued) (htext : textOk req.email = true)
    (huser : user ∈ db.users) (horg : org ∈ db.organizations) (ho : orgID = org.id) :
    (do
      let bytes ← random (.internal "failed to generate invitation token")
      let now ← clock
      let invitation : Invitation ← query
        (.invitationCreate (newInvitation orgID user.id req (Helper.randomText "" bytes) now))
        fun _ ↦ .app (.internal "failed to create invitation")
      let _ ← attempt (.userFindByID user.id)
      let _ ← attempt (.membershipFindAllByUserID user.id)
      return writeJSON 201 (invitationJSON env invitation) : Handler Response).run.wp
      (World.Exec env.toPlatform allow i)
      (fun x w' ↦ ∃ ch, allow ch ∧ Invited orgID req.email ch.now db x w'.db) w := by
  rw [wp_random_bind]
  refine ⟨fun bytes w₃ h₃ ↦ ?_, fun e w₃ h₃ ↦ ?_⟩
  · obtain ⟨ch₃, ha₃, hb, hd₃, hi₃⟩ := h₃.rand_works hallow
    cases hb
    have htoken := hnew ch₃ ha₃
    rw [wp_clock_bind]
    intro t w₄ h₄
    obtain ⟨ch₄, ha₄, ht, hd₄, hi₄⟩ := h₄.now_works
    subst ht
    rw [← hd₃, ← hd₄] at hclear
    rw [← hi₃, ← hi₄] at hids
    have hold {inv : Invitation} (hinv : inv ∈ w₄.db.invitations) : inv ∈ db.invitations :=
      ((hclear.invitations inv).mp hinv).1
    rw [wp_query_bind]
    constructor
    · intro (inv : Invitation) w₅ h₅
      obtain ⟨ch₅, -, hexec₅, -⟩ := h₅.sql_works hallow
      rcases Stmt.write_inv hexec₅ with ⟨a, ha, hc⟩ | ⟨e, he, -⟩
      · cases ha
        have hinvited : Invited orgID req.email ch₄.now db
            (.ok (writeJSON 201 (invitationJSON env inv))) w₅.db :=
          invited_of_created hclear hc htoken
        have hlast {w₆ w₇ : World} {y : Except Err User} {y' : Except Err (List MembershipWithOrg)}
            (h₆ : World.Exec env.toPlatform allow i (.sql (.userFindByID user.id)) w₅ y w₆)
            (h₇ : World.Exec env.toPlatform allow i (.sql (.membershipFindAllByUserID user.id)) w₆
              y' w₇) : ∃ ch, allow ch ∧ Invited orgID req.email ch.now db
                (.ok (writeJSON 201 (invitationJSON env inv))) w₇.db := by
          obtain ⟨ch₆, -, hd₆, -⟩ := h₆.read_works hallow (fun _ _ ↦ rfl)
          obtain ⟨ch₇, -, hd₇, -⟩ := h₇.read_works hallow (fun _ _ ↦ rfl)
          refine ⟨ch₄, ha₄, ?_⟩
          rwa [hd₇, hd₆]
        rw [wp_attempt_bind]
        constructor
        · intro _ w₆ h₆
          rw [wp_attempt_bind]
          exact ⟨fun _ _ h₇ ↦ hlast h₆ h₇, fun _ _ h₇ ↦ hlast h₆ h₇⟩
        · intro _ w₆ h₆
          rw [wp_attempt_bind]
          exact ⟨fun _ _ h₇ ↦ hlast h₆ h₇, fun _ _ h₇ ↦ hlast h₆ h₇⟩
      · cases he
    · intro e w₅ h₅
      obtain ⟨ch₅, -, hexec₅, hfresh⟩ := h₅.sql_works hallow
      rcases Stmt.write_inv hexec₅ with ⟨a, ha, -⟩ | ⟨_, -, hc, -⟩
      · cases ha
      · have hcreate : ∃ x, InvitationRepository.create ch₅.id ch₅.now
            (newInvitation orgID user.id req (Helper.randomText "" ch₃.bytes) ch₄.now) w₄.db =
              .ok x :=
          InvitationRepository.create_eq
            (by simpa [newInvitation] using ⟨htext, Accounts.textOk_randomText (by decide) _⟩)
            (fun inv hinv he ↦ (hfresh rfl).1 (he ▸ hids inv (hold hinv)))
            (fun inv hinv ↦ htoken inv (hold hinv))
            (fun inv hinv ↦ ((hclear.invitations inv).mp hinv).2)
            (by rwa [hclear.others]) ho (by rwa [hclear.others]) rfl
        obtain ⟨x, hx⟩ := hcreate
        rw [hc] at hx
        cases hx
  · obtain ⟨ch₃, -, hb, -⟩ := h₃.rand_works hallow
    cases hb

/-- No invitation of the pair is stored as pending, and Postgres stores the email. -/
def Free (db : Db) (orgID : Uuid) (email : String) : Prop :=
  textOk email = true ∧ ∀ inv ∈ db.invitations, inv.orgID = orgID → inv.email = email →
    inv.status ≠ .pending

/-- An invitation is created exactly if none of the pair is stored as pending. -/
theorem createInvitation_ends {t : Time} (hs : w.Sound)
    (hjoined : ∀ inv ∈ w.db.invitations, inv.status = .accepted → InviteeJoined w.db inv)
    {r : Request} {req : CreateInvitationRequest}
    (hreq : decodeAndValidate CreateInvitationRequest.fields (CreateInvitationRequest.errors env)
      r.body = .ok req) (hout : Outside w.db orgID req.email) {user : User} {org : Organization}
    (huser : user ∈ w.db.users) (horg : org ∈ w.db.organizations) (ho : orgID = org.id) :
    (createInvitation env user.id orgID r).run.wp (drawing env t w.db i)
      (fun x w' ↦ Invited orgID req.email t w.db x w'.db ↔ Free w.db orgID req.email) w := by
  have hallow : ∀ ch : Choice, ((ch.fail = false ∧ ch.now = t) ∧
      ∀ inv ∈ w.db.invitations, inv.token ≠ Helper.randomText "" ch.bytes) → ch.fail = false :=
    fun ch ha ↦ ha.1.1
  unfold createInvitation
  rw [wp_check_bind, hreq]
  refine ⟨fun req' he ↦ ?_, fun e he ↦ (nomatch he)⟩
  cases he
  rw [wp_handler_bind]
  refine Prog.wp.mono (fun x w₁ h₁ ↦ ?_) (alreadyMember_ends hallow)
  obtain ⟨hd₁, hi₁, rfl | ⟨-, -, hin⟩⟩ := h₁
  · refine ⟨fun b hb ↦ ?_, fun e he ↦ (nomatch he)⟩
    cases hb
    rw [if_neg (by decide), wp_handler_bind]
    refine Prog.wp.mono (fun x w₂ h₂ ↦ ?_) (removeOldInvitation_ends hallow (hd₁ ▸ hs.unique))
    obtain ⟨hends, hi₂⟩ := h₂
    rw [hd₁] at hends
    have hids : ∀ inv ∈ w.db.invitations, inv.id ∈ w₂.issued := fun inv hinv ↦
      hi₂ (hi₁ (hs.generated.invitations inv hinv))
    cases hends with
    | cleared htext hold hclear =>
      have hfree : Free w.db orgID req.email := by
        refine ⟨htext, fun inv hinv ho he hp ↦ ?_⟩
        rcases hold inv hinv ho he with hst | hst <;> rw [hp] at hst <;> cases hst
      refine ⟨fun _ _ ↦ ?_, fun e he ↦ (nomatch he)⟩
      refine Prog.wp.mono (fun x w₃ h₃ ↦ ?_)
        (insertInvitation_ends hallow hclear (fun ch ha ↦ ha.2) hids htext huser horg ho)
      obtain ⟨ch, ⟨⟨-, ht⟩, -⟩, hinvited⟩ := h₃
      rw [ht] at hinvited
      exact iff_of_true hinvited hfree
    | refused inv hinv ho he hst hstatus =>
      refine ⟨fun b hb ↦ (nomatch hb), fun e' he' ↦ ?_⟩
      cases he'
      refine iff_of_false (fun hinvited ↦ ?_) fun hfree ↦ ?_
      · have h201 := hinvited.answer
        rw [hstatus] at h201
        cases h201
      · rcases hst with hst | hst
        · exact hfree.2 inv hinv ho he hst
        · obtain ⟨user, huser, hemail, m, hm, hu, horg⟩ := hjoined inv hinv hst
          exact hout user huser (hemail.trans he) m hm hu (horg.trans ho)
    | illegible htext hstatus =>
      refine ⟨fun b hb ↦ (nomatch hb), fun e' he' ↦ ?_⟩
      cases he'
      refine iff_of_false (fun hinvited ↦ ?_) fun hfree ↦ ?_
      · have h201 := hinvited.answer
        rw [hstatus] at h201
        cases h201
      · rw [hfree.1] at htext
        cases htext
  · exact absurd hout hin

end Alone

/-- Ann invites Bob. -/
def sampleInvite : Request :=
  sampleRequestOf ⟨1⟩ ⟨3⟩ "\x7b\"email\":\"bob@b.io\",\"role\":\"member\"\x7d"

/-- The answer to her at time `t`, when `0b` is drawn. -/
def sampleReinvite (schedule : List (Proc × Choice)) (t : Time) :
    Option (Config Proc World Op Op.Res × Except Fault Response × World) :=
  (sentRun sampleSent schedule).bind fun c ↦
    ((createInvitation sampleEnv ⟨1⟩ ⟨3⟩ sampleInvite).run.play
      (fun ch ↦ World.step sampleEnv.toPlatform (.client 9)
        { ch with fail := false, now := t, bytes := [11] })
      ((sampleTurns 9 [0, 0, 0, 0, 0, 0, 10, 0, 0]).map Prod.snd) c.state).map fun p ↦ (c, p)

/-- Ann is an admin and invites Bob, who is no member and has no invitation to accept at time
`t`. -/
structure SampleReinvites (t : Time) (c : Config Proc World Op Op.Res) (m : Membership)
    (x : Except Fault Response) (w' : World) : Prop where
  reachable : (system sampleEnv sampleSent anyStep).Reachable (World.start 0) c
  admin : m ∈ c.state.db.memberships ∧ m.userID = ⟨1⟩ ∧ m.orgID = ⟨3⟩ ∧ m.role = .admin
  outside : Outside c.state.db ⟨3⟩ "bob@b.io"
  closed : ∀ inv ∈ c.state.db.invitations, inv.orgID = ⟨3⟩ → inv.email = "bob@b.io" →
    inv.status = .pending → inv.expiresAt < t
  runs : (createInvitation sampleEnv ⟨1⟩ ⟨3⟩ sampleInvite).run.Runs
    (drawing sampleEnv t c.state.db (.client 9)) c.state x w'

/-- What is looked at in a run. -/
def sampleLook (t : Time) (p : Config Proc World Op Op.Res × Except Fault Response × World) :
    Bool × List InvitationStatus × Nat :=
  let db := p.1.state.db
  (decide ((∃ m ∈ db.memberships.rows, m.userID = ⟨1⟩ ∧ m.orgID = ⟨3⟩ ∧ m.role = .admin) ∧
    (∀ user ∈ db.users.rows, user.email = "bob@b.io" →
      ∀ m ∈ db.memberships.rows, m.userID = user.id → m.orgID ≠ ⟨3⟩) ∧
    (∀ inv ∈ db.invitations.rows, inv.orgID = ⟨3⟩ → inv.email = "bob@b.io" →
      inv.status = .pending → inv.expiresAt < t) ∧
    ∀ inv ∈ db.invitations.rows, inv.token ≠ Helper.randomText "" [11]),
    db.invitations.rows.map Invitation.status, status p.2.1)

-- an evaluation of the handler would go down to the digits of an id
attribute [local irreducible] createInvitation in
private theorem sample_reinvites {schedule : List (Proc × Choice)} {t : Time}
    {a : List InvitationStatus × Nat}
    (h : (sampleReinvite schedule t).map (sampleLook t) = some (true, a)) :
    ∃ c m x w', SampleReinvites t c m x w' ∧
      (c.state.db.invitations.rows.map Invitation.status, status x) = a := by
  obtain ⟨⟨c, x, w'⟩, hp, hlook⟩ := Option.map_eq_some_iff.mp h
  obtain ⟨c', hc, hp⟩ := Option.bind_eq_some_iff.mp hp
  obtain ⟨p, hplay, hp⟩ := Option.map_eq_some_iff.mp hp
  cases hp
  obtain ⟨hscene, hseen⟩ := Prod.mk.inj hlook
  obtain ⟨⟨m, hm, hadmin⟩, hout, hclosed, hnew⟩ := of_decide_eq_true hscene
  refine ⟨c, m, x, w', ⟨System.play_steps sample_exec hc, ⟨hm, hadmin⟩, hout, hclosed, ?_⟩, hseen⟩
  exact Prog.Runs.of_play (fun ch _ _ _ _ hs ↦
    ⟨{ ch with fail := false, now := t, bytes := [11] }, ⟨⟨rfl, rfl⟩, hnew⟩, hs⟩) hplay

private theorem sampleInvite_decodes :
    decodeAndValidate CreateInvitationRequest.fields (CreateInvitationRequest.errors sampleEnv)
      sampleInvite.body = .ok ⟨"bob@b.io", "member"⟩ :=
  decodeAndValidate_ok.mpr (by decide +kernel)

end Chis.Access
