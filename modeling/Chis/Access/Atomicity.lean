import Chis.Access.Declining

/-!
# What a failed acceptance or invitation leaves

Accepting inserts a membership and then updates the invitation; inviting again deletes the old
invitation and then inserts one. There is no transaction around either.
-/

namespace Chis.Access

open Program Api Accounts

/-- The tables without or with the membership that a pending invitation offers; the invitation is as
it was. -/
inductive PartOfAcceptance (userID : Uuid) (db : Db) : Db → Prop
  | nothing : PartOfAcceptance userID db db
  | membership {inv : Invitation} {m : Membership} {memberships : Relational.Table Membership.id} :
    inv ∈ db.invitations → inv.status = .pending → m.userID = userID → m.orgID = inv.orgID →
    m.role = inv.role → db.memberships.insert? m = some memberships →
    PartOfAcceptance userID db { db with memberships := memberships }

/-- The tables with or without the invitation that is to be replaced, which cannot be accepted any
more. -/
inductive PartOfInviting (orgID : Uuid) (email : String) (db : Db) : Db → Prop
  | nothing : PartOfInviting orgID email db db
  | removed {inv : Invitation} : inv ∈ db.invitations → inv.orgID = orgID → inv.email = email →
    inv.status = .expired ∨ inv.status = .cancelled →
    PartOfInviting orgID email db (InvitationRepository.delete inv.id db)

section Failure

variable {env : Env} {i : Proc} {w w' : World} {r : Request} {u orgID : Uuid} {inv : Invitation}

/-- A statement that only reads leaves the tables alone. -/
theorem read_same {s : Stmt} {y : Except Err s.Ok} (hs : ∀ ch db, (s.exec env.toPlatform ch db).2 = db)
    (hx : anyOutcome env i (.sql s) w y w') : w'.db = w.db := by
  rcases World.Exec.sql hx with ⟨-, hd⟩ | ⟨ch, -, hexec, -⟩
  · exact hd
  · rw [← hs ch w.db, hexec]

private theorem membership_added {m a : Membership}
    (hx : anyOutcome env i (.sql (.membershipCreate m)) w (.ok a) w') :
    a.userID = m.userID ∧ a.orgID = m.orgID ∧ a.role = m.role ∧
      ∃ memberships, w.db.memberships.insert? a = some memberships ∧
        w'.db = { w.db with memberships := memberships } := by
  rcases World.Exec.sql hx with ⟨hr, -⟩ | ⟨ch, -, hexec, -⟩
  · cases hr
  · rcases Stmt.write_inv hexec with ⟨_, ha, hc⟩ | ⟨e, he, -⟩
    · cases ha
      obtain ⟨rfl, memberships, hm, hd⟩ := MembershipRepository.create_ok hc
      exact ⟨rfl, rfl, rfl, memberships, hm, hd⟩
    · cases he

/-- Joining fails before its first write or between its two writes. -/
theorem join_part (hinv : inv ∈ w.db.invitations) (hpending : inv.status = .pending) :
    (join u inv).run.wp (anyOutcome env i)
      (fun x w' ↦ status x = 500 → PartOfAcceptance u w.db w'.db) w := by
  unfold join
  rw [wp_attempt_bind]
  constructor
  · intro m w₁ h₁
    rw [wp_attempt_bind]
    exact ⟨fun _ _ _ h ↦ absurd h (by decide), fun _ _ _ h ↦ absurd h (by decide)⟩
  · intro e w₁ h₁
    have hd₁ := World.Exec.failed h₁
    rw [wp_query_bind]
    constructor
    · intro m w₂ h₂
      obtain ⟨huser, horg, hrole, memberships, hm, hd₂⟩ := membership_added h₂
      rw [hd₁] at hm hd₂
      rw [wp_clock_bind]
      intro t w₃ h₃
      obtain ⟨-, hd₃, -⟩ := World.Exec.now_eq h₃
      rw [wp_query_bind]
      constructor
      · intro _ w₄ h₄
        rw [wp_attempt_bind]
        exact ⟨fun _ _ _ h ↦ absurd (show 200 = 500 from h) (by decide),
          fun _ _ _ h ↦ absurd (show 200 = 500 from h) (by decide)⟩
      · intro _ w₄ h₄ _
        rw [World.Exec.failed h₄, hd₃, hd₂]
        exact .membership hinv hpending huser horg hrole hm
    · intro _ w₂ h₂ _
      rw [World.Exec.failed h₂, hd₁]
      exact .nothing

private theorem checkExpiry_part {α : Type} {k : Unit → Handler α} {Q : Except Fault α → World → Prop}
    (hlate : ∀ w', Q (.error (.app (.badRequest "invitation has expired"))) w')
    (hk : ∀ w', w'.db = w.db → (k ()).run.wp (anyOutcome env i) Q w') :
    (checkExpiry inv >>= k).run.wp (anyOutcome env i) Q w := by
  rw [wp_handler_bind]
  refine Prog.wp.mono (fun x w' h ↦ ?_) (wp_checkExpiry inv w)
  rcases h with ⟨rfl, hd, -⟩ | ⟨rfl, -⟩
  · exact ⟨fun _ _ ↦ hk w' hd, fun e he ↦ (nomatch he)⟩
  · refine ⟨fun b hb ↦ (nomatch hb), fun e he ↦ ?_⟩
    cases he
    exact hlate w'

/-- What an acceptance by token leaves when it answers 500. -/
theorem acceptInvitation_part :
    (acceptInvitation env u r).run.wp (anyOutcome env i)
      (fun x w' ↦ status x = 500 → PartOfAcceptance u w.db w'.db) w := by
  unfold acceptInvitation
  rw [wp_check_bind]
  refine ⟨fun req _ ↦ ?_, fun _ _ _ ↦ .nothing⟩
  rw [wp_query_bind]
  refine ⟨fun (inv : Invitation) w₁ h₁ ↦ ?_, fun _ _ _ h ↦ absurd h (by decide)⟩
  have hd₁ : w₁.db = w.db := read_same (fun _ _ ↦ rfl) h₁
  have hinv : inv ∈ w.db.invitations := by
    rcases World.Exec.sql h₁ with ⟨hr, -⟩ | ⟨ch, -, hexec, -⟩
    · cases hr
    · exact InvitationRepository.findByToken_ok (Prod.mk.inj hexec).1
  by_cases hpending : inv.status = .pending
  · rw [if_neg (not_not.mpr hpending)]
    refine checkExpiry_part (fun _ h ↦ absurd h (by decide)) fun w₂ hd₂ ↦ ?_
    rw [wp_query_bind]
    refine ⟨fun (user : User) w₃ h₃ ↦ ?_, fun _ w₃ h₃ _ ↦ ?_⟩
    · have hd₃ : w₃.db = w₂.db := read_same (fun _ _ ↦ rfl) h₃
      have hd : w₃.db = w.db := by rw [hd₃, hd₂, hd₁]
      by_cases hemail : user.email = inv.email
      · rw [if_neg (not_not.mpr hemail), ← hd]
        rw [← hd] at hinv
        exact join_part hinv hpending
      · rw [if_pos hemail]
        exact fun h ↦ absurd h (by decide)
    · rw [World.Exec.failed h₃, hd₂, hd₁]
      exact .nothing
  · rw [if_pos hpending]
    exact fun h ↦ absurd h (by decide)

/-- What an answer to an invitation leaves when it is 500. -/
theorem respondToInvitation_part {idParam : String} :
    (respondToInvitation env u idParam r).run.wp (anyOutcome env i)
      (fun x w' ↦ status x = 500 → PartOfAcceptance u w.db w'.db) w := by
  unfold respondToInvitation
  split
  · next id _ =>
    rw [wp_check_bind]
    refine ⟨fun req _ ↦ ?_, fun _ _ _ ↦ .nothing⟩
    rw [wp_query_bind]
    refine ⟨fun (user : User) w₁ h₁ ↦ ?_, fun _ w₁ h₁ _ ↦ ?_⟩
    · have hd₁ : w₁.db = w.db := read_same (fun _ _ ↦ rfl) h₁
      rw [wp_query_bind]
      refine ⟨fun (inv : Invitation) w₂ h₂ ↦ ?_, fun _ w₂ h₂ _ ↦ ?_⟩
      · have hd₂ : w₂.db = w₁.db := read_same (fun _ _ ↦ rfl) h₂
        have hinv : inv ∈ w.db.invitations := by
          rw [← hd₁]
          rcases World.Exec.sql h₂ with ⟨hr, -⟩ | ⟨ch, -, hexec, -⟩
          · cases hr
          · exact (InvitationRepository.findByID_ok (Prod.mk.inj hexec).1).1
        by_cases hemail : user.email = inv.email
        · by_cases hpending : inv.status = .pending
          · rw [if_neg (not_not.mpr hemail), if_neg (not_not.mpr hpending)]
            refine checkExpiry_part (fun _ h ↦ absurd h (by decide)) fun w₃ hd₃ ↦ ?_
            have hd : w₃.db = w.db := by rw [hd₃, hd₂, hd₁]
            by_cases haction : req.action = "decline"
            · rw [if_pos haction, wp_query_bind]
              refine ⟨fun _ _ _ h ↦ absurd h (by decide), fun _ w₄ h₄ _ ↦ ?_⟩
              rw [World.Exec.failed h₄, hd]
              exact .nothing
            · rw [if_neg haction, ← hd]
              rw [← hd] at hinv
              exact join_part hinv hpending
          · rw [if_neg (not_not.mpr hemail), if_pos hpending]
            exact fun h ↦ absurd h (by decide)
        · rw [if_pos hemail]
          exact fun h ↦ absurd h (by decide)
      · rw [World.Exec.failed h₂, hd₁]
        exact .nothing
    · rw [World.Exec.failed h₁]
      exact .nothing
  · exact fun h ↦ absurd h (by decide)

/-- Looking for a member of that address only reads. -/
theorem wp_alreadyMember (env : Env) (i : Proc) (email : String) (orgID : Uuid) (w : World) :
    (alreadyMember email orgID).run.wp (anyOutcome env i)
      (fun x w' ↦ (∃ b, x = .ok b) ∧ w'.db = w.db) w := by
  unfold alreadyMember
  rw [wp_attempt_bind]
  refine ⟨fun (user : User) w₁ h₁ ↦ ?_, fun _ w₁ h₁ ↦ ⟨⟨_, rfl⟩, World.Exec.failed h₁⟩⟩
  have hd₁ : w₁.db = w.db := read_same (fun _ _ ↦ rfl) h₁
  rw [wp_attempt_bind]
  refine ⟨fun _ w₂ h₂ ↦ ⟨⟨_, rfl⟩, ?_⟩, fun _ w₂ h₂ ↦ ⟨⟨_, rfl⟩, ?_⟩⟩
  · rw [← hd₁]
    exact read_same (fun _ _ ↦ rfl) h₂
  · rw [World.Exec.failed h₂, hd₁]

/-- An old invitation is removed if it is expired or cancelled, and else left. -/
theorem removeOldInvitation_part (env : Env) (i : Proc) (email : String) (orgID : Uuid) (w : World) :
    (removeOldInvitation orgID email).run.wp (anyOutcome env i)
      (fun _ w' ↦ PartOfInviting orgID email w.db w'.db) w := by
  unfold removeOldInvitation
  rw [wp_attempt_bind]
  refine ⟨fun (inv : Invitation) w₁ h₁ ↦ ?_, fun e w₁ h₁ ↦ ?_⟩
  · have hd₁ : w₁.db = w.db := read_same (fun _ _ ↦ rfl) h₁
    obtain ⟨hinv, horg, hemail⟩ : inv ∈ w.db.invitations ∧ inv.orgID = orgID ∧ inv.email = email := by
      rcases World.Exec.sql h₁ with ⟨hr, -⟩ | ⟨ch, -, hexec, -⟩
      · cases hr
      · exact InvitationRepository.findByOrgAndEmail_pair (Prod.mk.inj hexec).1
    have hdelete (hs : inv.status = .expired ∨ inv.status = .cancelled) :
        (query (.invitationDelete inv.id)
          (fun _ ↦ .app (.internal "failed to remove old invitation")) >>=
            fun _ ↦ (pure () : Handler Unit)).run.wp (anyOutcome env i)
          (fun _ w' ↦ PartOfInviting orgID email w.db w'.db) w₁ := by
      rw [wp_query_bind]
      refine ⟨fun _ w₂ h₂ ↦ ?_, fun _ w₂ h₂ ↦ ?_⟩
      · rcases World.Exec.sql h₂ with ⟨hr, -⟩ | ⟨ch, -, hexec, -⟩
        · cases hr
        · rw [wp_handler_pure, ← (Prod.mk.inj hexec).2, hd₁]
          exact .removed hinv horg hemail hs
      · rw [World.Exec.failed h₂, hd₁]
        exact .nothing
    cases hs : inv.status with
    | pending | accepted =>
      simp only [hs]
      show PartOfInviting orgID email w.db w₁.db
      rw [hd₁]
      exact .nothing
    | expired => simpa only [hs] using hdelete (.inl hs)
    | cancelled => simpa only [hs] using hdelete (.inr hs)
  · have hsame : PartOfInviting orgID email w.db w₁.db := by
      rw [World.Exec.failed h₁]
      exact .nothing
    by_cases he : e = .notFound
    · simp only [if_pos he]
      exact hsame
    · simp only [if_neg he]
      exact hsame

/-- What an invitation leaves when it answers 500. -/
theorem createInvitation_part {req : CreateInvitationRequest}
    (hreq : decodeAndValidate CreateInvitationRequest.fields (CreateInvitationRequest.errors env)
      r.body = .ok req) :
    (createInvitation env u orgID r).run.wp (anyOutcome env i)
      (fun x w' ↦ status x = 500 → PartOfInviting orgID req.email w.db w'.db) w := by
  unfold createInvitation
  rw [wp_check_bind, hreq]
  refine ⟨fun req' h ↦ ?_, fun e he ↦ (nomatch he)⟩
  cases h
  rw [wp_handler_bind]
  refine Prog.wp.mono (fun x w₁ h₁ ↦ ?_) (wp_alreadyMember env i req.email orgID w)
  obtain ⟨⟨member, rfl⟩, hd₁⟩ := h₁
  refine ⟨fun b hb ↦ ?_, fun e he ↦ (nomatch he)⟩
  cases hb
  cases member with
  | true => exact fun h ↦ absurd h (by decide)
  | false =>
    rw [if_neg Bool.false_ne_true, wp_handler_bind]
    refine Prog.wp.mono (fun x w₂ h₂ ↦ ?_) (removeOldInvitation_part env i req.email orgID w₁)
    rw [hd₁] at h₂
    refine ⟨fun _ _ ↦ ?_, fun _ _ _ ↦ h₂⟩
    rw [wp_random_bind]
    refine ⟨fun bytes w₃ h₃ ↦ ?_, fun _ w₃ h₃ _ ↦ ?_⟩
    · have hd₃ : w₃.db = w₂.db := World.Exec.db_eq h₃ fun _ h ↦ (nomatch h)
      rw [wp_clock_bind]
      intro t w₄ h₄
      obtain ⟨-, hd₄, -⟩ := World.Exec.now_eq h₄
      rw [wp_query_bind]
      refine ⟨fun _ w₅ h₅ ↦ ?_, fun _ w₅ h₅ _ ↦ ?_⟩
      · -- the invitation is there, and the answer is 201 whatever the lookups for the email find
        have h201 (inv : Invitation) (w' : World) : (attempt (.membershipFindAllByUserID u) >>=
            fun _ ↦ (pure (writeJSON 201 (invitationJSON env inv)) : Handler Response)).run.wp
            (anyOutcome env i)
            (fun x w' ↦ status x = 500 → PartOfInviting orgID req.email w.db w'.db) w' := by
          rw [wp_attempt_bind]
          exact ⟨fun _ _ _ h ↦ absurd (show 201 = 500 from h) (by decide),
            fun _ _ _ h ↦ absurd (show 201 = 500 from h) (by decide)⟩
        rw [wp_attempt_bind]
        exact ⟨fun _ _ _ ↦ h201 _ _, fun _ _ _ ↦ h201 _ _⟩
      · rw [World.Exec.failed h₅, hd₄, hd₃]
        exact h₂
    · rw [World.Exec.db_eq h₃ fun _ h ↦ (nomatch h)]
      exact h₂

/-- An acceptance that answers 500 has changed nothing but, perhaps, inserted the membership that
the invitation offers; an invitation that answers 500 has changed nothing but, perhaps, removed an
expired or cancelled invitation for the same address. -/
theorem failed_access (env : Env) (i : Proc) (w w' : World) (r : Request) (x : Except Fault Response)
    (h500 : status x = 500) :
    (∀ u, (acceptInvitation env u r).run.Runs (anyOutcome env i) w x w' →
      PartOfAcceptance u w.db w'.db) ∧
    (∀ u idParam, (respondToInvitation env u idParam r).run.Runs (anyOutcome env i) w x w' →
      PartOfAcceptance u w.db w'.db) ∧
    ∀ u orgID req, decodeAndValidate CreateInvitationRequest.fields
      (CreateInvitationRequest.errors env) r.body = .ok req →
      (createInvitation env u orgID r).run.Runs (anyOutcome env i) w x w' →
      PartOfInviting orgID req.email w.db w'.db :=
  ⟨fun _ h ↦ h.post acceptInvitation_part h500,
    fun _ _ h ↦ h.post respondToInvitation_part h500,
    fun _ _ _ hreq h ↦ h.post (createInvitation_part hreq) h500⟩

end Failure

/-! ### A sample -/

/-- Bob accepts with the token of his invitation. -/
def sampleAccept : Request := sampleRequestOf ⟨5⟩ .nil "\x7b\"token\":\"0a\"\x7d"

/-- The last of the statements of an acceptance, the update of the invitation, fails. -/
def sampleUpdateFails : List Choice :=
  ((sampleTurns 4 [0, 0, 0, 0, 10, 0]).map Prod.snd) ++
    (sampleTurns 4 [0]).map fun t ↦ { t.2 with fail := true }

-- the elaborator would evaluate the handler on the body
attribute [local irreducible] acceptInvitation in
/-- Bob has become a member, gets an error, and the invitation is still pending. -/
theorem sample_half_accepted :
    ∃ c x w', (system sampleEnv sampleSent anyStep).Reachable (World.start 0) c ∧
      (acceptInvitation sampleEnv ⟨5⟩ sampleAccept).run.Runs (anyOutcome sampleEnv (.client 4))
        c.state x w' ∧
      status x = 500 ∧ c.state.db.memberships.rows.length = 2 ∧ w'.db.memberships.rows.length = 3 ∧
      (w'.db.invitations.find? ⟨9⟩).map Invitation.status = some .pending := by
  have hrun : ((sampleRun (fun _ _ _ ↦ true) sampleInvited).bind fun c ↦
      ((acceptInvitation sampleEnv ⟨5⟩ sampleAccept).run.play
        (World.step sampleEnv.toPlatform (.client 4)) sampleUpdateFails c.state).map fun p ↦
          (status p.1, c.state.db.memberships.rows.length, p.2.db.memberships.rows.length,
            (p.2.db.invitations.find? ⟨9⟩).map Invitation.status)) =
      some (500, 2, 3, some .pending) := by
    decide +kernel
  obtain ⟨c, hc, hrun⟩ := Option.bind_eq_some_iff.mp hrun
  obtain ⟨⟨x, w'⟩, hplay, hseen⟩ := Option.map_eq_some_iff.mp hrun
  simp only [Prod.mk.injEq] at hseen
  obtain ⟨hstatus, hbefore, hafter, hinv⟩ := hseen
  exact ⟨c, x, w', sample_reachable (fun _ _ _ _ ↦ trivial) hc,
    Prog.Runs.of_play (fun ch _ _ _ _ hs ↦ ⟨ch, trivial, hs⟩) hplay, hstatus, hbefore, hafter, hinv⟩

attribute [local irreducible] acceptInvitation in
theorem failed_access_sample :
    ∃ c, ∃ w' : World, (system sampleEnv sampleSent anyStep).Reachable (World.start 0) c ∧
      w'.db.memberships.rows.length = 3 ∧ PartOfAcceptance ⟨5⟩ c.state.db w'.db := by
  obtain ⟨c, x, w', h, hruns, hstatus, -, hafter, -⟩ := sample_half_accepted
  exact ⟨c, w', h, hafter,
    (failed_access sampleEnv (.client 4) c.state w' sampleAccept x hstatus).1 ⟨5⟩ hruns⟩

attribute [local irreducible] acceptInvitation in
/-- An acceptance that answers 500 has added a membership. -/
theorem acceptance_not_atomic :
    ∃ c x w', (system sampleEnv sampleSent anyStep).Reachable (World.start 0) c ∧
      (acceptInvitation sampleEnv ⟨5⟩ sampleAccept).run.Runs (anyOutcome sampleEnv (.client 4))
        c.state x w' ∧
      status x = 500 ∧ w'.db.memberships ≠ c.state.db.memberships := by
  obtain ⟨c, x, w', h, hruns, hstatus, hbefore, hafter, -⟩ := sample_half_accepted
  refine ⟨c, x, w', h, hruns, hstatus, fun he ↦ ?_⟩
  rw [he, hbefore] at hafter
  cases hafter

end Chis.Access
