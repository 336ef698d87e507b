import Chis.Access.Invitations
import Chis.Accounts.Creation

/-!
# Declining an invitation

`RespondToInvitation` writes the status `declined`, which `invitation_status` does not have: the
statement fails, and the invitation stays as it was.
-/

namespace Chis

open Program Api

namespace Access

/-- Every operation succeeds as far as the tables let it. -/
abbrev available (env : Env) (i : Proc) : (o : Op) → World → o.Res → World → Prop :=
  World.Exec env.toPlatform World.faultless i

/-- The expiry check lets an invitation through that is in time, and else tries to mark it as
expired. -/
theorem wp_checkExpiry {env : Env} {allow : Choice → Prop} {i : Proc} (inv : Invitation) (w : World) :
    (checkExpiry inv).run.wp (World.Exec env.toPlatform allow i)
      (fun x w' ↦ (x = .ok () ∧ w'.db = w.db ∧ w'.issued = w.issued ∧ w'.clock ≤ inv.expiresAt) ∨
        (x = .error (.app (.badRequest "invitation has expired")) ∧ inv.expiresAt < w'.clock ∧
          ∃ w₁ y, w₁.db = w.db ∧ World.Exec env.toPlatform allow i
            (.sql (.invitationUpdateStatus inv.id "expired")) w₁ y w')) w := by
  unfold checkExpiry
  rw [wp_clock_bind]
  intro t w₁ h₁
  obtain ⟨ht, hd, hi⟩ := World.Exec.now_eq h₁
  by_cases hlate : inv.expiresAt < t
  · rw [if_pos hlate]
    have hclock {y : Except Err Unit} {w₂ : World} (h₂ : World.Exec env.toPlatform allow i
        (.sql (.invitationUpdateStatus inv.id "expired")) w₁ y w₂) : inv.expiresAt < w₂.clock :=
      Int.lt_of_lt_of_le (ht ▸ hlate) h₂.clock_le
    rw [wp_attempt_bind]
    exact ⟨fun a w₂ h₂ ↦ .inr ⟨rfl, hclock h₂, w₁, _, hd, h₂⟩,
      fun e w₂ h₂ ↦ .inr ⟨rfl, hclock h₂, w₁, _, hd, h₂⟩⟩
  · rw [if_neg hlate, wp_handler_pure]
    exact .inl ⟨rfl, hd, hi, ht ▸ Int.not_lt.mp hlate⟩

/-- What it is to decline: the answer is 200, the invitation leaves the list of its addressee and
neither endpoint accepts it any more. -/
structure Declined (email : String) (inv : Invitation) (x : Except Fault Response) (w' : World) :
    Prop where
  answer : status x = 200
  gone : ∀ tie now ps, InvitationRepository.findPendingByEmail tie now email w'.db = .ok ps →
    ∀ p ∈ ps, p.id ≠ inv.id
  closed : ∀ inv' ∈ w'.db.invitations, inv'.id = inv.id → inv'.status ≠ .pending

section Decline

variable {env : Env} {i : Proc} {w w' : World} {r : Request} {u : Uuid} {user : User}
  {inv : Invitation} {idParam : String}

/-- A user is found by its id. -/
theorem user_found {y : Except Err User} (huser : user ∈ w.db.users)
    (hx : available env i (.sql (.userFindByID user.id)) w y w') : y = .ok user ∧ w'.db = w.db := by
  obtain ⟨ch, hexec, -⟩ := World.Exec.sql_faultless hx
  obtain ⟨hy, hd⟩ := Prod.mk.inj hexec
  rw [← hy, ← hd, UserRepository.findByID,
    (w.db.users.find?_eq_some_iff _ _).mpr ⟨huser, rfl⟩]
  exact ⟨rfl, rfl⟩

/-- An invitation is found by its id. -/
theorem invitation_found {y : Except Err Invitation} (hinv : inv ∈ w.db.invitations)
    (hx : available env i (.sql (.invitationFindByID inv.id)) w y w') :
    y = .ok inv ∧ w'.db = w.db := by
  obtain ⟨ch, hexec, -⟩ := World.Exec.sql_faultless hx
  obtain ⟨hy, hd⟩ := Prod.mk.inj hexec
  rw [← hy, ← hd, InvitationRepository.findByID,
    (w.db.invitations.find?_eq_some_iff _ _).mpr ⟨hinv, rfl⟩]
  exact ⟨rfl, rfl⟩

/-- No status is called `declined`. -/
theorem declined_refused {id : Uuid} {y : Except Err Unit}
    (hx : available env i (.sql (.invitationUpdateStatus id "declined")) w y w') :
    y = .error (.pg Sqlstate.invalidTextFormat) ∧ w'.db = w.db := by
  obtain ⟨ch, hexec, -⟩ := World.Exec.sql_faultless hx
  obtain ⟨hy, hd⟩ := Prod.mk.inj hexec
  exact ⟨hy.symm, hd.symm⟩

private theorem decline_fails (hid : Uuid.parse idParam = some inv.id)
    (hreq : decodeAndValidate RespondToInvitationRequest.fields
      (fun req ↦ fieldErrors env "action" [.required, .oneof ["accept", "decline"]] req.action)
      r.body = .ok ⟨"decline"⟩)
    (huser : user ∈ w.db.users) (hinv : inv ∈ w.db.invitations) (hemail : user.email = inv.email)
    (hpending : inv.status = .pending) :
    (respondToInvitation env user.id idParam r).run.wp (available env i)
      (fun x w' ↦ w'.clock ≤ inv.expiresAt → status x = 500 ∧ w'.db = w.db) w := by
  unfold respondToInvitation
  rw [hid]
  simp only []
  rw [wp_check_bind, hreq]
  refine ⟨fun req h ↦ ?_, fun e he ↦ nomatch he⟩
  cases h
  rw [wp_query_bind]
  refine ⟨fun user' w₁ h₁ ↦ ?_, fun e w₁ h₁ ↦ nomatch (user_found huser h₁).1⟩
  obtain ⟨hu, hd₁⟩ := user_found huser h₁
  cases hu
  rw [← hd₁] at hinv
  rw [wp_query_bind]
  refine ⟨fun inv' w₂ h₂ ↦ ?_, fun e w₂ h₂ ↦ nomatch (invitation_found hinv h₂).1⟩
  obtain ⟨hi, hd₂⟩ := invitation_found hinv h₂
  cases hi
  rw [if_neg (not_not.mpr hemail), if_neg (not_not.mpr hpending), wp_handler_bind]
  refine Prog.wp.mono (fun x w₃ h₃ ↦ ?_) (wp_checkExpiry inv w₂)
  rcases h₃ with ⟨rfl, hd₃, -, -⟩ | ⟨rfl, hlate, -⟩
  · refine ⟨fun _ _ ↦ ?_, fun e he ↦ (nomatch he)⟩
    rw [if_pos rfl, wp_query_bind]
    refine ⟨fun a w₄ h₄ ↦ (nomatch (declined_refused h₄).1), fun e w₄ h₄ _ ↦ ⟨rfl, ?_⟩⟩
    rw [(declined_refused h₄).2, hd₃, hd₂, hd₁]
  · refine ⟨fun b hb ↦ (nomatch hb), fun e he hclock ↦ ?_⟩
    cases he
    exact absurd hlate (Int.not_lt.mpr hclock)

/-- No invitation can be declined: the answer is 500 and the tables stay as they were. -/
theorem decline_refused {x : Except Fault Response} (hid : Uuid.parse idParam = some inv.id)
    (hreq : decodeAndValidate RespondToInvitationRequest.fields
      (fun req ↦ fieldErrors env "action" [.required, .oneof ["accept", "decline"]] req.action)
      r.body = .ok ⟨"decline"⟩)
    (huser : user ∈ w.db.users) (hinv : inv ∈ w.db.invitations) (hemail : user.email = inv.email)
    (hpending : inv.status = .pending)
    (hrun : (respondToInvitation env user.id idParam r).run.Runs (available env i) w x w')
    (htime : w'.clock ≤ inv.expiresAt) :
    ¬ Declined user.email inv x w' ∧ status x = 500 ∧ w'.db = w.db := by
  obtain ⟨hstatus, hd⟩ :=
    hrun.post (decline_fails hid hreq huser hinv hemail hpending) htime
  refine ⟨fun h ↦ ?_, hstatus, hd⟩
  have h200 := h.answer
  rw [hstatus] at h200
  cases h200

end Decline

/-! ### A sample -/

/-- Bob declines. -/
def sampleDecline : Request := sampleRequestOf ⟨5⟩ .nil "\x7b\"action\":\"decline\"\x7d"

/-- Bob has been invited to Ann's organization, and declines. -/
structure SampleDeclined (c : Config Proc World Op Op.Res) (user : User) (inv : Invitation)
    (x : Except Fault Response) (w' : World) : Prop where
  reachable : (system sampleEnv sampleSent anyStep).Reachable (World.start 0) c
  addressee : user ∈ c.state.db.users ∧ user.id = ⟨5⟩
  row : inv ∈ c.state.db.invitations ∧ inv.id = ⟨9⟩
  pending : inv.status = .pending ∧ user.email = inv.email ∧ w'.clock ≤ inv.expiresAt
  runs : (respondToInvitation sampleEnv ⟨5⟩ (Uuid.toString ⟨9⟩) sampleDecline).run.Runs
    (available sampleEnv (.client 4)) c.state x w'
  answer : status x = 500

-- an evaluation of the handler would go down to the digits of an id
attribute [local irreducible] respondToInvitation in
theorem sample_declined : ∃ c user inv x w', SampleDeclined c user inv x w' := by
  have hrun : ((sampleRun (fun _ _ _ ↦ true) sampleInvited).bind fun c ↦
      ((respondToInvitation sampleEnv ⟨5⟩ (Uuid.toString ⟨9⟩) sampleDecline).run.play
        (fun ch ↦ World.step sampleEnv.toPlatform (.client 4) { ch with fail := false })
        ((sampleTurns 4 [0, 0, 0, 0]).map Prod.snd) c.state).map fun p ↦
          ((c.state.db.users.find? ⟨5⟩).map User.email,
            (c.state.db.invitations.find? ⟨9⟩).map fun inv ↦
              (inv.email, inv.status, decide (p.2.clock ≤ inv.expiresAt)), status p.1)) =
      some (some "bob@b.io", some ("bob@b.io", .pending, true), 500) := by
    decide +kernel
  obtain ⟨c, x, w', h, hruns, hseen⟩ := sample_seen_alone (fun _ _ _ _ ↦ trivial) hrun
  obtain ⟨huser, hseen⟩ := Prod.mk.inj hseen
  obtain ⟨hinv, hstatus⟩ := Prod.mk.inj hseen
  obtain ⟨user, hu, hue⟩ := Option.map_eq_some_iff.mp huser
  obtain ⟨inv, hi, hie⟩ := Option.map_eq_some_iff.mp hinv
  simp only [Prod.mk.injEq, decide_eq_true_eq] at hie
  exact ⟨c, user, inv, x, w', h, (c.state.db.users.find?_eq_some_iff _ _).mp hu,
    (c.state.db.invitations.find?_eq_some_iff _ _).mp hi, ⟨hie.2.1, hue.trans hie.1.symm, hie.2.2⟩,
    hruns, hstatus⟩

private theorem sampleDecline_decodes :
    decodeAndValidate RespondToInvitationRequest.fields
      (fun req ↦ fieldErrors sampleEnv "action" [.required, .oneof ["accept", "decline"]] req.action)
      sampleDecline.body = .ok ⟨"decline"⟩ :=
  decodeAndValidate_ok.mpr (by decide +kernel)

attribute [local irreducible] respondToInvitation in
theorem decline_refused_sample : ∃ c user inv x w', SampleDeclined c user inv x w' ∧
    ¬ Declined user.email inv x w' ∧ status x = 500 ∧ w'.db = c.state.db := by
  obtain ⟨c, user, inv, x, w', h⟩ := sample_declined
  refine ⟨c, user, inv, x, w', h, ?_⟩
  have hid : Uuid.parse (Uuid.toString ⟨9⟩) = some inv.id := by rw [Uuid.parse_toString, h.row.2]
  have hrun := h.runs
  rw [← h.addressee.2] at hrun
  exact decline_refused hid sampleDecline_decodes h.addressee.1 h.row.1 h.pending.2.1 h.pending.1 hrun
    h.pending.2.2

attribute [local irreducible] respondToInvitation in
/-- Bob's invitation is not declined. -/
theorem bob_cannot_decline : ∃ c user inv x w', SampleDeclined c user inv x w' ∧
    ¬ Declined user.email inv x w' := by
  obtain ⟨c, user, inv, x, w', h⟩ := sample_declined
  refine ⟨c, user, inv, x, w', h, fun hd ↦ ?_⟩
  have h200 := hd.answer
  rw [h.answer] at h200
  cases h200

end Access

end Chis
