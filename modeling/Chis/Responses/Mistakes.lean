import Chis.Access.Inviting

/-!
# Mistakes of clients that are answered as failures of the server

For each handler, the requests that it answers with a status code of 500 or more although nothing is
wrong with the server: a body that is no JSON, a text that Postgres does not store, and what the
handler passes on as an internal error.
-/

namespace Chis.Responses

open Program Api Access

/-! ### What is answered with 500 -/

/-- The body does not decode, or it is accepted as a request of which `P` holds. -/
def Body {α : Type} (fields : List (String × Json Decimal) → Option α) (errors : α → List FieldError)
    (body : String) (P : α → Prop) : Prop :=
  (decode body).bind fields = none ∨ ∃ req, decodeAndValidate fields errors body = .ok req ∧ P req

/-- There is no user of that id. -/
def NoUser (db : Db) (u : Uuid) : Prop := ∀ user ∈ db.users, user.id ≠ u

/-- An invitation can be accepted at time `t`. -/
def Open (t : Time) (inv : Invitation) : Prop := inv.status = .pending ∧ t ≤ inv.expiresAt

def registerFails (env : Env) (r : Request) : Prop :=
  Body RegisterRequest.fields (RegisterRequest.errors env) r.body fun req ↦
    72 < req.password.utf8ByteSize ∨
      ∃ s ∈ [req.email, req.firstName, req.lastName], textOk s = false

def loginFails (env : Env) (r : Request) : Prop :=
  Body LoginRequest.fields (LoginRequest.errors env) r.body fun _ ↦ False

def sendFails (env : Env) (r : Request) : Prop :=
  Body SendWebhookRequest.fields (SendWebhookRequest.errors env) r.body fun req ↦
    httpMethodValue (if req.method = "" then "POST" else req.method) = none ∨
      textOk req.url = false ∨ env.jsonb (marshal req.payload) = none

def createOrgFails (env : Env) (db : Db) (u : Uuid) (r : Request) : Prop :=
  Body NameRequest.fields (fun req ↦ fieldErrors env "name" [.required, .min 2] req.name) r.body
    fun req ↦ textOk req.name = false ∨
      (∃ o ∈ db.organizations, o.slug = Helper.slugify env.toLower req.name) ∨ NoUser db u

def acceptInvitationFails (env : Env) (db : Db) (u : Uuid) (r : Request) (t : Time) : Prop :=
  Body AcceptInvitationRequest.fields (fun req ↦ fieldErrors env "token" [.required] req.token)
    r.body fun req ↦
      (∃ inv ∈ db.invitations, inv.token = req.token ∧ Open t inv) ∧ NoUser db u

def respondToInvitationFails (env : Env) (db : Db) (u : Uuid) (idParam : String) (r : Request)
    (t : Time) : Prop :=
  ∃ id, Uuid.parse idParam = some id ∧
    Body RespondToInvitationRequest.fields
      (fun req ↦ fieldErrors env "action" [.required, .oneof ["accept", "decline"]] req.action)
      r.body fun req ↦ NoUser db u ∨ req.action = "decline" ∧ ∃ user ∈ db.users, user.id = u ∧
        ∃ inv ∈ db.invitations, inv.id = id ∧ inv.email = user.email ∧ Open t inv

def createApiKeyFails (env : Env) (r : Request) : Prop :=
  Body (CreateApiKeyRequest.fields env)
    (fun req ↦ fieldErrors env "name" [.required, .min 3] req.name) r.body
    fun req ↦ textOk req.name = false

def webhookLogsFails (r : Request) : Prop :=
  (r.get "status" ≠ "" ∧ MessageStatus.ofLabel (r.get "status") = none) ∨
    textOk (r.get "search") = false ∨
      Int.bmod ((pageOf (r.get "page") - 1) * limitOf (r.get "limit")) (2 ^ 64) < 0

def createInvitationFails (env : Env) (r : Request) : Prop :=
  Body CreateInvitationRequest.fields (CreateInvitationRequest.errors env) r.body
    fun req ↦ textOk req.email = false

def deleteOrgFails (env : Env) (r : Request) : Prop :=
  Body NameRequest.fields (fun req ↦ fieldErrors env "name" [.required] req.name) r.body
    fun _ ↦ False

/-! ### Runs alone -/

/-- Nothing fails, and no token is drawn that `db` has already. -/
structure Working (db : Db) (ch : Choice) : Prop where
  works : ch.fail = false
  token : ∀ inv ∈ db.invitations, inv.token ≠ Helper.randomText "" ch.bytes

/-- The operations of process `i` in such a run. -/
abbrev working (env : Env) (db : Db) (i : Proc) : (o : Op) → World → o.Res → World → Prop :=
  World.Exec env.toPlatform (Working db) i

theorem allow_working {db : Db} (ch : Choice) (h : Working db ch) : ch.fail = false := h.works

/-- Run alone from `w`, the handler answers with a failure of the server exactly if `P` holds at some
time of the run. -/
def Fails (env : Env) (db : Db) (i : Proc) (h : Handler Response) (w : World) (P : Time → Prop) :
    Prop :=
  h.run.wp (working env db i)
    (fun x w' ↦ ∃ t, w.clock ≤ t ∧ t ≤ w'.clock ∧ (500 ≤ status x ↔ P t)) w

section Rules

variable {env : Env} {db : Db} {i : Proc} {w : World}

/-- Time does not go back in a run. -/
theorem wp_clock {α : Type} (p : Service α) {t : Time} (ht : t ≤ w.clock) :
    p.wp (working env db i) (fun _ w' ↦ t ≤ w'.clock) w := by
  induction p generalizing w with
  | pure a => exact ht
  | op o k ih => exact fun r w₁ hx ↦ ih r (Int.le_trans ht hx.clock_le)

theorem Fails.congr {h : Handler Response} {P Q : Time → Prop} (hP : ∀ t, P t ↔ Q t)
    (hh : Fails env db i h w P) : Fails env db i h w Q := by
  unfold Fails at hh ⊢
  simp only [hP] at hh
  exact hh

/-- What is the case from a later point on. -/
theorem Fails.later {h : Handler Response} {P : Time → Prop} {w₁ : World}
    (hw : w.clock ≤ w₁.clock) (hh : Fails env db i h w₁ P) :
    h.run.wp (working env db i)
      (fun x w' ↦ ∃ t, w.clock ≤ t ∧ t ≤ w'.clock ∧ (500 ≤ status x ↔ P t)) w₁ :=
  Prog.wp.mono (fun _ _ ⟨t, hle, hle', hiff⟩ ↦ ⟨t, Int.le_trans hw hle, hle', hiff⟩) hh

/-- What does not depend on the time. -/
theorem fails_const {h : Handler Response} {P : Prop}
    (hh : h.run.wp (working env db i) (fun x _ ↦ 500 ≤ status x ↔ P) w) :
    Fails env db i h w fun _ ↦ P :=
  Prog.wp.mono (fun _ _ hx ↦ ⟨w.clock, Int.le_refl _, hx.2, hx.1⟩)
    (Prog.wp.and hh (wp_clock _ (Int.le_refl _)))

theorem fails_never {h : Handler Response}
    (hh : h.run.wp (working env db i) (fun x _ ↦ status x < 500) w) :
    Fails env db i h w fun _ ↦ False :=
  fails_const (Prog.wp.mono (fun _ _ hx ↦ iff_of_false (Nat.not_le.mpr hx) id) hh)

/-- A handler that decodes its body first. -/
theorem fails_body {α : Type} {fields : List (String × Json Decimal) → Option α}
    {errors : α → List FieldError} {body : String} {k : α → Handler Response} {P : α → Time → Prop}
    (hk : ∀ req, decodeAndValidate fields errors body = .ok req → Fails env db i (k req) w (P req)) :
    Fails env db i (check (decodeAndValidate fields errors body) >>= k) w fun t ↦
      Body fields errors body fun req ↦ P req t := by
  unfold Fails
  rw [wp_check_bind]
  constructor
  · intro req hreq
    refine Prog.wp.mono (fun x w' hx ↦ ?_) (hk req hreq)
    obtain ⟨t, hle, hle', hiff⟩ := hx
    refine ⟨t, hle, hle', hiff.trans ⟨fun hp ↦ .inr ⟨req, hreq, hp⟩, fun hb ↦ ?_⟩⟩
    rcases hb with hnone | ⟨req', hreq', hp⟩
    · rw [(decodeAndValidate_ok.mp hreq).1] at hnone
      cases hnone
    · rw [hreq] at hreq'
      cases hreq'
      exact hp
  · intro e he
    refine ⟨w.clock, Int.le_refl _, Int.le_refl _, ?_⟩
    have hno : ¬ ∃ req, decodeAndValidate fields errors body = .ok req := by
      rintro ⟨req, hreq⟩
      rw [he] at hreq
      cases hreq
    unfold decodeAndValidate at he
    split at he
    · next hnone =>
      cases he
      exact iff_of_true (by decide) (.inl hnone)
    · next req hsome =>
      split at he
      · cases he
      · cases he
        refine iff_of_false (by simp [status, Fault.toAppError, AppError.validationFailed]) ?_
        rintro (hnone | ⟨req, hreq, -⟩)
        · rw [hsome] at hnone
          cases hnone
        · exact hno ⟨req, hreq⟩

/-- A statement that cannot fail, and a response. -/
theorem query_never {s : Stmt} {fault : Err → Fault} {k : s.Ok → Response}
    (hs : ∀ ch db, ∃ a, (s.exec env.toPlatform ch db).1 = .ok a) (hk : ∀ a, (k a).code < 500) :
    Fails env db i (query s fault >>= fun a ↦ pure (k a)) w fun _ ↦ False := by
  refine fails_never ?_
  rw [wp_query_bind]
  constructor
  · exact fun a w₁ _ ↦ hk a
  · intro e w₁ h₁
    obtain ⟨ch, -, hexec, -⟩ := h₁.sql_works allow_working
    obtain ⟨a, ha⟩ := hs ch w.db
    rw [hexec] at ha
    cases ha

end Rules

end Chis.Responses
