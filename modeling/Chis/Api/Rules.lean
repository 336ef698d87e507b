import Chis.Api.Router
import Chis.Base.Trace

/-!
# Rules for handlers

What a handler does, operation by operation: `Tells` is the judgement of `Chis.Base.Trace` for
programs that may end with an error, with one rule for each way to write a handler.
-/

namespace Chis

open Program

/-- A statement has returned `a`. -/
abbrev Stmt.returned (s : Stmt) (a : s.Ok) : Event Op.Res := ⟨.sql s, (.ok a : Except Err s.Ok)⟩

/-- A statement has failed. -/
abbrev Stmt.failed (s : Stmt) (e : Err) : Event Op.Res := ⟨.sql s, (.error e : Except Err s.Ok)⟩

/-- A look at the clock. -/
abbrev Op.sawTime (t : Time) : Event Op.Res := ⟨.now, t⟩

namespace Api

variable {α β : Type} {P : List (Event Op.Res) → Op → Prop} {past : List (Event Op.Res)}

/-- Every operation of a handler satisfies `P` after the earlier ones, and a handler that ends with
a result satisfies `Q`. -/
def Tells (P : List (Event Op.Res) → Op → Prop) (Q : List (Event Op.Res) → α → Prop)
    (h : Handler α) (past : List (Event Op.Res)) : Prop :=
  h.run.Traces P (fun past x ↦ ∀ a, x = .ok a → Q past a) past

section Rules

variable {Q : List (Event Op.Res) → α → Prop}

@[simp] theorem tells_pure (a : α) : Tells P Q (pure a) past ↔ Q past a := by
  simp [Tells]

@[simp] theorem tells_fail (e : AppError) : Tells P Q (fail e : Handler α) past := by
  simp [Tells]

@[simp] theorem tells_fail_bind (e : AppError) (k : β → Handler α) :
    Tells P Q (fail e >>= k) past := by
  simp [Tells]

@[simp] theorem tells_check (x : Except Fault α) :
    Tells P Q (check x) past ↔ ∀ a, x = .ok a → Q past a := Iff.rfl

@[simp] theorem tells_check_bind (x : Except Fault β) (k : β → Handler α) :
    Tells P Q (check x >>= k) past ↔ ∀ b, x = .ok b → Tells P Q (k b) past := by
  unfold Tells
  cases x with
  | ok b =>
    rw [run_check_ok]
    exact ⟨fun h b' hb ↦ Except.ok.inj hb ▸ h, fun h ↦ h b rfl⟩
  | error e =>
    rw [run_check_error]
    exact iff_of_true (fun a ha ↦ nomatch ha) fun b hb ↦ nomatch hb

/-- A statement whose failure ends the handler. -/
@[simp] theorem tells_query_bind (s : Stmt) (fault : Err → Fault) (k : s.Ok → Handler α) :
    Tells P Q (@bind Handler _ (no_index s.Ok) α (query s fault) k) past ↔
      P past (.sql s) ∧ ∀ a, Tells P Q (k a) (s.returned a :: past) := by
  constructor
  · intro h
    exact ⟨h.1, fun a ↦ h.2 (.ok a)⟩
  · rintro ⟨hp, h⟩
    refine ⟨hp, fun (r : Except Err s.Ok) ↦ ?_⟩
    cases r with
    | ok a => exact h a
    | error e => exact fun a ha ↦ nomatch ha

/-- A statement whose failure is looked at. -/
@[simp] theorem tells_attempt_bind (s : Stmt) (k : Except Err s.Ok → Handler α) :
    Tells P Q (@bind Handler _ (no_index (Except Err s.Ok)) α (attempt s) k) past ↔
      P past (.sql s) ∧ (∀ a, Tells P Q (k (.ok a)) (s.returned a :: past)) ∧
        ∀ e, Tells P Q (k (.error e)) (s.failed e :: past) := by
  constructor
  · intro h
    exact ⟨h.1, fun a ↦ h.2 (.ok a), fun e ↦ h.2 (.error e)⟩
  · rintro ⟨hp, hok, herr⟩
    refine ⟨hp, fun (r : Except Err s.Ok) ↦ ?_⟩
    cases r with
    | ok a => exact hok a
    | error e => exact herr e

@[simp] theorem tells_clock_bind (k : Time → Handler α) :
    Tells P Q (clock >>= k) past ↔ P past .now ∧ ∀ t, Tells P Q (k t) (Op.sawTime t :: past) :=
  Iff.rfl

@[simp] theorem tells_random_bind (fault : AppError) (k : List UInt8 → Handler α) :
    Tells P Q (random fault >>= k) past ↔
      P past .rand ∧ ∀ bytes,
        Tells P Q (k bytes) (⟨.rand, (.ok bytes : Except Err (List UInt8))⟩ :: past) := by
  constructor
  · intro h
    exact ⟨h.1, fun bytes ↦ h.2 (.ok bytes)⟩
  · rintro ⟨hp, h⟩
    refine ⟨hp, fun (r : Except Err (List UInt8)) ↦ ?_⟩
    cases r with
    | ok bytes => exact h bytes
    | error e => exact fun a ha ↦ nomatch ha

@[simp] theorem tells_ite (c : Prop) [Decidable c] (h h' : Handler α) :
    Tells P Q (if c then h else h') past ↔ (c → Tells P Q h past) ∧ (¬c → Tells P Q h' past) := by
  split <;> simp [*]

/-- A statement of a program of the services. -/
@[simp] theorem traces_sql_bind (s : Stmt) (k : Except Err s.Ok → Service α) :
    Prog.Traces P Q (@Prog.bind _ _ (no_index (Except Err s.Ok)) _ (Service.sql s) k) past ↔
      P past (.sql s) ∧ (∀ a, (k (.ok a)).Traces P Q (s.returned a :: past)) ∧
        ∀ e, (k (.error e)).Traces P Q (s.failed e :: past) := by
  constructor
  · intro h
    exact ⟨h.1, fun a ↦ h.2 (.ok a), fun e ↦ h.2 (.error e)⟩
  · rintro ⟨hp, hok, herr⟩
    refine ⟨hp, fun (r : Except Err s.Ok) ↦ ?_⟩
    cases r with
    | ok a => exact hok a
    | error e => exact herr e

/-- A look at the clock by a program of the services. -/
@[simp] theorem traces_now_bind (k : Time → Service α) :
    Prog.Traces P Q (Prog.bind timeNow k) past ↔
      P past .now ∧ ∀ t, (k t).Traces P Q (Op.sawTime t :: past) := Iff.rfl

/-- The push of a message id. -/
@[simp] theorem traces_push_bind (messageID : String) (k : Except Err Unit → Service α) :
    Prog.Traces P Q (Prog.bind (Queue.push messageID) k) past ↔
      P past (.push messageID) ∧
        ∀ x : Except Err Unit, (k x).Traces P Q (⟨.push messageID, x⟩ :: past) := Iff.rfl

/-- A handler that is part of another. -/
theorem tells_bind {h : Handler β} {k : β → Handler α}
    (hh : Tells P (fun past b ↦ Tells P Q (k b) past) h past) : Tells P Q (h >>= k) past := by
  unfold Tells
  rw [ExceptT.run_bind, Prog.monad_bind, Prog.traces_bind]
  refine Prog.Traces.mono (fun _ _ h ↦ h) (fun past x hx ↦ ?_) hh
  cases x with
  | ok b => exact hx b rfl
  | error e => exact fun a ha ↦ nomatch ha

/-- A program of the services that is part of a handler. -/
theorem tells_lift_bind {p : Service β} {k : β → Handler α}
    (hp : p.Traces P (fun past b ↦ Tells P Q (k b) past) past) :
    Tells P Q ((ExceptT.lift p : Handler β) >>= k) past := by
  refine tells_bind ?_
  change (p.bind fun b ↦ Prog.pure (Except.ok b : Except Fault β)).Traces P _ past
  rw [Prog.traces_bind]
  refine Prog.Traces.mono (fun _ _ h ↦ h) (fun past b hb a ha ↦ ?_) hp
  cases ha
  exact hb

theorem Tells.mono {Q' : List (Event Op.Res) → α → Prop} (hQ : ∀ past a, Q past a → Q' past a)
    {h : Handler α} (hh : Tells P Q h past) : Tells P Q' h past :=
  Prog.Traces.mono (fun _ _ h ↦ h) (fun past _ hx a ha ↦ hQ past a (hx a ha)) hh

end Rules

/-! ### Running alone -/

section Alone

variable {σ : Type} {exec : (o : Op) → σ → o.Res → σ → Prop} {Q : Except Fault α → σ → Prop} {w : σ}

@[simp] theorem wp_handler_pure (a : α) :
    (pure a : Handler α).run.wp exec Q w ↔ Q (.ok a) w := Iff.rfl

@[simp] theorem wp_fail (e : AppError) :
    (fail e : Handler α).run.wp exec Q w ↔ Q (.error (.app e)) w := Iff.rfl

theorem wp_check_bind (x : Except Fault β) (k : β → Handler α) :
    (check x >>= k).run.wp exec Q w ↔
      (∀ b, x = .ok b → (k b).run.wp exec Q w) ∧ ∀ e, x = .error e → Q (.error e) w := by
  cases x with
  | ok b =>
    rw [run_check_ok]
    exact ⟨fun h ↦ ⟨fun b' hb ↦ Except.ok.inj hb ▸ h, fun e he ↦ (nomatch he)⟩, fun h ↦ h.1 b rfl⟩
  | error e =>
    rw [run_check_error]
    constructor
    · intro h
      refine ⟨fun b hb ↦ (nomatch hb), fun e' he ↦ ?_⟩
      cases he
      exact h
    · exact fun h ↦ h.2 e rfl

theorem wp_query_bind (s : Stmt) (fault : Err → Fault) (k : s.Ok → Handler α) :
    (query s fault >>= k).run.wp exec Q w ↔
      (∀ a w', exec (.sql s) w (.ok a) w' → (k a).run.wp exec Q w') ∧
        ∀ e w', exec (.sql s) w (.error e) w' → Q (.error (fault e)) w' := by
  rw [run_query_bind, Prog.wp_op]
  constructor
  · exact fun h ↦ ⟨fun a ↦ h (.ok a), fun e ↦ h (.error e)⟩
  · rintro ⟨hok, herr⟩ (e | a) w' hx
    · exact herr e w' hx
    · exact hok a w' hx

theorem wp_attempt_bind (s : Stmt) (k : Except Err s.Ok → Handler α) :
    (attempt s >>= k).run.wp exec Q w ↔
      (∀ a w', exec (.sql s) w (.ok a) w' → (k (.ok a)).run.wp exec Q w') ∧
        ∀ e w', exec (.sql s) w (.error e) w' → (k (.error e)).run.wp exec Q w' := by
  rw [run_attempt_bind, Prog.wp_op]
  constructor
  · exact fun h ↦ ⟨fun a ↦ h (.ok a), fun e ↦ h (.error e)⟩
  · rintro ⟨hok, herr⟩ (e | a) w' hx
    · exact herr e w' hx
    · exact hok a w' hx

theorem wp_clock_bind (k : Time → Handler α) :
    (clock >>= k).run.wp exec Q w ↔
      ∀ t w', exec .now w t w' → (k t).run.wp exec Q w' := Iff.rfl

/-- A handler that is part of another. -/
theorem wp_handler_bind (h : Handler β) (k : β → Handler α) :
    (h >>= k).run.wp exec Q w ↔
      h.run.wp exec (fun x w' ↦ (∀ b, x = .ok b → (k b).run.wp exec Q w') ∧
        ∀ e, x = .error e → Q (.error e) w') w := by
  rw [ExceptT.run_bind, Prog.monad_bind, Prog.wp_bind]
  constructor
  · intro h
    refine Prog.wp.mono (fun x w' hx ↦ ?_) h
    cases x with
    | ok b => exact ⟨fun b' hb ↦ Except.ok.inj hb ▸ hx, fun e he ↦ (nomatch he)⟩
    | error e => exact ⟨fun b hb ↦ (nomatch hb), fun e' he ↦ Except.error.inj he ▸ hx⟩
  · intro h
    refine Prog.wp.mono (fun x w' hx ↦ ?_) h
    cases x with
    | ok b => exact hx.1 b rfl
    | error e => exact hx.2 e rfl

/-- A program of the services that is part of a handler. -/
theorem wp_lift_bind (p : Service β) (k : β → Handler α) :
    ((ExceptT.lift p : Handler β) >>= k).run.wp exec Q w ↔
      p.wp exec (fun b w' ↦ (k b).run.wp exec Q w') w := by
  rw [wp_handler_bind]
  change (p.bind fun b ↦ Prog.pure (Except.ok b : Except Fault β)).wp exec _ w ↔ _
  rw [Prog.wp_bind]
  constructor
  · exact Prog.wp.mono fun b _ hb ↦ hb.1 b rfl
  · exact Prog.wp.mono fun b _ hb ↦ ⟨fun b' he ↦ Except.ok.inj he ▸ hb, fun e he ↦ (nomatch he)⟩

theorem wp_random_bind (fault : AppError) (k : List UInt8 → Handler α) :
    (random fault >>= k).run.wp exec Q w ↔
      (∀ bytes w', exec .rand w (.ok bytes) w' → (k bytes).run.wp exec Q w') ∧
        ∀ e w', exec .rand w (.error e) w' → Q (.error (.app fault)) w' := by
  rw [run_random_bind, Prog.wp_op]
  constructor
  · exact fun h ↦ ⟨fun bytes ↦ h (.ok bytes), fun e ↦ h (.error e)⟩
  · rintro ⟨hok, herr⟩ (e | bytes) w' hx
    · exact herr e w' hx
    · exact hok bytes w' hx

end Alone

/-- The status code with which `Wrap` answers. -/
def status : Except Fault Response → Nat
  | .ok res => res.code
  | .error fault => fault.toAppError.code

/-- `Wrap` looks at the clock, at most, and answers with what the handler says or with an error. -/
theorem traces_wrap {r : Request} {h : Handler Response} {Q : List (Event Op.Res) → Response → Prop}
    (hnow : ∀ past, P past .now)
    (hbody : ∀ (fault : Fault) (now : Time) past,
      Q past (writeJSON fault.toAppError.code (fault.toAppError.body r.path now)))
    (hh : Tells P Q h past) : (wrap r h).Traces P Q past := by
  unfold wrap
  rw [Prog.monad_bind, Prog.traces_bind]
  refine Prog.Traces.mono (fun _ _ h ↦ h) (fun past x hx ↦ ?_) hh
  cases x with
  | ok res => exact hx res rfl
  | error fault => exact ⟨hnow past, fun now ↦ hbody fault now _⟩

/-! ### Middlewares -/

section Middlewares

variable {r : Request} {Q : List (Event Op.Res) → Response → Prop}

/-- `ValidateToken` passes a request on for the user of its token. -/
theorem traces_validateToken {env : Env} {next : Uuid → Service Response} (hnow : P past .now)
    (hQ : ∀ past, Q past (message 401 "invalid token"))
    (hnext : ∀ token t userID, bearerToken r.authorization = some token →
      tokenUser env t token = some userID → (next userID).Traces P Q (Op.sawTime t :: past)) :
    (validateToken env r next).Traces P Q past := by
  unfold validateToken
  split
  · exact hQ past
  · next token htoken =>
    rw [Prog.monad_bind, traces_now_bind]
    refine ⟨hnow, fun t ↦ ?_⟩
    cases hu : tokenUser env t token with
    | none => exact hQ _
    | some userID => exact hnext token t userID htoken hu

/-- `ValidateOrgAccess` passes a request on for the organization of its header, of which the user
is a member. -/
theorem traces_validateOrgAccess {userID : Uuid} {next : Uuid → Service Response}
    (hread : ∀ orgID, P past (.sql (.membershipFindByUserAndOrgID userID orgID)))
    (hQ : ∀ past code text, Q past (message code text))
    (hnext : ∀ orgID (m : Membership), Uuid.parse r.orgHeader = some orgID →
      (next orgID).Traces P Q ((Stmt.membershipFindByUserAndOrgID userID orgID).returned m :: past)) :
    (validateOrgAccess r userID next).Traces P Q past := by
  unfold validateOrgAccess
  split
  · exact hQ _ _ _
  · cases ho : Uuid.parse r.orgHeader with
    | none => exact hQ _ _ _
    | some orgID =>
      simp only [Prog.monad_bind, traces_sql_bind]
      exact ⟨hread orgID, fun m ↦ hnext orgID m ho, fun _ ↦ hQ _ _ _⟩

/-- `RequireAdmin` passes a request on for a user whose membership has the role `admin`. -/
theorem traces_requireAdmin {userID orgID : Uuid} {next : Service Response}
    (hread : P past (.sql (.membershipFindByUserAndOrgID userID orgID)))
    (hQ : ∀ past code text, Q past (message code text))
    (hnext : ∀ m : Membership, m.role = .admin →
      next.Traces P Q ((Stmt.membershipFindByUserAndOrgID userID orgID).returned m :: past)) :
    (requireAdmin userID orgID next).Traces P Q past := by
  unfold requireAdmin
  simp only [Prog.monad_bind, traces_sql_bind]
  refine ⟨hread, fun (m : Membership) ↦ ?_, fun _ ↦ hQ _ _ _⟩
  by_cases hrole : m.role = .admin
  · rw [if_pos hrole]
    exact hnext m hrole
  · rw [if_neg hrole]
    exact hQ _ _ _

/-- `ValidateApiKey` passes a request on for the organization of its key. -/
theorem traces_validateApiKey {env : Env} {next : Uuid → Service Response}
    (hread : ∀ hash, P past (.sql (.apiKeyFindByHashedKey hash))) (hnow : ∀ past, P past .now)
    (hQ : ∀ past code text, Q past (message code text))
    (hnext : ∀ orgID past, (next orgID).Traces P Q past) :
    (validateApiKey env r next).Traces P Q past := by
  unfold validateApiKey
  split
  · exact hQ _ _ _
  · simp only [Prog.monad_bind, traces_sql_bind]
    refine ⟨hread _, fun (key : APIKey) ↦ ?_, fun _ ↦ hQ _ _ _⟩
    cases key.expiresAt with
    | none => exact hnext _ _
    | some expiresAt =>
      rw [traces_now_bind]
      refine ⟨hnow _, fun t ↦ ?_⟩
      split
      · exact hQ _ _ _
      · exact hnext _ _

end Middlewares

/-! ### A sample -/

/-- A platform that accepts every text and on which a token is the id of its user. -/
def sampleEnv : Env :=
  { jsonb := some
    urlParses := fun _ ↦ true
    hmac := fun _ _ ↦ []
    lower := Char.toLower
    jwtSubject := fun _ token ↦ some token
    jwtSign := fun subject _ ↦ some subject
    bcryptHash := fun _ password ↦ some password
    bcryptMatches := fun hash password ↦ hash = password
    sha256 := fun s ↦ s.toUTF8.toList
    isEmail := fun s ↦ s.toList.contains '@'
    isUrl := fun _ ↦ true
    parseTime := fun _ ↦ none
    toLower := Char.toLower
    zone := fun _ ↦ 0 }

end Api

end Chis
