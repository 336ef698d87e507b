import Chis.Responses.Users

/-!
# Requests that are answered with a failure of the server

For every route, behind its middlewares: run alone with everything available, a request is answered
with a status code of 500 or more exactly if the middlewares let it through and it makes one of the
mistakes of its handler.
-/

namespace Chis.Responses

open Program Relational Api Access

/-! ### Whom the middlewares let through -/

/-- The token of the request is valid at time `t`, for user `u`. -/
def TokenOf (env : Env) (t : Time) (r : Request) (u : Uuid) : Prop :=
  ∃ token, bearerToken r.authorization = some token ∧ tokenUser env t token = some u

/-- The key of the request is one of the organization's, and has not expired at time `t`. -/
def KeyOf (env : Env) (db : Db) (t : Time) (r : Request) (orgID : Uuid) : Prop :=
  r.apiKeyHeader ≠ "" ∧ ∃ k ∈ db.apiKeys, k.hashedKey = hashSHA256 env r.apiKeyHeader ∧
    k.orgID = orgID ∧ ∀ e, k.expiresAt = some e → t ≤ e

/-- The user is a member of the organization that the request names, by membership `m`. -/
def MemberOf (db : Db) (r : Request) (u : Uuid) (m : Membership) : Prop :=
  m ∈ db.memberships ∧ m.userID = u ∧ Uuid.parse r.orgHeader = some m.orgID

/-! ### The mistakes, route by route -/

def adminFails (env : Env) (r : Request) : AdminRoute → Prop
  | .createInvitation => createInvitationFails env r
  | .deleteOrg => deleteOrgFails env r
  | .listInvitations | .cancelInvitation _ | .getSigningSecret | .rotateSigningSecret => False

def orgFails (env : Env) (r : Request) (m : Membership) : OrgRoute → Prop
  | .createApiKey => createApiKeyFails env r
  | .webhookLogs => webhookLogsFails r
  | .admin route => m.role = .admin ∧ adminFails env r route
  | .listApiKeys | .deleteApiKey _ | .stats | .webhookLogDetail _ => False

/-- The requests that are answered with a failure of the server, where `t` is the time at which the
token or the key is looked at and `t'` the one at which an invitation is. -/
def Misreported (env : Env) (db : Db) (t t' : Time) (r : Request) : Route → Prop
  | .register => registerFails env r
  | .login => loginFails env r
  | .send => (∃ orgID, KeyOf env db t r orgID) ∧ sendFails env r
  | .listOrgs => False
  | .createOrg => ∃ u, TokenOf env t r u ∧ createOrgFails env db u r
  | .acceptInvitation => ∃ u, TokenOf env t r u ∧ acceptInvitationFails env db u r t'
  | .getPendingInvitations => ∃ u, TokenOf env t r u ∧ NoUser db u
  | .respondToInvitation id => ∃ u, TokenOf env t r u ∧ respondToInvitationFails env db u id r t'
  | .org route => ∃ u m, TokenOf env t r u ∧ MemberOf db r u m ∧ orgFails env r m route

/-! ### Services -/

/-- `Fails`, for what a service answers. -/
def Answers (env : Env) (db : Db) (i : Proc) (p : Service Response) (w : World) (P : Time → Prop) :
    Prop :=
  p.wp (working env db i) (fun res w' ↦ ∃ t, w.clock ≤ t ∧ t ≤ w'.clock ∧ (500 ≤ res.code ↔ P t)) w

section Services

variable {env : Env} {db : Db} {i : Proc} {w : World} {r : Request} {P : Time → Prop}

theorem Answers.congr {p : Service Response} {Q : Time → Prop} (hP : ∀ t, P t ↔ Q t)
    (hp : Answers env db i p w P) : Answers env db i p w Q := by
  unfold Answers at hp ⊢
  simp only [hP] at hp
  exact hp

theorem Answers.later {p : Service Response} {w₁ : World} (hw : w.clock ≤ w₁.clock)
    (hp : Answers env db i p w₁ P) :
    p.wp (working env db i)
      (fun res w' ↦ ∃ t, w.clock ≤ t ∧ t ≤ w'.clock ∧ (500 ≤ res.code ↔ P t)) w₁ :=
  Prog.wp.mono (fun _ _ ⟨t, hle, hle', hiff⟩ ↦ ⟨t, Int.le_trans hw hle, hle', hiff⟩) hp

/-- A response of a middleware. -/
theorem answers_message {code : Nat} {text : String} (hcode : code < 500) (hP : ∀ t, ¬ P t) :
    Answers env db i (pure (message code text)) w P :=
  ⟨w.clock, Int.le_refl _, Int.le_refl _, iff_of_false (Nat.not_le.mpr hcode) (hP _)⟩

/-- `Wrap` answers with the status code of the handler. -/
theorem answers_wrap {h : Handler Response} (hh : Fails env db i h w P) :
    Answers env db i (wrap r h) w P := by
  unfold Answers wrap
  rw [Prog.monad_bind, Prog.wp_bind]
  refine Prog.wp.mono (fun x w₁ hx ↦ ?_) hh
  obtain ⟨t, hle, hle', hiff⟩ := hx
  cases x with
  | ok res => exact ⟨t, hle, hle', hiff⟩
  | error fault =>
    intro now w₂ h₂
    exact ⟨t, hle, Int.le_trans hle' h₂.clock_le, hiff⟩

/-- The same with two times. -/
def AnswersAt (env : Env) (db : Db) (i : Proc) (p : Service Response) (w : World)
    (P : Time → Time → Prop) : Prop :=
  p.wp (working env db i) (fun res w' ↦ ∃ t t', (w.clock ≤ t ∧ t ≤ w'.clock) ∧
    (w.clock ≤ t' ∧ t' ≤ w'.clock) ∧ (500 ≤ res.code ↔ P t t')) w

theorem Answers.at {p : Service Response} (hp : Answers env db i p w P) :
    AnswersAt env db i p w fun _ t' ↦ P t' :=
  Prog.wp.mono (fun _ _ ⟨t, hle, hle', hiff⟩ ↦ ⟨t, t, ⟨hle, hle'⟩, ⟨hle, hle'⟩, hiff⟩) hp

theorem AnswersAt.congr {p : Service Response} {P Q : Time → Time → Prop}
    (hP : ∀ t t', P t t' ↔ Q t t') (hp : AnswersAt env db i p w P) : AnswersAt env db i p w Q := by
  unfold AnswersAt at hp ⊢
  simp only [hP] at hp
  exact hp

/-! ### The middlewares -/

theorem answers_validateToken {next : Uuid → Service Response} {P : Uuid → Time → Prop}
    (hs : w.Sound)
    (hnext : ∀ u w₁, w₁.db = w.db → w₁.Sound → Answers env db i (next u) w₁ (P u)) :
    AnswersAt env db i (validateToken env r next) w fun t t' ↦ ∃ u, TokenOf env t r u ∧ P u t' := by
  unfold validateToken
  cases htoken : bearerToken r.authorization with
  | none =>
    refine (Answers.at (P := fun _ ↦ False) ?_).congr fun t t' ↦ ?_
    · exact answers_message (by decide) fun _ ↦ id
    · apply iff_of_false id
      rintro ⟨u, ⟨token, hb, -⟩, -⟩
      rw [htoken] at hb
      cases hb
  | some token =>
    unfold AnswersAt
    simp only [timeNow, Prog.monad_bind, Prog.bind_call, Prog.wp_op]
    intro now w₁ h₁
    obtain ⟨hnow, hd₁, -⟩ := h₁.now_eq
    have hle : w.clock ≤ now := hnow ▸ h₁.clock_le
    have hof (u : Uuid) : TokenOf env now r u ↔ tokenUser env now token = some u := by
      simp [TokenOf, htoken]
    cases huser : tokenUser env now token with
    | none =>
      refine ⟨now, now, ⟨hle, Int.le_of_eq hnow⟩, ⟨hle, Int.le_of_eq hnow⟩, ?_⟩
      apply iff_of_false (by decide : ¬ 500 ≤ 401)
      rintro ⟨u, hu, -⟩
      rw [hof, huser] at hu
      cases hu
    | some u =>
      refine Prog.wp.mono (fun res w' hx ↦ ?_) (hnext u w₁ hd₁ (hs.exec h₁))
      obtain ⟨t', ht', ht'', hiff⟩ := hx
      refine ⟨now, t', ⟨hle, ?_⟩, ⟨Int.le_trans h₁.clock_le ht', ht''⟩, hiff.trans ?_⟩
      · rw [hnow]
        exact Int.le_trans ht' ht''
      · simp only [hof, huser, Option.some.injEq, exists_eq_left']

private theorem found_key {hash : String} {ch : Choice} {k : APIKey}
    (hfind : ((Stmt.apiKeyFindByHashedKey hash).exec env.toPlatform ch w.db).1 = .ok k) :
    k ∈ w.db.apiKeys ∧ k.hashedKey = hash := by
  have hf := elim_ok.mp hfind
  exact ⟨List.mem_of_find?_eq_some hf, by simpa using List.find?_some hf⟩

theorem answers_validateApiKey {next : Uuid → Service Response} {P : Prop} (hs : w.Sound)
    (hnext : ∀ org ∈ w.db.organizations, ∀ w₁, w₁.db = w.db → w₁.Sound →
      Answers env db i (next org.id) w₁ fun _ ↦ P) :
    AnswersAt env db i (validateApiKey env r next) w fun t _ ↦
      (∃ orgID, KeyOf env w.db t r orgID) ∧ P := by
  unfold validateApiKey
  by_cases hheader : r.apiKeyHeader = ""
  · rw [if_pos hheader]
    refine (Answers.at (P := fun _ ↦ False) ?_).congr fun t t' ↦ ?_
    · exact answers_message (by decide) fun _ ↦ id
    · exact iff_of_false id fun ⟨⟨_, hk⟩, _⟩ ↦ hk.1 hheader
  · rw [if_neg hheader]
    unfold AnswersAt
    simp only [Service.sql, Prog.monad_bind, Prog.bind_call, Prog.wp_op]
    rintro (e | k) w₁ h₁
    · obtain ⟨ch, hfind, -⟩ := h₁.read_works allow_working (fun _ _ ↦ rfl)
      have hnow : w.clock ≤ w.clock ∧ w.clock ≤ w₁.clock := ⟨Int.le_refl _, h₁.clock_le⟩
      refine ⟨w.clock, w.clock, hnow, hnow, iff_of_false (by decide : ¬ 500 ≤ 401) ?_⟩
      rintro ⟨⟨orgID, -, k, hk, hhash, -⟩, -⟩
      have hok := ApiKeyRepository.findByHashedKey_eq hk hs.unique.apiKeys
      rw [hhash] at hok
      exact nomatch hok.symm.trans hfind
    · obtain ⟨ch, hfind, hd₁, -⟩ := h₁.read_works allow_working (fun _ _ ↦ rfl)
      obtain ⟨hk, hhash⟩ := found_key hfind
      have hkey (t : Time) : (∃ orgID, KeyOf env w.db t r orgID) ↔
          ∀ e, (k : APIKey).expiresAt = some e → t ≤ e := by
        constructor
        · rintro ⟨orgID, -, k', hk', hhash', -, hexpiry⟩
          rw [hs.unique.apiKeys k hk k' hk' (hhash.trans hhash'.symm)]
          exact hexpiry
        · exact fun hexpiry ↦ ⟨_, hheader, k, hk, hhash, rfl, hexpiry⟩
      simp only [hkey]
      obtain ⟨org, horg, ho⟩ := hs.references.apiKeys k hk
      have hs₁ := hs.exec h₁
      cases hexpires : (k : APIKey).expiresAt with
      | none =>
        simp only [reduceCtorEq, false_imp_iff, implies_true, true_and]
        rw [← ho]
        refine Prog.wp.mono (fun res w' hx ↦ ?_) (hnext org horg w₁ hd₁ hs₁)
        obtain ⟨t, ht, ht', hiff⟩ := hx
        exact ⟨t, t, ⟨Int.le_trans h₁.clock_le ht, ht'⟩, ⟨Int.le_trans h₁.clock_le ht, ht'⟩, hiff⟩
      | some expiry =>
        simp only [Option.some.injEq, forall_eq', timeNow, Prog.bind_call, Prog.wp_op]
        intro now w₂ h₂
        obtain ⟨hnow, hd₂, -⟩ := h₂.now_eq
        have hle : w.clock ≤ now := hnow ▸ Int.le_trans h₁.clock_le h₂.clock_le
        by_cases hlate : expiry < (now : Time)
        · rw [if_pos hlate]
          refine ⟨now, now, ⟨hle, Int.le_of_eq hnow⟩, ⟨hle, Int.le_of_eq hnow⟩, ?_⟩
          exact iff_of_false (by decide : ¬ 500 ≤ 401) fun hp ↦ absurd hp.1 (Int.not_le.mpr hlate)
        · rw [if_neg hlate, ← ho]
          refine Prog.wp.mono (fun res w' hx ↦ ?_)
            (hnext org horg w₂ (hd₂.trans hd₁) (hs₁.exec h₂))
          obtain ⟨t, ht, ht', hiff⟩ := hx
          have hnow' : now ≤ w'.clock := hnow ▸ Int.le_trans ht ht'
          refine ⟨now, now, ⟨hle, hnow'⟩, ⟨hle, hnow'⟩, hiff.trans ?_⟩
          exact (and_iff_right (Int.not_lt.mp hlate)).symm

theorem answers_validateOrgAccess {next : Uuid → Service Response} {u : Uuid}
    {P : Membership → Time → Prop} (hs : w.Sound)
    (hnext : ∀ m ∈ w.db.memberships, m.userID = u → ∀ w₁, w₁.db = w.db → w₁.Sound →
      Answers env db i (next m.orgID) w₁ (P m)) :
    Answers env db i (validateOrgAccess r u next) w fun t ↦ ∃ m, MemberOf w.db r u m ∧ P m t := by
  unfold validateOrgAccess
  by_cases hheader : r.orgHeader = ""
  · rw [if_pos hheader]
    apply answers_message (by decide)
    rintro t ⟨m, ⟨-, -, hparse⟩, -⟩
    have hempty : Uuid.parse "" = none := rfl
    rw [hheader, hempty] at hparse
    cases hparse
  · rw [if_neg hheader]
    cases hparse : Uuid.parse r.orgHeader with
    | none =>
      apply answers_message (by decide)
      rintro t ⟨m, ⟨-, -, hm⟩, -⟩
      exact nomatch hparse.symm.trans hm
    | some orgID =>
      unfold Answers
      simp only [Service.sql, Prog.monad_bind, Prog.bind_call, Prog.wp_op]
      rintro (e | m) w₁ h₁
      · obtain ⟨ch, hfind, -⟩ := h₁.read_works allow_working (fun _ _ ↦ rfl)
        refine ⟨w.clock, Int.le_refl _, h₁.clock_le, iff_of_false (by decide : ¬ 500 ≤ 403) ?_⟩
        rintro ⟨m, ⟨hm, hu, ho⟩, -⟩
        rw [hparse, Option.some.injEq] at ho
        exact MembershipRepository.findByUserAndOrgID_error hfind m hm hu ho.symm
      · obtain ⟨ch, hfind, hd₁, -⟩ := h₁.read_works allow_working (fun _ _ ↦ rfl)
        obtain ⟨hm, hu, ho⟩ := MembershipRepository.findByUserAndOrgID_ok hfind
        have hmember (m' : Membership) : MemberOf w.db r u m' ↔ m = m' := by
          unfold MemberOf
          rw [hparse, Option.some.injEq]
          constructor
          · rintro ⟨hm', hu', ho'⟩
            exact hs.unique.memberships m hm m' hm'
              (Prod.ext (hu.trans hu'.symm) (ho.trans ho'))
          · rintro rfl
            exact ⟨hm, hu, ho.symm⟩
        rw [← ho]
        refine Answers.later h₁.clock_le (Answers.congr (fun t ↦ ?_)
          (hnext m hm hu w₁ hd₁ (hs.exec h₁)))
        simp only [hmember, exists_eq_left']

theorem answers_requireAdmin {next : Service Response} {m : Membership} (hs : w.Sound)
    (hm : m ∈ w.db.memberships)
    (hnext : ∀ w₁, w₁.db = w.db → w₁.Sound → Answers env db i next w₁ P) :
    Answers env db i (requireAdmin m.userID m.orgID next) w fun t ↦ m.role = .admin ∧ P t := by
  unfold Answers requireAdmin
  simp only [Service.sql, Prog.monad_bind, Prog.bind_call, Prog.wp_op]
  rintro (e | m') w₁ h₁
  · obtain ⟨ch, hfind, -⟩ := h₁.read_works allow_working (fun _ _ ↦ rfl)
    exact absurd rfl (MembershipRepository.findByUserAndOrgID_error hfind m hm rfl)
  · obtain ⟨ch, hfind, hd₁, -⟩ := h₁.read_works allow_working (fun _ _ ↦ rfl)
    obtain ⟨hm', hu, ho⟩ := MembershipRepository.findByUserAndOrgID_ok hfind
    obtain rfl := hs.unique.memberships m hm m' hm' (Prod.ext hu.symm ho.symm)
    by_cases hadmin : m.role = .admin
    · simp only [hadmin, if_true, true_and]
      exact Answers.later h₁.clock_le (hnext w₁ hd₁ (hs.exec h₁))
    · simp only [hadmin, if_false, false_and]
      exact ⟨w.clock, Int.le_refl _, h₁.clock_le, iff_of_false (by decide : ¬ 500 ≤ 403) id⟩

end Services

/-! ### All routes -/

section Routes

variable {env : Env} {i : Proc} {w : World} {r : Request} {m : Membership}

theorem adminRoute_fails (hs : w.Sound) (hm : m ∈ w.db.memberships) (route : AdminRoute) :
    Fails env w.db i (route.handler env m.userID m.orgID r) w fun _ ↦ adminFails env r route := by
  obtain ⟨user, huser, hu⟩ := hs.references.users m hm
  obtain ⟨org, horg, ho⟩ := hs.references.memberships m hm
  cases route with
  | createInvitation => exact hu ▸ createInvitation_fails hs rfl huser horg ho.symm
  | listInvitations => exact listInvitations_fails
  | cancelInvitation id => exact cancelInvitation_fails
  | deleteOrg => exact deleteOrg_fails
  | getSigningSecret => exact getSigningSecret_fails horg ho.symm
  | rotateSigningSecret => exact rotateSigningSecret_fails horg ho.symm

theorem orgRoute_answers (hs : w.Sound) (hm : m ∈ w.db.memberships) (route : OrgRoute) :
    Answers env w.db i (route.handle env m.userID m.orgID r) w fun _ ↦ orgFails env r m route := by
  cases route with
  | createApiKey => exact answers_wrap createApiKey_fails
  | listApiKeys => exact answers_wrap listApiKeys_fails
  | deleteApiKey id => exact answers_wrap deleteApiKey_fails
  | stats => exact answers_wrap stats_fails
  | webhookLogs => exact answers_wrap webhookLogs_fails
  | webhookLogDetail id => exact answers_wrap webhookLogDetail_fails
  | admin route =>
    refine answers_requireAdmin hs hm fun w₁ hd₁ hs₁ ↦ ?_
    rw [← hd₁] at hm ⊢
    exact answers_wrap (adminRoute_fails hs₁ hm route)

/-- What every route answers. -/
theorem handle_answers (henv : Hashing env) (hs : w.Sound)
    (hemails : ∀ user ∈ w.db.users, textOk user.email = true) (route : Route) :
    AnswersAt env w.db i (handle env r route) w fun t t' ↦ Misreported env w.db t t' r route := by
  cases route with
  | register => exact (answers_wrap (register_fails henv)).at
  | login => exact (answers_wrap login_fails).at
  | send =>
    change AnswersAt env w.db i (validateApiKey env r fun orgID ↦ wrap r (send env orgID r)) w
      fun t _ ↦ (∃ orgID, KeyOf env w.db t r orgID) ∧ sendFails env r
    refine answers_validateApiKey hs fun org horg w₁ hd₁ hs₁ ↦ ?_
    exact answers_wrap (send_fails hs₁ (hd₁ ▸ horg) rfl)
  | listOrgs =>
    refine (answers_validateToken (P := fun _ _ ↦ False) hs fun u w₁ _ _ ↦ ?_).congr fun t t' ↦ ?_
    · exact answers_wrap listOrgs_fails
    · simp only [Misreported, and_false, exists_false]
  | createOrg =>
    refine answers_validateToken hs fun u w₁ hd₁ hs₁ ↦ ?_
    rw [← hd₁]
    exact answers_wrap (createOrg_fails hs₁)
  | acceptInvitation =>
    refine answers_validateToken hs fun u w₁ hd₁ hs₁ ↦ ?_
    rw [← hd₁]
    exact answers_wrap (acceptInvitation_fails hs₁)
  | getPendingInvitations =>
    refine answers_validateToken hs fun u w₁ hd₁ _ ↦ ?_
    rw [← hd₁] at hemails ⊢
    exact answers_wrap (getPendingInvitations_fails hemails)
  | respondToInvitation id =>
    refine answers_validateToken hs fun u w₁ hd₁ hs₁ ↦ ?_
    rw [← hd₁]
    exact answers_wrap (respondToInvitation_fails hs₁)
  | org route =>
    refine (answers_validateToken (P := fun u _ ↦ ∃ m, MemberOf w.db r u m ∧ orgFails env r m route)
      hs fun u w₁ hd₁ hs₁ ↦ ?_).congr fun t t' ↦ ?_
    · rw [← hd₁]
      refine answers_validateOrgAccess hs₁ fun m hm hu w₂ hd₂ hs₂ ↦ ?_
      rw [← hd₂] at hm ⊢
      rw [← hu]
      exact orgRoute_answers hs₂ hm route
    · simp only [Misreported, exists_and_left]

end Routes

/-! ### A sample -/

theorem hashingEnv_hashing : Hashing Accounts.hashingEnv where
  toBcrypt := Accounts.hashingEnv_bcrypt
  limit _ _ hlen := if_neg (Nat.not_le.mpr hlen)

/-- A login with that body, alone from the start. -/
private def SampleLogin (body : String) (res : Response) (w' : World) : Prop :=
  (handle Accounts.hashingEnv (sampleRequestOf .nil .nil body) .login).Runs
    (working Accounts.hashingEnv .empty (.client 0)) (World.start 0) res w'

private theorem sample_login (body : String) (code : Nat)
    (h : ((handle Accounts.hashingEnv (sampleRequestOf .nil .nil body) .login).play
      (fun ch ↦ World.step Accounts.hashingEnv.toPlatform (.client 0) { ch with fail := false })
      ((sampleTurns 0 [0]).map Prod.snd) (World.start 0)).map (fun p ↦ p.1.code) = some code) :
    ∃ res w', SampleLogin body res w' ∧ res.code = code := by
  obtain ⟨⟨res, w'⟩, hplay, hcode⟩ := Option.map_eq_some_iff.mp h
  refine ⟨res, w', Prog.Runs.of_play (fun ch _ _ _ _ hs ↦ ?_) hplay, hcode⟩
  exact ⟨{ ch with fail := false }, ⟨rfl, fun _ hinv ↦ nomatch hinv⟩, hs⟩

end Chis.Responses
