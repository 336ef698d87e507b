import Chis.Responses.Handlers
import Chis.Pipeline.Submission

/-!
# Handlers outside an organization and the failures they answer with

The counterpart of `Chis.Responses.Handlers` for the routes that registration, login, delivery and
invitations use.
-/

namespace Chis.Responses

open Program Api Access

/-- `bcrypt`, with its limit on the length of a password. -/
structure Hashing (env : Env) : Prop extends Accounts.Bcrypt env where
  limit : ∀ salt password, 72 < password.utf8ByteSize → env.bcryptHash salt password = none

section Handlers

variable {env : Env} {db : Db} {i : Proc} {w : World} {r : Request} {u : Uuid}

/-! ### Accounts -/

theorem refused_below {texts : List String} {e : Err} (h : Refused texts e)
    (ht : ∀ s ∈ texts, textOk s = true) : status (.error (.repo e)) < 500 := by
  refine Nat.not_le.mp fun hle ↦ ?_
  obtain ⟨s, hs, hno⟩ := (refused_status h).mp hle
  rw [ht s hs] at hno
  cases hno

/-- The rows of a new user after the first are refused for a constraint at most. -/
private theorem register_rest (user : User) (hash : String) (hemail : textOk user.email = true)
    (hname : textOk user.firstName = true) (hhash : textOk hash = true) :
    (do
      let _ ← query (.accountCreate (newAccount user hash)) .repo
      let bytes ← random (.internal "failed to generate signing secret")
      let org : Organization ← query (.organizationCreate (newOrganization env
        (user.firstName ++ "'s Workspace") (Helper.randomText "whsec_" bytes))) .repo
      let _ ← query (.membershipCreate (newMembership user.id org.id .admin)) .repo
      return writeJSON 201 (.obj [("id", .str user.id.toString), ("email", .str user.email),
        ("firstName", .str user.firstName)]) : Handler Response).run.wp (working env db i)
      (fun x _ ↦ status x < 500) w := by
  rw [wp_query_bind]
  constructor
  · intro _ w₁ _
    rw [wp_random_bind]
    constructor
    · intro bytes w₂ _
      rw [wp_query_bind]
      constructor
      · intro (org : Organization) w₃ _
        rw [wp_query_bind]
        refine ⟨fun _ w₄ _ ↦ (by decide : 201 < 500), fun e w₄ h₄ ↦ ?_⟩
        obtain ⟨ch, -, hexec, -⟩ := h₄.sql_works allow_working
        rcases Stmt.write_inv hexec with ⟨a, ha, -⟩ | ⟨_, he, hc, -⟩
        · cases ha
        · cases he
          exact refused_below (MembershipRepository.create_error hc) fun s hs ↦ (nomatch hs)
      · intro e w₃ h₃
        obtain ⟨ch, -, hexec, -⟩ := h₃.sql_works allow_working
        rcases Stmt.write_inv hexec with ⟨a, ha, -⟩ | ⟨_, he, hc, -⟩
        · cases ha
        · cases he
          refine refused_below (OrganizationRepository.create_error hc) fun s hs ↦ ?_
          simp only [newOrganization, List.mem_cons, List.not_mem_nil, or_false] at hs
          rcases hs with rfl | rfl | rfl
          · exact textOk_append.mpr ⟨hname, by decide⟩
          · exact Accounts.textOk_slugify env _
          · exact Accounts.textOk_randomText (by decide) bytes
    · intro e w₂ h₂
      obtain ⟨ch, -, hok, -⟩ := h₂.rand_works allow_working
      cases hok
  · intro e w₁ h₁
    obtain ⟨ch, -, hexec, -⟩ := h₁.sql_works allow_working
    rcases Stmt.write_inv hexec with ⟨a, ha, -⟩ | ⟨_, he, hc, -⟩
    · cases ha
    · cases he
      refine refused_below (AccountRepository.create_error hc) fun s hs ↦ ?_
      simp only [newAccount, Option.toList_some, List.cons_append, List.nil_append, List.mem_cons,
        List.not_mem_nil, or_false] at hs
      rcases hs with rfl | rfl | rfl
      · decide
      · exact hemail
      · exact hhash

theorem register_fails (henv : Hashing env) :
    Fails env db i (register env r) w fun _ ↦ registerFails env r := by
  unfold register
  refine fails_body (P := fun (req : RegisterRequest) _ ↦ 72 < req.password.utf8ByteSize ∨
    ∃ s ∈ [req.email, req.firstName, req.lastName], textOk s = false) fun req _ ↦ fails_const ?_
  rw [wp_random_bind]
  constructor
  · intro salt w₁ _
    cases hhash : env.bcryptHash salt req.password with
    | none =>
      refine iff_of_true (by decide : 500 ≤ 500) (.inl ?_)
      by_contra hlen
      obtain ⟨hash, hsome⟩ := henv.hashes salt req.password (Nat.not_lt.mp hlen)
      rw [hhash] at hsome
      cases hsome
    | some hash =>
      have hlen : ¬ 72 < req.password.utf8ByteSize := by
        intro hlen
        rw [henv.limit salt req.password hlen] at hhash
        cases hhash
      simp only [hlen, false_or]
      rw [wp_query_bind]
      constructor
      · intro (user : User) w₂ h₂
        obtain ⟨ch, -, hexec, -⟩ := h₂.sql_works allow_working
        rcases Stmt.write_inv hexec with ⟨a, ha, hc⟩ | ⟨e, he, -⟩
        · cases ha
          have htext := UserRepository.create_text hc
          have hfields := (UserRepository.create_ok hc).1
          have hemail : textOk user.email = true := by
            rw [hfields]
            exact htext _ (by simp)
          have hname : textOk user.firstName = true := by
            rw [hfields]
            exact htext _ (by simp)
          refine Prog.wp.mono (fun x _ hx ↦ ?_)
            (register_rest user hash hemail hname (henv.text _ _ _ hhash))
          refine iff_of_false (Nat.not_le.mpr hx) ?_
          rintro ⟨s, hs, hno⟩
          rw [htext s hs] at hno
          cases hno
        · cases he
      · intro e w₂ h₂
        obtain ⟨ch, -, hexec, -⟩ := h₂.sql_works allow_working
        rcases Stmt.write_inv hexec with ⟨a, ha, -⟩ | ⟨_, he, hc, -⟩
        · cases ha
        · cases he
          exact refused_status (UserRepository.create_error hc)
  · intro e w₁ h₁
    obtain ⟨ch, -, hok, -⟩ := h₁.rand_works allow_working
    cases hok

theorem login_fails : Fails env db i (login env r) w fun _ ↦ loginFails env r := by
  unfold login
  refine fails_body (P := fun (req : LoginRequest) _ ↦ False) fun req _ ↦ fails_never ?_
  rw [wp_query_bind]
  refine ⟨fun (user : User) w₁ _ ↦ ?_, fun e w₁ _ ↦ (by decide : 401 < 500)⟩
  rw [wp_query_bind]
  refine ⟨fun (account : Account) w₂ _ ↦ ?_, fun e w₂ _ ↦ (by decide : 401 < 500)⟩
  cases account.passwordHash with
  | none => exact fun e _ _ ↦ nomatch (e : Empty)
  | some hash =>
    by_cases hmatch : env.bcryptMatches hash req.password = true
    · simp only [hmatch, Bool.not_true, Bool.false_eq_true, if_false]
      rw [wp_clock_bind]
      intro t w₃ _
      cases env.jwtSign user.id.toString (t / 1000000 + 48 * 3600) with
      | none => exact (by decide : 400 < 500)
      | some token => exact (by decide : 202 < 500)
    · simp only [hmatch, Bool.not_false, if_true]
      exact (by decide : 401 < 500)

/-! ### Webhooks -/

theorem send_fails {orgId : Uuid} {org : Organization} (hs : w.Sound)
    (horg : org ∈ w.db.organizations) (ho : orgId = org.id) :
    Fails env db i (send env orgId r) w fun _ ↦ sendFails env r := by
  unfold send
  refine fails_body (P := fun (req : SendWebhookRequest) _ ↦
    httpMethodValue (if req.method = "" then "POST" else req.method) = none ∨
      textOk req.url = false ∨ env.jsonb (marshal req.payload) = none) fun req _ ↦ fails_const ?_
  simp only []
  cases hmethod : httpMethodValue (if req.method = "" then "POST" else req.method) with
  | none => exact iff_of_true (by decide : 500 ≤ 500) (.inl rfl)
  | some methodEnum =>
    simp only [reduceCtorEq, false_or]
    rw [wp_lift_bind]
    unfold Delivery.queueMessage
    rw [Uuid.parse_toString]
    simp only [Prog.monad_bind, Service.sql, Prog.bind_call, Prog.wp_op]
    have hcreate (ch : Choice) (hfresh : ch.id ∉ w.issued) :
        (∃ x, MessageRepository.create env.jsonb ch.id ch.now (Delivery.messageOf
          ⟨req.url, methodEnum, marshal req.payload, orgId.toString⟩ orgId) w.db = .ok x) ↔
          ¬ (textOk req.url = false ∨ env.jsonb (marshal req.payload) = none) := by
      have hids : ∀ row ∈ w.db.messages, row.id ≠ ch.id := fun row hrow he ↦
        hfresh (he ▸ hs.generated.messages row hrow)
      have horgs : ∃ o ∈ w.db.organizations, o.id = orgId := ⟨org, horg, ho.symm⟩
      rw [MessageRepository.create_succeeds_iff]
      simp only [Delivery.messageOf, Submission.textOk_httpMethodString, true_and, not_or,
        Bool.not_eq_false, ← ne_eq, Option.ne_none_iff_exists', and_iff_left horgs, and_iff_left hids]
    rintro (e | message) w₁ h₁
    · obtain ⟨ch, -, hexec, hid⟩ := h₁.sql_works allow_working
      rcases Stmt.write_inv hexec with ⟨a, ha, -⟩ | ⟨_, -, hc, -⟩
      · cases ha
      · refine iff_of_true (by decide : 500 ≤ 500) ?_
        by_contra hgood
        obtain ⟨x, hx⟩ := (hcreate ch (hid rfl).1).mpr hgood
        rw [hc] at hx
        cases hx
    · obtain ⟨ch, -, hexec, hid⟩ := h₁.sql_works allow_working
      rcases Stmt.write_inv hexec with ⟨a, -, hc⟩ | ⟨_, he, -⟩
      · intro _ w₂ _
        simp only [Prog.bind_pure, Prog.monad_pure, Prog.wp_pure, Uuid.parse_toString]
        exact iff_of_false (by decide : ¬ 500 ≤ 201) ((hcreate ch (hid rfl).1).mp ⟨_, hc⟩)
      · cases he

/-! ### Organizations and invitations -/

/-- There is a user of the id, or not. -/
private theorem userFindByID_inv {y : Except Err User} {w' : World}
    (hx : working env db i (.sql (.userFindByID u)) w y w') :
    w'.db = w.db ∧ w.issued ⊆ w'.issued ∧ ((∃ user, y = .ok user ∧ user ∈ w.db.users ∧ user.id = u) ∨
      (∃ e, y = .error e) ∧ NoUser w.db u) := by
  obtain ⟨ch, hfind, hd, hi⟩ := hx.read_works allow_working (fun _ _ ↦ rfl)
  refine ⟨hd, hi, ?_⟩
  change UserRepository.findByID u w.db = y at hfind
  rw [UserRepository.findByID] at hfind
  cases hu : w.db.users.find? u with
  | none =>
    rw [hu] at hfind
    exact .inr ⟨⟨_, hfind.symm⟩, (w.db.users.find?_eq_none_iff u).mp hu⟩
  | some user =>
    rw [hu] at hfind
    exact .inl ⟨user, hfind.symm, (w.db.users.find?_eq_some_iff u user).mp hu⟩

theorem createOrg_fails (hs : w.Sound) :
    Fails env db i (createOrg env u r) w fun _ ↦ createOrgFails env w.db u r := by
  unfold createOrg
  refine fails_body (P := fun (req : NameRequest) _ ↦ textOk req.name = false ∨
    (∃ o ∈ w.db.organizations, o.slug = Helper.slugify env.toLower req.name) ∨ NoUser w.db u)
    fun req _ ↦ fails_const ?_
  rw [wp_random_bind]
  constructor
  · intro bytes w₁ h₁
    obtain ⟨-, -, -, hd₁, -⟩ := h₁.rand_works allow_working
    have hs₁ := hs.exec h₁
    rw [← hd₁, wp_query_bind]
    constructor
    · intro (org : Organization) w₂ h₂
      have hs₂ := hs₁.exec h₂
      obtain ⟨ch₂, -, hexec, hid₂⟩ := h₂.sql_works allow_working
      rcases Stmt.write_inv hexec with ⟨a, ha, hc⟩ | ⟨e, he, -⟩
      · cases ha
        have htext : textOk req.name = true :=
          OrganizationRepository.create_text hc req.name List.mem_cons_self
        have hslug : ¬ ∃ o ∈ w₁.db.organizations, o.slug = Helper.slugify env.toLower req.name := by
          rintro ⟨o, ho, he⟩
          exact OrganizationRepository.create_slug hc o ho he
        obtain ⟨hrow, organizations, hins, hd₂⟩ := OrganizationRepository.create_ok hc
        have hfresh : org.id ∉ w₁.issued := by
          rw [hrow]
          exact (hid₂ rfl).1
        have hmem : org ∈ w₂.db.organizations := by
          rw [hd₂]
          exact (Relational.Table.mem_of_insert? hins org).mpr (.inr rfl)
        simp only [htext, Bool.true_eq_false, hslug, false_or]
        rw [wp_query_bind]
        constructor
        · intro m w₃ h₃
          obtain ⟨ch₃, -, hexec, -⟩ := h₃.sql_works allow_working
          rcases Stmt.write_inv hexec with ⟨_, -, hc⟩ | ⟨_, he, -⟩
          · obtain ⟨user, huser, hu⟩ := MembershipRepository.create_user hc
            refine iff_of_false (by decide : ¬ 500 ≤ 201) fun hno ↦ hno user ?_ hu
            rw [hd₂] at huser
            exact huser
          · cases he
        · intro e w₃ h₃
          obtain ⟨ch₃, -, hexec, hid⟩ := h₃.sql_works allow_working
          rcases Stmt.write_inv hexec with ⟨a, ha, -⟩ | ⟨_, -, hc, -⟩
          · cases ha
          · refine iff_of_true (by decide : 500 ≤ 500) fun user huser (hu : user.id = u) ↦ ?_
            -- the organization is new, so nobody is a member of it
            have hnew : ∀ m ∈ w₂.db.memberships, m.orgID ≠ org.id := by
              intro m hm he
              rw [hd₂] at hm
              obtain ⟨o, ho, hoe⟩ := hs₁.references.memberships m hm
              exact hfresh (he ▸ hoe ▸ hs₁.generated.organizations o ho)
            obtain ⟨x, hx⟩ := (@MembershipRepository.create_succeeds_iff ch₃.id ch₃.now
              (newMembership u org.id .admin) w₂.db).mpr
              ⟨fun m hm (he : m.id = ch₃.id) ↦ (hid rfl).1 (he ▸ hs₂.generated.memberships m hm),
                fun m hm he ↦ hnew m hm (Prod.mk.inj he).2, ⟨user, hd₂ ▸ huser, hu⟩,
                org, hmem, rfl⟩
            rw [hx] at hc
            cases hc
      · cases he
    · intro e w₂ h₂
      obtain ⟨ch₂, -, hexec, hid⟩ := h₂.sql_works allow_working
      rcases Stmt.write_inv hexec with ⟨a, ha, -⟩ | ⟨_, -, hc, -⟩
      · cases ha
      · refine iff_of_true (by decide : 500 ≤ 500) ?_
        by_contra hgood
        simp only [not_or, Bool.not_eq_false, not_exists, not_and] at hgood
        obtain ⟨htext, hslug, -⟩ := hgood
        obtain ⟨x, hx⟩ := @OrganizationRepository.create_eq ch₂.id ch₂.now
          (newOrganization env req.name (Helper.randomText "whsec_" bytes)) w₁.db
          (by simp [newOrganization, htext, Accounts.textOk_slugify,
            Accounts.textOk_randomText (show textOk "whsec_" = true by decide)])
          (fun o ho he ↦ (hid rfl).1 (he ▸ hs₁.generated.organizations o ho)) hslug
        rw [hc] at hx
        cases hx
  · intro e w₁ h₁
    obtain ⟨ch, -, hok, -⟩ := h₁.rand_works allow_working
    cases hok

/-- A user there is joins an organization there is, or is a member already. -/
private theorem join_below {inv : Invitation} {user : User} (hs : w.Sound)
    (huser : user ∈ w.db.users) (hinv : inv ∈ w.db.invitations) :
    (join user.id inv).run.wp (working env db i) (fun x _ ↦ status x < 500) w := by
  unfold join
  rw [wp_attempt_bind]
  constructor
  · intro m w₁ _
    rw [wp_attempt_bind]
    exact ⟨fun _ _ _ ↦ (by decide : 409 < 500), fun _ _ _ ↦ (by decide : 409 < 500)⟩
  · intro e w₁ h₁
    have hs₁ := hs.exec h₁
    obtain ⟨ch₁, hfind, hd₁, -⟩ := h₁.read_works allow_working (fun _ _ ↦ rfl)
    rw [wp_query_bind]
    constructor
    · intro m w₂ _
      rw [wp_clock_bind]
      intro t w₃ _
      rw [wp_query_bind]
      constructor
      · intro _ w₄ _
        rw [wp_attempt_bind]
        exact ⟨fun _ _ _ ↦ (by decide : 200 < 500), fun _ _ _ ↦ (by decide : 200 < 500)⟩
      · intro e w₄ h₄
        obtain ⟨ch₄, -, hexec, -⟩ := h₄.sql_works allow_working
        cases (Prod.mk.inj hexec).1
    · intro e' w₂ h₂
      obtain ⟨ch₂, -, hexec, hid⟩ := h₂.sql_works allow_working
      rcases Stmt.write_inv hexec with ⟨a, ha, -⟩ | ⟨_, -, hc, -⟩
      · cases ha
      · obtain ⟨org, horg, ho⟩ := hs.references.invitations inv hinv
        rw [← hd₁] at huser horg hfind
        have hnew : ∀ m ∈ w₁.db.memberships, (m.userID, m.orgID) ≠ (user.id, inv.orgID) := by
          intro m hm he
          obtain ⟨hu, ho⟩ := Prod.mk.inj he
          exact MembershipRepository.findByUserAndOrgID_error hfind m hm hu ho
        obtain ⟨x, hx⟩ := (@MembershipRepository.create_succeeds_iff ch₂.id ch₂.now
          (newMembership user.id inv.orgID inv.role) w₁.db).mpr
          ⟨fun m hm (he : m.id = ch₂.id) ↦ (hid rfl).1 (he ▸ hs₁.generated.memberships m hm),
            hnew, ⟨user, huser, rfl⟩, org, horg, ho⟩
        rw [hx] at hc
        cases hc

/-- What comes after the expiry check decides, for an invitation that is good still. -/
private theorem checkExpiry_bind {inv : Invitation} {h : Handler Response} {P : Time → Prop}
    (hlate : ∀ t, inv.expiresAt < t → ¬ P t)
    (hh : ∀ t w', w'.db = w.db → w'.Sound → t ≤ inv.expiresAt →
      h.run.wp (working env db i) (fun x _ ↦ 500 ≤ status x ↔ P t) w') (hs : w.Sound) :
    Fails env db i (checkExpiry inv >>= fun _ ↦ h) w P := by
  unfold Fails
  rw [wp_handler_bind]
  unfold checkExpiry
  rw [wp_clock_bind]
  intro t w₁ h₁
  obtain ⟨ht, hd₁, -⟩ := h₁.now_eq
  have hle : w.clock ≤ t := ht ▸ h₁.clock_le
  by_cases hexpired : inv.expiresAt < t
  · rw [if_pos hexpired, wp_attempt_bind]
    have hfailed {y : Except Err Unit} {w₂ : World}
        (h₂ : working env db i (.sql (.invitationUpdateStatus inv.id "expired")) w₁ y w₂) :
        ∃ t, w.clock ≤ t ∧ t ≤ w₂.clock ∧
          (500 ≤ status (.error (.app (.badRequest "invitation has expired"))) ↔ P t) :=
      ⟨t, hle, ht ▸ h₂.clock_le, iff_of_false (by decide) (hlate t hexpired)⟩
    refine ⟨fun _ w₂ h₂ ↦ ⟨fun b hb ↦ (nomatch hb), fun e he ↦ ?_⟩,
      fun _ w₂ h₂ ↦ ⟨fun b hb ↦ (nomatch hb), fun e he ↦ ?_⟩⟩
    · exact Except.error.inj he ▸ hfailed h₂
    · exact Except.error.inj he ▸ hfailed h₂
  · rw [if_neg hexpired]
    refine ⟨fun _ _ ↦ ?_, fun e he ↦ (nomatch he)⟩
    refine Prog.wp.mono (fun x w' hx ↦ ⟨t, hle, hx.2, hx.1⟩)
      (Prog.wp.and (hh t w₁ hd₁ (hs.exec h₁) (Int.not_lt.mp hexpired)) (wp_clock _ (Int.le_of_eq ht)))

theorem acceptInvitation_fails (hs : w.Sound) :
    Fails env db i (acceptInvitation env u r) w fun t ↦ acceptInvitationFails env w.db u r t := by
  unfold acceptInvitation
  refine fails_body (P := fun (req : AcceptInvitationRequest) t ↦
    (∃ inv ∈ w.db.invitations, inv.token = req.token ∧ Open t inv) ∧ NoUser w.db u) fun req _ ↦ ?_
  unfold Fails
  rw [wp_query_bind]
  constructor
  · intro (inv : Invitation) w₁ h₁
    have hs₁ := hs.exec h₁
    obtain ⟨ch₁, hfind, hd₁, -⟩ := h₁.read_works allow_working (fun _ _ ↦ rfl)
    have hinv := InvitationRepository.findByToken_ok hfind
    have htoken := InvitationRepository.findByToken_token hfind
    have hopen (t : Time) : (Open t inv ∧ NoUser w.db u) ↔
        (∃ inv ∈ w.db.invitations, inv.token = req.token ∧ Open t inv) ∧ NoUser w.db u := by
      refine and_congr_left fun _ ↦ ⟨fun ho ↦ ⟨inv, hinv, htoken, ho⟩, ?_⟩
      rintro ⟨inv', hinv', htoken', ho⟩
      rw [hs.unique.tokens inv hinv inv' hinv' (htoken.trans htoken'.symm)]
      exact ho
    refine Fails.later h₁.clock_le (Fails.congr hopen ?_)
    by_cases hpending : inv.status = .pending
    · rw [if_neg (not_not.mpr hpending)]
      refine checkExpiry_bind (fun t hlate hp ↦ ?_) (fun t w₂ hd₂ hs₂ htime ↦ ?_) hs₁
      · exact absurd hlate (Int.not_lt.mpr hp.1.2)
      · rw [hd₁] at hd₂
        rw [wp_query_bind]
        constructor
        · intro (user : User) w₃ h₃
          have hs₃ := hs₂.exec h₃
          obtain ⟨hd₃, -, hfound | ⟨⟨e, he⟩, -⟩⟩ := userFindByID_inv h₃
          · obtain ⟨user', hu, huser, hid⟩ := hfound
            cases hu
            have hno : ¬ (Open t inv ∧ NoUser w.db u) := fun hp ↦ hp.2 user (hd₂ ▸ huser) hid
            by_cases hemail : user.email = inv.email
            · rw [if_neg (not_not.mpr hemail), ← hid]
              refine Prog.wp.mono (fun x _ hx ↦ ?_) (join_below hs₃ (hd₃ ▸ huser) ?_)
              · rw [hid]
                exact iff_of_false (Nat.not_le.mpr hx) hno
              · rw [hd₃, hd₂]
                exact hinv
            · rw [if_pos hemail]
              exact iff_of_false (by decide : ¬ 500 ≤ 403) hno
          · cases he
        · intro e w₃ h₃
          obtain ⟨-, -, ⟨user, hu, -⟩ | ⟨-, hno⟩⟩ := userFindByID_inv h₃
          · cases hu
          · rw [hd₂] at hno
            exact iff_of_true (by decide : 500 ≤ 500) ⟨⟨hpending, htime⟩, hno⟩
    · rw [if_pos hpending]
      refine Fails.congr (P := fun _ ↦ False) (fun t ↦ ?_) (fails_never ?_)
      · exact iff_of_false id fun hp ↦ hpending hp.1.1
      · exact (by decide : 400 < 500)
  · intro e w₁ h₁
    obtain ⟨ch₁, hfind, -, -⟩ := h₁.read_works allow_working (fun _ _ ↦ rfl)
    refine ⟨w.clock, Int.le_refl _, h₁.clock_le, iff_of_false (by decide : ¬ 500 ≤ 404) ?_⟩
    rintro ⟨⟨inv, hinv, htoken, -⟩, -⟩
    have hok := InvitationRepository.findByToken_eq (hs.unique.texts inv hinv).1 hinv
      hs.unique.tokens
    rw [htoken] at hok
    cases hok.symm.trans hfind

/-- There is an invitation of the id, or not. -/
private theorem invitationFindByID_inv {id : Uuid} {y : Except Err Invitation} {w' : World}
    (hx : working env db i (.sql (.invitationFindByID id)) w y w') :
    w'.db = w.db ∧ ((∃ inv, y = .ok inv ∧ ∀ inv', inv' ∈ w.db.invitations ∧ inv'.id = id ↔ inv = inv') ∨
      y = .error .notFound ∧ ∀ inv ∈ w.db.invitations, inv.id ≠ id) := by
  obtain ⟨ch, hfind, hd, -⟩ := hx.read_works allow_working (fun _ _ ↦ rfl)
  refine ⟨hd, ?_⟩
  change InvitationRepository.findByID id w.db = y at hfind
  rw [InvitationRepository.findByID] at hfind
  cases hi : w.db.invitations.find? id with
  | none =>
    rw [hi] at hfind
    exact .inr ⟨hfind.symm, (w.db.invitations.find?_eq_none_iff id).mp hi⟩
  | some inv =>
    rw [hi] at hfind
    refine .inl ⟨inv, hfind.symm, fun inv' ↦ ?_⟩
    rw [← w.db.invitations.find?_eq_some_iff id inv', hi, Option.some.injEq]

/-- What follows the lookups, for the user's own invitation: a decline fails while it is open. -/
private theorem respond_rest {inv : Invitation} {user : User} {action : String} (hs : w.Sound)
    (huser : user ∈ w.db.users) (hinv : inv ∈ w.db.invitations) :
    Fails env db i (do
      if user.email ≠ inv.email then
        fail (.forbidden "this invitation was sent to a different email address")
      if inv.status ≠ .pending then fail (.badRequest "invitation is no longer valid")
      checkExpiry inv
      if action = "decline" then
        let _ ← query (.invitationUpdateStatus inv.id "declined")
          fun _ ↦ .app (.internal "failed to decline invitation")
        return message 200 "invitation declined"
      join user.id inv) w fun t ↦ action = "decline" ∧ inv.email = user.email ∧ Open t inv := by
  by_cases hemail : user.email = inv.email
  · rw [if_neg (not_not.mpr hemail)]
    by_cases hpending : inv.status = .pending
    · rw [if_neg (not_not.mpr hpending)]
      refine checkExpiry_bind (fun t hlate hp ↦ ?_) (fun t w₁ hd₁ hs₁ htime ↦ ?_) hs
      · exact absurd hlate (Int.not_lt.mpr hp.2.2.2)
      · by_cases haction : action = "decline"
        · rw [if_pos haction, wp_query_bind]
          constructor
          · intro _ w₂ h₂
            obtain ⟨ch, -, hexec, -⟩ := h₂.sql_works allow_working
            cases (Prod.mk.inj hexec).1
          · intro e w₂ _
            exact iff_of_true (by decide : 500 ≤ 500) ⟨haction, hemail.symm, hpending, htime⟩
        · rw [if_neg haction]
          refine Prog.wp.mono (fun x _ hx ↦ ?_) (join_below hs₁ (hd₁ ▸ huser) (hd₁ ▸ hinv))
          exact iff_of_false (Nat.not_le.mpr hx) fun hp ↦ haction hp.1
    · rw [if_pos hpending]
      refine Fails.congr (P := fun _ ↦ False) (fun t ↦ ?_) (fails_never ?_)
      · exact iff_of_false id fun hp ↦ hpending hp.2.2.1
      · exact (by decide : 400 < 500)
  · rw [if_pos hemail]
    refine Fails.congr (P := fun _ ↦ False) (fun t ↦ ?_) (fails_never ?_)
    · exact iff_of_false id fun hp ↦ hemail hp.2.1.symm
    · exact (by decide : 403 < 500)

theorem respondToInvitation_fails {idParam : String} (hs : w.Sound) :
    Fails env db i (respondToInvitation env u idParam r) w fun t ↦
      respondToInvitationFails env w.db u idParam r t := by
  unfold respondToInvitation
  cases hid : Uuid.parse idParam with
  | none =>
    refine Fails.congr (P := fun _ ↦ False) (fun t ↦ ?_) (fails_never ?_)
    · exact iff_of_false id fun ⟨id, hp, _⟩ ↦ nomatch hid.symm.trans hp
    · exact (by decide : 400 < 500)
  | some id =>
    refine Fails.congr (fun t ↦ ?_) (fails_body (P := fun (req : RespondToInvitationRequest) t ↦
      NoUser w.db u ∨ req.action = "decline" ∧ ∃ user ∈ w.db.users, user.id = u ∧
        ∃ inv ∈ w.db.invitations, inv.id = id ∧ inv.email = user.email ∧ Open t inv) fun req _ ↦ ?_)
    · simp only [respondToInvitationFails, hid, Option.some.injEq, exists_eq_left']
    · unfold Fails
      rw [wp_query_bind]
      constructor
      · intro (user : User) w₁ h₁
        have hs₁ := hs.exec h₁
        obtain ⟨hd₁, -, hfound | ⟨⟨e, he⟩, -⟩⟩ := userFindByID_inv h₁
        · obtain ⟨user', hu, huser, rfl⟩ := hfound
          cases hu
          have huser' (t : Time) : (req.action = "decline" ∧ ∃ inv ∈ w.db.invitations,
              inv.id = id ∧ inv.email = user.email ∧ Open t inv) ↔
              (NoUser w.db user.id ∨ req.action = "decline" ∧ ∃ user' ∈ w.db.users,
                user'.id = user.id ∧ ∃ inv ∈ w.db.invitations, inv.id = id ∧
                  inv.email = user'.email ∧ Open t inv) := by
            constructor
            · rintro ⟨haction, hinv⟩
              exact .inr ⟨haction, user, huser, rfl, hinv⟩
            · rintro (hno | ⟨haction, user', hmem, he, hinv⟩)
              · exact absurd rfl (hno user huser)
              · have hsame := (w.db.users.find?_eq_some_iff _ _).mpr ⟨hmem, he⟩
                rw [(w.db.users.find?_eq_some_iff _ _).mpr ⟨huser, rfl⟩] at hsame
                cases hsame
                exact ⟨haction, hinv⟩
          refine Fails.later h₁.clock_le (Fails.congr huser' ?_)
          unfold Fails
          rw [wp_query_bind]
          constructor
          · intro (inv : Invitation) w₂ h₂
            have hs₂ := hs₁.exec h₂
            obtain ⟨hd₂, ⟨inv', hi, hfind⟩ | ⟨hi, -⟩⟩ := invitationFindByID_inv h₂
            · cases hi
              rw [hd₁] at hd₂ hfind
              obtain ⟨hinv, -⟩ := (hfind inv).mpr rfl
              refine Fails.later h₂.clock_le (Fails.congr (fun t ↦ ?_)
                (respond_rest hs₂ (hd₂ ▸ huser) (hd₂ ▸ hinv)))
              refine and_congr_right fun _ ↦ ⟨fun hp ↦ ?_, ?_⟩
              · exact ⟨inv, hinv, ((hfind inv).mpr rfl).2, hp⟩
              · rintro ⟨inv', hinv', hid', hp⟩
                rw [(hfind inv').mp ⟨hinv', hid'⟩]
                exact hp
            · cases hi
          · intro e w₂ h₂
            obtain ⟨-, ⟨inv, hi, -⟩ | ⟨hi, hnone⟩⟩ := invitationFindByID_inv h₂
            · cases hi
            · cases hi
              refine ⟨w₁.clock, Int.le_refl _, h₂.clock_le, iff_of_false (by decide : ¬ 500 ≤ 404) ?_⟩
              rintro ⟨-, inv, hinv, hid', -⟩
              exact hnone inv (hd₁ ▸ hinv) hid'
        · cases he
      · intro e w₁ h₁
        obtain ⟨-, -, ⟨user, hu, -⟩ | ⟨-, hno⟩⟩ := userFindByID_inv h₁
        · cases hu
        · exact ⟨w.clock, Int.le_refl _, h₁.clock_le, iff_of_true (by decide : 500 ≤ 500) (.inl hno)⟩

theorem getPendingInvitations_fails (htext : ∀ user ∈ w.db.users, textOk user.email = true) :
    Fails env db i (getPendingInvitations env u) w fun _ ↦ NoUser w.db u := by
  refine fails_const ?_
  unfold getPendingInvitations
  rw [wp_query_bind]
  constructor
  · intro (user : User) w₁ h₁
    obtain ⟨hd₁, -, ⟨user', hu, huser, hid⟩ | ⟨⟨e, he⟩, -⟩⟩ := userFindByID_inv h₁
    · cases hu
      have hno : ¬ NoUser w.db u := fun hno ↦ hno user huser hid
      rw [wp_query_bind]
      refine ⟨fun _ w₂ _ ↦ iff_of_false (by decide : ¬ 500 ≤ 200) hno, fun e w₂ h₂ ↦ ?_⟩
      obtain ⟨ch, hfind, -⟩ := h₂.read_works allow_working (fun _ _ ↦ rfl)
      change InvitationRepository.findPendingByEmail ch.tie ch.now user.email w₁.db = .error e at hfind
      rw [InvitationRepository.findPendingByEmail,
        checkText_eq (by simp [htext user huser])] at hfind
      cases hfind
    · cases he
  · intro e w₁ h₁
    obtain ⟨-, -, ⟨user, hu, -⟩ | ⟨-, hno⟩⟩ := userFindByID_inv h₁
    · cases hu
    · exact iff_of_true (by decide : 500 ≤ 500) hno

end Handlers

/-! ### The emails of users -/

/-- A statement stores no email that Postgres does not take. -/
private theorem exec_emails {env : Platform} {ch : Choice} {db db' : Db} {s : Stmt}
    {r : Except Err s.Ok} (h : ∀ user ∈ db.users, textOk user.email = true)
    (hexec : s.exec env ch db = (r, db')) : ∀ user ∈ db'.users, textOk user.email = true := by
  have hchange := Stmt.exec_change env ch db s
  rw [hexec] at hchange
  generalize db' = tables at hchange hexec ⊢
  cases hchange with
  | userCreate hins =>
    rcases Stmt.write_inv hexec with ⟨a, -, hc⟩ | ⟨_, -, -, hd⟩
    · intro user huser
      obtain ⟨ha, users, hins', hd⟩ := UserRepository.create_ok hc
      rw [hd] at huser
      rcases (Relational.Table.mem_of_insert? hins' user).mp huser with huser | rfl
      · exact h user huser
      · rw [ha]
        exact UserRepository.create_text hc _ List.mem_cons_self
    · rw [hd]
      exact h
  | messageUpdateStatus hm =>
    obtain ⟨_, rfl⟩ := MessageRepository.updateStatus_ok hm
    exact h
  | _ => exact h

/-- In every run the emails of users are texts that Postgres takes. -/
theorem emails_ok {env : Env} {sent : Nat → Route × Request} {G : World → Proc → Op → Prop}
    {now : Time} {c : Config Proc World Op Op.Res}
    (hc : (system env sent G).Reachable (World.start now) c) :
    ∀ user ∈ c.state.db.users, textOk user.email = true := by
  refine hc.induct (I := fun c ↦ ∀ user ∈ c.state.db.users, textOk user.email = true)
    ?_ fun c c' _ ih hstep ↦ ?_
  · exact fun user huser ↦ absurd huser (List.not_mem_nil)
  · cases hstep with
    | @act _ o _ _ _ _ hx =>
      by_cases hs : ∃ s, o = .sql s
      · obtain ⟨s, rfl⟩ := hs
        rcases World.Exec.sql hx.2 with ⟨-, hd⟩ | ⟨ch, -, hexec, -⟩
        · exact hd ▸ ih
        · exact exec_emails ih hexec
      · exact World.Exec.db_eq hx.2 (fun s he ↦ hs ⟨s, he⟩) ▸ ih
    | again => exact ih

end Chis.Responses
