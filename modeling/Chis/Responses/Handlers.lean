import Chis.Responses.Mistakes

/-!
# Handlers and the failures they answer with

For each handler, run alone with everything available: its status code is 500 or more exactly for
the mistakes named in `Chis.Responses.Mistakes`.
-/

namespace Chis.Responses

open Program Api Access

section Handlers

variable {env : Env} {db : Db} {i : Proc} {w : World} {r : Request} {u orgID : Uuid}

/-! ### Reading -/

theorem stats_fails : Fails env db i (stats orgID) w fun _ ↦ False :=
  query_never (fun _ _ ↦ ⟨_, rfl⟩) fun _ ↦ (by decide : 200 < 500)

theorem listOrgs_fails : Fails env db i (listOrgs u) w fun _ ↦ False :=
  query_never (fun _ _ ↦ ⟨_, rfl⟩) fun _ ↦ (by decide : 200 < 500)

theorem listApiKeys_fails : Fails env db i (listApiKeys env orgID) w fun _ ↦ False :=
  query_never (fun _ _ ↦ ⟨_, rfl⟩) fun _ ↦ (by decide : 200 < 500)

theorem listInvitations_fails : Fails env db i (listInvitations env orgID) w fun _ ↦ False :=
  query_never (fun _ _ ↦ ⟨_, rfl⟩) fun _ ↦ (by decide : 200 < 500)

theorem webhookLogDetail_fails {idParam : String} :
    Fails env db i (webhookLogDetail env orgID idParam) w fun _ ↦ False := by
  refine fails_never ?_
  unfold webhookLogDetail
  split
  · rw [wp_query_bind]
    refine ⟨fun (msg : Message) w₁ _ ↦ ?_, fun e w₁ _ ↦ (by decide : 404 < 500)⟩
    split
    · exact (by decide : 404 < 500)
    · rw [wp_query_bind]
      refine ⟨fun _ w₂ _ ↦ (by decide : 200 < 500), fun e w₂ h₂ ↦ ?_⟩
      obtain ⟨ch, -, hexec, -⟩ := h₂.sql_works allow_working
      cases (Prod.mk.inj hexec).1
  · exact (by decide : 400 < 500)

theorem getSigningSecret_fails {org : Organization} (horg : org ∈ w.db.organizations)
    (ho : orgID = org.id) : Fails env db i (getSigningSecret orgID) w fun _ ↦ False := by
  refine fails_never ?_
  unfold getSigningSecret
  rw [wp_query_bind]
  refine ⟨fun _ w₁ _ ↦ (by decide : 200 < 500), fun e w₁ h₁ ↦ ?_⟩
  obtain ⟨ch, -, hexec, -⟩ := h₁.sql_works allow_working
  have hfind := (Prod.mk.inj hexec).1
  rw [OrganizationRepository.getSigningSecret, ho,
    (w.db.organizations.find?_eq_some_iff _ _).mpr ⟨horg, rfl⟩] at hfind
  cases hfind

/-! ### Writing -/

theorem deleteApiKey_fails {idParam : String} :
    Fails env db i (deleteApiKey idParam) w fun _ ↦ False := by
  refine fails_never ?_
  unfold deleteApiKey
  split
  · rw [wp_query_bind]
    refine ⟨fun _ w₁ _ ↦ (by decide : 204 < 500), fun e w₁ h₁ ↦ ?_⟩
    obtain ⟨ch, -, hexec, -⟩ := h₁.sql_works allow_working
    rcases Stmt.writeUnit_inv hexec with ⟨hok, -⟩ | ⟨_, he, hd, -⟩
    · cases hok
    · cases he
      unfold ApiKeyRepository.delete at hd
      split at hd
      · cases hd
        exact (by decide : 404 < 500)
      · cases hd
  · exact (by decide : 400 < 500)

theorem cancelInvitation_fails {idParam : String} :
    Fails env db i (cancelInvitation orgID idParam) w fun _ ↦ False := by
  refine fails_never ?_
  unfold cancelInvitation
  split
  · rw [wp_query_bind]
    refine ⟨fun (invs : List Invitation) w₁ _ ↦ ?_, fun e w₁ h₁ ↦ ?_⟩
    · split
      · exact (by decide : 404 < 500)
      · rw [wp_query_bind]
        refine ⟨fun _ w₂ _ ↦ (by decide : 200 < 500), fun e w₂ h₂ ↦ ?_⟩
        obtain ⟨ch, -, hexec, -⟩ := h₂.sql_works allow_working
        cases (Prod.mk.inj hexec).1
    · obtain ⟨ch, -, hexec, -⟩ := h₁.sql_works allow_working
      cases (Prod.mk.inj hexec).1
  · exact (by decide : 400 < 500)

theorem deleteOrg_fails :
    Fails env db i (deleteOrg env orgID r) w fun _ ↦ deleteOrgFails env r := by
  unfold deleteOrg
  refine fails_body (P := fun _ _ ↦ False) fun req _ ↦ fails_never ?_
  rw [wp_query_bind]
  refine ⟨fun (org : Organization) w₁ _ ↦ ?_, fun e w₁ _ ↦ (by decide : 404 < 500)⟩
  split
  · exact (by decide : 400 < 500)
  · rw [wp_query_bind]
    refine ⟨fun _ w₂ _ ↦ (by decide : 200 < 500), fun e w₂ h₂ ↦ ?_⟩
    obtain ⟨ch, -, hexec, -⟩ := h₂.sql_works allow_working
    cases (Prod.mk.inj hexec).1

theorem rotateSigningSecret_fails {org : Organization} (horg : org ∈ w.db.organizations)
    (ho : orgID = org.id) : Fails env db i (rotateSigningSecret orgID) w fun _ ↦ False := by
  refine fails_never ?_
  unfold rotateSigningSecret
  rw [wp_random_bind]
  constructor
  · intro bytes w₁ h₁
    obtain ⟨-, -, -, hd₁, -⟩ := h₁.rand_works allow_working
    rw [wp_query_bind]
    refine ⟨fun _ w₂ _ ↦ (by decide : 200 < 500), fun e w₂ h₂ ↦ ?_⟩
    obtain ⟨ch, -, hexec, -⟩ := h₂.sql_works allow_working
    rcases Stmt.writeUnit_inv hexec with ⟨hok, -⟩ | ⟨_, -, hr, -⟩
    · cases hok
    · have htext : checkText [Helper.randomText "whsec_" bytes] = .ok () :=
        checkText_eq fun s hs ↦ by
          rw [List.mem_singleton.mp hs]
          exact Accounts.textOk_randomText (by decide) bytes
      rw [OrganizationRepository.rotateSigningSecret, htext, ho, hd₁,
        (w.db.organizations.find?_eq_some_iff _ _).mpr ⟨horg, rfl⟩] at hr
      cases hr
  · intro e w₁ h₁
    obtain ⟨ch, -, hok, -⟩ := h₁.rand_works allow_working
    cases hok

/-- A text that Postgres does not store is the only mistake in an `INSERT` that `FromPostgres` answers
with a failure of the server. -/
theorem refused_status {texts : List String} {e : Err} (h : Refused texts e) :
    500 ≤ status (.error (.repo e)) ↔ ∃ s ∈ texts, textOk s = false := by
  cases h with
  | text hs ht => exact iff_of_true (by decide) ⟨_, hs, ht⟩
  | unique ht =>
    refine iff_of_false (by decide) ?_
    rintro ⟨s, hs, hno⟩
    rw [ht s hs] at hno
    cases hno
  | foreignKey ht =>
    refine iff_of_false (by decide) ?_
    rintro ⟨s, hs, hno⟩
    rw [ht s hs] at hno
    cases hno

private theorem textOk_take {s : String} (h : textOk s = true) (n : Nat) :
    textOk (s.take n).toString = true := by
  have hl : (s.take n).toString.toList = s.toList.take n := String.toList_copy_take
  rw [textOk, hl]
  exact List.all_eq_true.mpr fun c hc ↦ List.all_eq_true.mp h c (List.mem_of_mem_take hc)

private theorem textOk_hexEncode (bytes : List UInt8) : textOk (Helper.hexEncode bytes) = true :=
  List.all_eq_true.mpr fun c hc ↦ decide_eq_true (Helper.hexEncode_ne_nul bytes c hc)

theorem createApiKey_fails :
    Fails env db i (createApiKey env orgID r) w fun _ ↦ createApiKeyFails env r := by
  unfold createApiKey
  refine fails_body (P := fun (req : CreateApiKeyRequest) _ ↦ textOk req.name = false) fun req _ ↦ fails_const ?_
  rw [wp_random_bind]
  constructor
  · intro bytes w₁ _
    have hkey : textOk (Helper.randomText "chis_sk_" bytes) = true :=
      Accounts.textOk_randomText (by decide) bytes
    have hpre : textOk ((Helper.randomText "chis_sk_" bytes).take 12).toString = true :=
      textOk_take hkey 12
    have hhash : textOk (Helper.hexEncode (env.sha256 (Helper.randomText "chis_sk_" bytes))) = true :=
      textOk_hexEncode _
    rw [wp_query_bind]
    constructor
    · intro (k : APIKey) w₂ h₂
      obtain ⟨ch, -, hexec, -⟩ := h₂.sql_works allow_working
      rcases Stmt.write_inv hexec with ⟨a, -, hc⟩ | ⟨e, he, -⟩
      · refine iff_of_false (by decide : ¬ 500 ≤ 201) ?_
        rw [ApiKeyRepository.create_text hc req.name List.mem_cons_self]
        decide
      · cases he
    · intro e w₂ h₂
      obtain ⟨ch, -, hexec, -⟩ := h₂.sql_works allow_working
      rcases Stmt.write_inv hexec with ⟨a, ha, -⟩ | ⟨_, he, hc, -⟩
      · cases ha
      · cases he
        rw [refused_status (ApiKeyRepository.create_error hc)]
        simp only [List.mem_cons, List.not_mem_nil, or_false, exists_eq_or_imp, exists_eq_left, hpre,
          hhash, Bool.true_eq_false]
  · intro e w₁ h₁
    obtain ⟨ch, -, hok, -⟩ := h₁.rand_works allow_working
    cases hok

theorem createInvitation_fails {user : User} {org : Organization} (hs : w.Sound)
    (hdb : w.db = db) (huser : user ∈ w.db.users) (horg : org ∈ w.db.organizations)
    (ho : orgID = org.id) :
    Fails env db i (createInvitation env user.id orgID r) w fun _ ↦
      createInvitationFails env r := by
  unfold createInvitation
  refine fails_body (P := fun (req : CreateInvitationRequest) _ ↦ textOk req.email = false) fun req _ ↦ fails_const ?_
  rw [wp_handler_bind]
  refine Prog.wp.mono (fun x w₁ h₁ ↦ ?_) (alreadyMember_ends allow_working)
  obtain ⟨hd₁, hi₁, rfl | ⟨rfl, htext, -⟩⟩ := h₁
  · refine ⟨fun b hb ↦ ?_, fun e he ↦ (nomatch he)⟩
    cases hb
    rw [if_neg (by decide), wp_handler_bind]
    refine Prog.wp.mono (fun x w₂ h₂ ↦ ?_) (removeOldInvitation_ends allow_working (hd₁ ▸ hs.unique))
    obtain ⟨hends, hi₂⟩ := h₂
    rw [hd₁] at hends
    have hids : ∀ inv ∈ w.db.invitations, inv.id ∈ w₂.issued := fun inv hinv ↦
      hi₂ (hi₁ (hs.generated.invitations inv hinv))
    cases hends with
    | cleared htext hold hclear =>
      refine ⟨fun _ _ ↦ ?_, fun e he ↦ (nomatch he)⟩
      refine Prog.wp.mono (fun x w₃ h₃ ↦ ?_) (insertInvitation_ends allow_working hclear
        (fun ch ha ↦ hdb ▸ ha.token) hids htext huser horg ho)
      obtain ⟨ch, -, hinvited⟩ := h₃
      rw [hinvited.answer, htext]
      decide
    | refused inv hinv _ he _ hstatus =>
      refine ⟨fun b hb ↦ (nomatch hb), fun e' he' ↦ ?_⟩
      cases he'
      rw [hstatus, ← he, (hs.unique.texts inv hinv).2]
      decide
    | illegible htext hstatus =>
      refine ⟨fun b hb ↦ (nomatch hb), fun e' he' ↦ ?_⟩
      cases he'
      rw [hstatus, htext]
      decide
  · refine ⟨fun b hb ↦ ?_, fun e he ↦ (nomatch he)⟩
    cases hb
    rw [if_pos rfl, htext]
    exact (by decide : 500 ≤ 409 ↔ true = false)

/-! ### The log -/

private theorem ofLabel_text {s : String} {st : MessageStatus}
    (h : MessageStatus.ofLabel s = some st) : textOk s = true := by
  have hlabel : st.label = s := by simpa using List.find?_some h
  rw [← hlabel]
  cases st <;> decide

private theorem checkText_one {s : String} : checkText [s] = .ok () ↔ textOk s = true :=
  ⟨fun h ↦ checkText_ok h s List.mem_cons_self, fun h ↦ checkText_eq (by simp [h])⟩

private theorem compile_status {lower : Char → Char} {args : List MessageRepository.Arg} {n : Nat}
    {s : String} (h : args[n - 1]? = some (.text s)) :
    (∃ p, MessageRepository.Cond.compile lower args (.status n) = .ok p) ↔
      MessageStatus.ofLabel s ≠ none := by
  rw [MessageRepository.Cond.compile, h]
  simp only [except_bind_ok]
  constructor
  · rintro ⟨p, _, -, hp⟩ hnone
    rw [hnone] at hp
    cases hp
  · intro hsome
    obtain ⟨st, hst⟩ := Option.ne_none_iff_exists'.mp hsome
    rw [hst]
    exact ⟨_, (), checkText_one.mpr (ofLabel_text hst), rfl⟩

private theorem compile_search {lower : Char → Char} {args : List MessageRepository.Arg} {n : Nat}
    {s : String} (h : args[n - 1]? = some (.text s)) :
    (∃ p, MessageRepository.Cond.compile lower args (.urlILike n) = .ok p) ↔ textOk s = true := by
  rw [MessageRepository.Cond.compile, h]
  simp only [except_bind_ok]
  constructor
  · rintro ⟨p, _, ht, -⟩
    exact checkText_one.mp ht
  · intro ht
    exact ⟨_, (), checkText_one.mpr ht, rfl⟩

private theorem mapM_ok {ε α β : Type} {f : α → Except ε β} {l : List α} :
    (∃ bs, l.mapM f = .ok bs) ↔ ∀ a ∈ l, ∃ b, f a = .ok b := by
  induction l with
  | nil => simp [pure, Except.pure]
  | cons a rest ih =>
    rw [List.forall_mem_cons, ← ih, List.mapM_cons]
    simp only [except_bind_ok]
    constructor
    · rintro ⟨_, b, hb, bs, hbs, -⟩
      exact ⟨⟨b, hb⟩, bs, hbs⟩
    · rintro ⟨⟨b, hb⟩, bs, hbs⟩
      exact ⟨_, b, hb, bs, hbs, rfl⟩

private theorem selectWhere_ok {lower : Char → Char} {conds : List MessageRepository.Cond}
    {args : List MessageRepository.Arg} {db : Db} :
    (∃ rows, MessageRepository.selectWhere lower conds args db = .ok rows) ↔
      ∀ c ∈ conds, ∃ p, c.compile lower args = .ok p := by
  rw [← mapM_ok]
  simp only [MessageRepository.selectWhere, except_bind_ok]
  constructor
  · rintro ⟨_, ps, hps, -⟩
    exact ⟨ps, hps⟩
  · rintro ⟨ps, hps⟩
    exact ⟨_, ps, hps, rfl⟩

/-- The texts that the `WHERE` clause takes. -/
private theorem whereClause_compiles {lower : Char → Char} {status search : String}
    {extra : List MessageRepository.Arg} :
    (∀ c ∈ (whereClause orgID status search).1,
      ∃ p, c.compile lower ((whereClause orgID status search).2 ++ extra) = .ok p) ↔
      (status ≠ "" → MessageStatus.ofLabel status ≠ none) ∧ textOk search = true := by
  have horg {rest : List MessageRepository.Arg} :
      ∃ p, MessageRepository.Cond.compile lower (.uuid orgID :: rest) (.orgID 1) = .ok p := ⟨_, rfl⟩
  have hsearch : textOk ("%" ++ search ++ "%") = true ↔ textOk search = true := by
    rw [textOk_append, textOk_append]
    exact ⟨fun h ↦ h.1.2, fun h ↦ ⟨⟨by decide, h⟩, by decide⟩⟩
  by_cases h₁ : status = ""
  · by_cases h₂ : search = ""
    · simp only [whereClause, h₁, h₂, ne_eq, not_true_eq_false, if_false, List.mem_singleton,
        forall_eq, List.cons_append, false_imp_iff, true_and]
      exact iff_of_true horg (by decide)
    · simp only [whereClause, h₁, h₂, ne_eq, not_true_eq_false, not_false_eq_true, if_true, if_false,
        List.cons_append, List.nil_append, List.forall_mem_cons, false_imp_iff, true_and]
      rw [compile_search rfl, hsearch]
      simp [horg]
  · by_cases h₂ : search = ""
    · simp only [whereClause, h₁, h₂, ne_eq, not_true_eq_false, not_false_eq_true, if_true, if_false,
        List.cons_append, List.nil_append, List.forall_mem_cons, true_imp_iff]
      rw [compile_status rfl]
      simp only [horg, true_and]
      exact and_congr Iff.rfl (iff_of_true (by simp) (by decide))
    · simp only [whereClause, h₁, h₂, ne_eq, not_false_eq_true, if_true,
        List.cons_append, List.nil_append, List.forall_mem_cons, true_imp_iff]
      rw [compile_status rfl, compile_search rfl, hsearch]
      simp [horg]

private theorem pageOf_pos (v : String) : ¬ pageOf v < 1 := by
  unfold pageOf
  split
  · split <;> omega
  · omega

private theorem limitOf_pos (v : String) : ¬ limitOf v < 1 := by
  unfold limitOf
  split
  · split <;> omega
  · omega

private theorem countWebhookLogs_ok {lower : Char → Char} {conds : List MessageRepository.Cond}
    {args : List MessageRepository.Arg} {db : Db} :
    (∃ n, MessageRepository.countWebhookLogs lower conds args db = .ok n) ↔
      ∃ rows, MessageRepository.selectWhere lower conds args db = .ok rows := by
  simp only [MessageRepository.countWebhookLogs, except_bind_ok]
  constructor
  · rintro ⟨_, rows, hrows, -⟩
    exact ⟨rows, hrows⟩
  · rintro ⟨rows, hrows⟩
    exact ⟨_, rows, hrows, rfl⟩

private theorem pageWebhookLogs_ok (lower : Char → Char) (tie : Uuid → Nat)
    (conds : List MessageRepository.Cond) (args : List MessageRepository.Arg) {limit : Int}
    (offset : Int) (db : Db) (hlimit : ¬ limit < 1) :
    (∃ rows, MessageRepository.pageWebhookLogs lower tie conds (args.length + 1) (args.length + 2)
      (args ++ [.int limit, .int offset]) db = .ok rows) ↔
      (∃ rows, MessageRepository.selectWhere lower conds (args ++ [.int limit, .int offset]) db =
        .ok rows) ∧ ¬ offset < 0 := by
  have hfst : (args ++ [.int limit, .int offset])[args.length + 1 - 1]? = some (.int limit) := by
    simp
  have hsnd : (args ++ [.int limit, .int offset])[args.length + 2 - 1]? = some (.int offset) := by
    simp
  simp only [MessageRepository.pageWebhookLogs, hfst, hsnd, except_bind_ok]
  constructor
  · rintro ⟨_, rows, hrows, h⟩
    refine ⟨⟨rows, hrows⟩, fun hneg ↦ ?_⟩
    rw [if_pos (.inr hneg)] at h
    cases h
  · rintro ⟨⟨rows, hrows⟩, hneg⟩
    have hnot : ¬ (limit < 0 ∨ offset < 0) := by omega
    exact ⟨_, rows, hrows, if_neg hnot⟩

/-- Which log queries can be answered. -/
private theorem where_ok (lower : Char → Char) (orgID : Uuid) (status search : String)
    (extra : List MessageRepository.Arg) (db : Db) :
    (∃ rows, MessageRepository.selectWhere lower (whereClause orgID status search).1
      ((whereClause orgID status search).2 ++ extra) db = .ok rows) ↔
      (status ≠ "" → MessageStatus.ofLabel status ≠ none) ∧ textOk search = true :=
  selectWhere_ok.trans whereClause_compiles

theorem webhookLogs_fails :
    Fails env db i (webhookLogs env orgID r) w fun _ ↦ webhookLogsFails r := by
  have hbad : ¬ ((r.get "status" ≠ "" → MessageStatus.ofLabel (r.get "status") ≠ none) ∧
      textOk (r.get "search") = true) → webhookLogsFails r := by
    intro hno
    by_cases ht : textOk (r.get "search") = true
    · simp only [ht, and_true, Classical.not_imp, not_not] at hno
      exact .inl hno
    · exact .inr (.inl (Bool.eq_false_iff.mpr ht))
  have hwhere (extra : List MessageRepository.Arg) (db : Db) :=
    where_ok env.lower orgID (r.get "status") (r.get "search") extra db
  have hneg : Int.bmod ((pageOf (r.get "page") - 1) * limitOf (r.get "limit")) (2 ^ 64) < 0 →
    webhookLogsFails r := fun h ↦ .inr (.inr h)
  have hgood : webhookLogsFails r → (r.get "status" ≠ "" →
      MessageStatus.ofLabel (r.get "status") ≠ none) → textOk (r.get "search") = true →
      Int.bmod ((pageOf (r.get "page") - 1) * limitOf (r.get "limit")) (2 ^ 64) < 0 := by
    rintro (⟨hne, hnone⟩ | htext | hneg) hst ht
    · exact absurd hnone (hst hne)
    · rw [ht] at htext
      cases htext
    · exact hneg
  refine fails_const ?_
  unfold webhookLogs
  rw [wp_lift_bind]
  unfold findWebhookLogs
  dsimp only
  rw [if_neg (pageOf_pos _), if_neg (limitOf_pos _)]
  simp only [Prog.monad_bind, Service.sql, Prog.bind_call, Prog.wp_op]
  generalize Int.bmod ((pageOf (r.get "page") - 1) * limitOf (r.get "limit")) (2 ^ 64) = offset
    at hneg hgood ⊢
  have hlimit := limitOf_pos (r.get "limit")
  generalize limitOf (r.get "limit") = limit at hlimit ⊢
  generalize whereClause orgID (r.get "status") (r.get "search") = wc at hwhere ⊢
  rintro (e | total) w₁ h₁
  · obtain ⟨ch₁, hcount, -⟩ := h₁.read_works allow_working (fun _ _ ↦ rfl)
    refine iff_of_true (by decide : 500 ≤ 500) (hbad fun hok ↦ ?_)
    rw [← hwhere [] w.db, List.append_nil] at hok
    obtain ⟨n, hn⟩ := countWebhookLogs_ok.mpr hok
    have hno : Except.error e = Except.ok n := hcount.symm.trans hn
    cases hno
  · obtain ⟨ch₁, hcount, -⟩ := h₁.read_works allow_working (fun _ _ ↦ rfl)
    have hok := countWebhookLogs_ok.mp ⟨total, hcount⟩
    rw [← List.append_nil wc.2, hwhere [] w.db] at hok
    intro y w₂ h₂
    obtain ⟨ch₂, hpage, -⟩ := h₂.read_works allow_working (fun _ _ ↦ rfl)
    have hpages := pageWebhookLogs_ok env.lower ch₂.tie wc.1 wc.2 offset w₁.db hlimit
    rw [hwhere] at hpages
    change MessageRepository.pageWebhookLogs env.lower ch₂.tie wc.1 _ _ _ w₁.db = y at hpage
    rw [hpage] at hpages
    cases y with
    | error e =>
      refine iff_of_true (by decide : 500 ≤ 500) (hneg ?_)
      by_contra hpos
      obtain ⟨rows, hrows⟩ := hpages.mpr ⟨hok, hpos⟩
      cases hrows
    | ok rows =>
      refine iff_of_false (by decide : ¬ 500 ≤ 200) fun hfails ↦ ?_
      exact (hpages.mp ⟨rows, rfl⟩).2 (hgood hfails hok.1 hok.2)

end Handlers

end Chis.Responses
