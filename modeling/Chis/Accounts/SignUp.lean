import Chis.Accounts.Creation

/-!
# Signing up

Whether a registration succeeds depends on one thing about the other users: whether the slug of the
new workspace is taken.
-/

namespace Chis.Accounts

open Program Api

/-! ### Ids in use -/

/-- The ids of users, accounts, organizations and memberships, and the users that accounts and
memberships refer to, are among the ids generated. -/
structure Minted (db : Db) (issued : List Uuid) : Prop where
  users : ∀ u ∈ db.users, u.id ∈ issued
  accounts : ∀ a ∈ db.accounts, a.id ∈ issued ∧ a.userID ∈ issued
  organizations : ∀ o ∈ db.organizations, o.id ∈ issued
  memberships : ∀ m ∈ db.memberships, m.id ∈ issued ∧ m.userID ∈ issued

theorem Minted.mono {db : Db} {issued issued' : List Uuid} (h : Minted db issued)
    (hsub : issued ⊆ issued') : Minted db issued' where
  users u hu := hsub (h.users u hu)
  accounts a ha := ⟨hsub (h.accounts a ha).1, hsub (h.accounts a ha).2⟩
  organizations o ho := hsub (h.organizations o ho)
  memberships m hm := ⟨hsub (h.memberships m hm).1, hsub (h.memberships m hm).2⟩

/-- Every statement keeps that. -/
theorem Minted.exec {env : Platform} {ch : Choice} {db db' : Db} {s : Stmt} {r : Except Err s.Ok}
    {issued : List Uuid} (h : Minted db issued) (hx : s.exec env ch db = (r, db'))
    (hid : s.inserts = true → ch.id ∈ issued) : Minted db' issued := by
  have hc := Stmt.exec_change env ch db s
  rw [hx] at hc
  cases hc with
  | userCreate hu =>
    refine { h with users := fun u hmem ↦ ?_ }
    rcases (Relational.Table.mem_of_insert? hu u).mp hmem with hmem | rfl
    · exact h.users u hmem
    · exact hid rfl
  | @accountCreate account accounts ha =>
    rcases Stmt.write_inv hx with ⟨a, -, hcreate⟩ | ⟨e, -, -, hd⟩
    · obtain ⟨u, hu, hue⟩ := AccountRepository.create_user hcreate
      refine { h with accounts := fun a' hmem ↦ ?_ }
      rcases (Relational.Table.mem_of_insert? ha a').mp hmem with hmem | rfl
      · exact h.accounts a' hmem
      · exact ⟨hid rfl, hue ▸ h.users u hu⟩
    · rw [hd]
      exact h
  | organizationCreate ho =>
    refine { h with organizations := fun o hmem ↦ ?_ }
    rcases (Relational.Table.mem_of_insert? ho o).mp hmem with hmem | rfl
    · exact h.organizations o hmem
    · exact hid rfl
  | @membershipCreate m memberships hm =>
    rcases Stmt.write_inv hx with ⟨a, -, hcreate⟩ | ⟨e, -, -, hd⟩
    · obtain ⟨u, hu, hue⟩ := MembershipRepository.create_user hcreate
      refine { h with memberships := fun m' hmem ↦ ?_ }
      rcases (Relational.Table.mem_of_insert? hm m').mp hmem with hmem | rfl
      · exact h.memberships m' hmem
      · exact ⟨hid rfl, hue ▸ h.users u hu⟩
    · rw [hd]
      exact h
  | organizationDelete =>
    constructor
    · exact h.users
    · exact h.accounts
    · exact fun o ho ↦ h.organizations o ((Relational.Table.mem_filter _ _ _).mp ho).1
    · exact fun m hm ↦ h.memberships m ((Relational.Table.mem_filter _ _ _).mp hm).1
  | rotateSigningSecret orgID newSecret =>
    refine { h with organizations := fun o ho ↦ ?_ }
    rcases Relational.Table.mem_modify_cases (by intro _; rfl) ho with ⟨ho, -⟩ | ⟨o₀, h₀, -, rfl⟩
    · exact h.organizations o ho
    · exact h.organizations o₀ h₀
  | messageUpdateStatus hu =>
    obtain ⟨_, rfl⟩ := MessageRepository.updateStatus_ok hu
    exact { h with }
  | _ => exact { h with }

theorem minted {env : Env} {sent : Nat → Route × Request} {G : World → Proc → Op → Prop}
    {now : Time} {c : Config Proc World Op Op.Res}
    (h : (system env sent G).Reachable (World.start now) c) : Minted c.state.db c.state.issued := by
  refine h.induct (I := fun c ↦ Minted c.state.db c.state.issued) ⟨?_, ?_, ?_, ?_⟩
    fun c c' _ ih hstep ↦ ?_
  · intro u hu
    cases hu
  · intro a ha
    cases ha
  · intro o ho
    cases ho
  · intro m hm
    cases hm
  · cases hstep with
    | @act i o k r w' _ hx =>
      have hsub := hx.2.issued_subset
      by_cases hs : ∃ s, o = .sql s
      · obtain ⟨s, rfl⟩ := hs
        rcases World.Exec.sql hx.2 with ⟨-, hd⟩ | ⟨ch, -, hexec, hid⟩
        · show Minted w'.db w'.issued
          rw [hd]
          exact ih.mono hsub
        · exact (ih.mono hsub).exec hexec fun hins ↦ (hid hins).2
      · show Minted w'.db w'.issued
        rw [World.Exec.db_eq hx.2 fun s he ↦ hs ⟨s, he⟩]
        exact ih.mono hsub
    | again => exact ih

/-! ### One insertion without failures -/

/-- Every operation succeeds as far as the tables let it. -/
abbrev noFault (env : Env) (i : Proc) : (o : Op) → World → o.Res → World → Prop :=
  World.Exec env.toPlatform World.faultless i

section Insertions

variable {env : Env} {i : Proc} {w w' : World}

private theorem minted_step {s : Stmt} {y : Except Err s.Ok} (h : Minted w.db w.issued)
    (hx : noFault env i (.sql s) w y w') : Minted w'.db w'.issued := by
  obtain ⟨ch, hexec, hid⟩ := World.Exec.sql_faultless hx
  exact (h.mono (World.Exec.issued_subset hx)).exec hexec fun hins ↦ (hid hins).2

private theorem user_created {user : User} {y : Except Err User} (h : Minted w.db w.issued)
    (htext : ∀ s ∈ user.email :: user.firstName :: user.lastName.toList, textOk s = true)
    (hemail : ∀ u ∈ w.db.users, u.email ≠ user.email)
    (hx : noFault env i (.sql (.userCreate user)) w y w') :
    ∃ a users, y = .ok a ∧ a.email = user.email ∧ a.firstName = user.firstName ∧ a.id ∉ w.issued ∧
      w.db.users.insert? a = some users ∧ w'.db = { w.db with users := users } := by
  obtain ⟨ch, hexec, hid⟩ := World.Exec.sql_faultless hx
  obtain ⟨hfresh, -⟩ := hid rfl
  rcases Stmt.write_inv hexec with ⟨a, rfl, hc⟩ | ⟨e, -, he, -⟩
  · obtain ⟨ha, users, hu, hd⟩ := UserRepository.create_ok hc
    exact ⟨a, users, rfl, by rw [ha], by rw [ha], by rw [ha]; exact hfresh, hu, hd⟩
  · obtain ⟨x, hx⟩ := @UserRepository.create_eq ch.id ch.now user w.db htext
      (fun u hu hue ↦ hfresh (hue ▸ h.users u hu)) hemail
    rw [hx] at he
    cases he

private theorem account_created {account : Account} {user : User} {y : Except Err Account}
    (h : Minted w.db w.issued)
    (htext : ∀ s ∈ [account.provider, account.providerAccountID] ++ account.passwordHash.toList,
      textOk s = true)
    (hname : ∀ a ∈ w.db.accounts, a.providerAccountID ≠ account.providerAccountID)
    (huser : user ∈ w.db.users) (hu : account.userID = user.id)
    (hx : noFault env i (.sql (.accountCreate account)) w y w') :
    ∃ a accounts, y = .ok a ∧ a.userID = account.userID ∧ a.passwordHash = account.passwordHash ∧
      w.db.accounts.insert? a = some accounts ∧ w'.db = { w.db with accounts := accounts } := by
  obtain ⟨ch, hexec, hid⟩ := World.Exec.sql_faultless hx
  obtain ⟨hfresh, -⟩ := hid rfl
  rcases Stmt.write_inv hexec with ⟨a, rfl, hc⟩ | ⟨e, -, he, -⟩
  · obtain ⟨ha, accounts, hu, hd⟩ := AccountRepository.create_ok hc
    exact ⟨a, accounts, rfl, by rw [ha], by rw [ha], hu, hd⟩
  · obtain ⟨x, hx⟩ := @AccountRepository.create_eq ch.id ch.now account w.db user htext
      (fun a ha hae ↦ hfresh (hae ▸ (h.accounts a ha).1)) hname huser hu
    rw [hx] at he
    cases he

/-- An organization is inserted exactly when its slug is free. -/
private theorem organization_created {org : Organization} {y : Except Err Organization}
    (h : Minted w.db w.issued)
    (htext : ∀ s ∈ [org.name, org.slug, org.signingSecret], textOk s = true)
    (hx : noFault env i (.sql (.organizationCreate org)) w y w') :
    ((∀ o ∈ w.db.organizations, o.slug ≠ org.slug) ∧ ∃ a organizations, y = .ok a ∧
      a.id ∉ w.issued ∧ w.db.organizations.insert? a = some organizations ∧
      w'.db = { w.db with organizations := organizations }) ∨
    ((∃ o ∈ w.db.organizations, o.slug = org.slug) ∧ ∃ e, y = .error e) := by
  obtain ⟨ch, hexec, hid⟩ := World.Exec.sql_faultless hx
  obtain ⟨hfresh, -⟩ := hid rfl
  rcases Stmt.write_inv hexec with ⟨a, rfl, hc⟩ | ⟨e, rfl, he, -⟩
  · obtain ⟨ha, organizations, hu, hd⟩ := OrganizationRepository.create_ok hc
    refine .inl ⟨OrganizationRepository.create_slug hc, a, organizations, rfl, ?_, hu, hd⟩
    rw [ha]
    exact hfresh
  · refine .inr ⟨?_, e, rfl⟩
    by_contra! hslug
    obtain ⟨x, hx⟩ := @OrganizationRepository.create_eq ch.id ch.now org w.db htext
      (fun o ho hoe ↦ hfresh (hoe ▸ h.organizations o ho)) hslug
    rw [hx] at he
    cases he

private theorem membership_created {m : Membership} {user : User} {org : Organization}
    {y : Except Err Membership} (h : Minted w.db w.issued)
    (hnew : ∀ m' ∈ w.db.memberships, m'.userID ≠ m.userID) (huser : user ∈ w.db.users)
    (hu : m.userID = user.id) (horg : org ∈ w.db.organizations) (ho : m.orgID = org.id)
    (hx : noFault env i (.sql (.membershipCreate m)) w y w') :
    ∃ a memberships, y = .ok a ∧ a.userID = m.userID ∧ a.orgID = m.orgID ∧ a.role = m.role ∧
      w.db.memberships.insert? a = some memberships ∧
      w'.db = { w.db with memberships := memberships } := by
  obtain ⟨ch, hexec, hid⟩ := World.Exec.sql_faultless hx
  obtain ⟨hfresh, -⟩ := hid rfl
  rcases Stmt.write_inv hexec with ⟨a, rfl, hc⟩ | ⟨e, -, he, -⟩
  · obtain ⟨ha, memberships, hu, hd⟩ := MembershipRepository.create_ok hc
    exact ⟨a, memberships, rfl, by rw [ha], by rw [ha], by rw [ha], hu, hd⟩
  · obtain ⟨x, hx⟩ := @MembershipRepository.create_eq ch.id ch.now m w.db user org
      (fun m hm hme ↦ hfresh (hme ▸ (h.memberships m hm).1)) hnew huser hu horg ho
    rw [hx] at he
    cases he

end Insertions

/-! ### Registration -/

/-- `golang.org/x/crypto/bcrypt`: a password of at most 72 bytes has a hash, which is a text that
Postgres stores and which the password matches. -/
structure Bcrypt (env : Env) : Prop where
  hashes : ∀ salt password, password.utf8ByteSize ≤ 72 →
    ∃ hash, env.bcryptHash salt password = some hash
  text : ∀ salt password hash, env.bcryptHash salt password = some hash → textOk hash = true
  matched : ∀ salt password hash, env.bcryptHash salt password = some hash →
    env.bcryptMatches hash password = true

/-- `jwt.SignedString` with HMAC-SHA256, which does not fail. -/
def Signs (env : Env) : Prop := ∀ subject expiry, ∃ token, env.jwtSign subject expiry = some token

/-- A login with this address and this password can be made, and answers 202. -/
def LogsIn (env : Env) (i : Proc) (w : World) (email password : String) : Prop :=
  ∀ r, decodeAndValidate LoginRequest.fields (LoginRequest.errors env) r.body =
      .ok ⟨email, password⟩ →
    (∃ x w', (login env r).run.Runs (noFault env i) w x w') ∧
      ∀ x w', (login env r).run.Runs (noFault env i) w x w' → ∃ res, x = .ok res ∧ res.code = 202

/-- The registration answers 201; the new user can log in and is an admin of a new organization. -/
structure SignedUp (env : Env) (i : Proc) (req : RegisterRequest) (db : Db)
    (x : Except Fault Response) (w' : World) : Prop where
  answer : ∃ res, x = .ok res ∧ res.code = 201
  login : LogsIn env i w' req.email req.password
  admin : ∃ user ∈ w'.db.users, user.email = req.email ∧ ∃ org ∈ w'.db.organizations,
    (∀ o ∈ db.organizations, o.id ≠ org.id) ∧
      ∃ m ∈ w'.db.memberships, m.userID = user.id ∧ m.orgID = org.id ∧ m.role = .admin

/-- The slug of the workspace of a new user; `auth.go:136`. -/
def workspaceSlug (env : Env) (req : RegisterRequest) : String :=
  Helper.slugify env.toLower (req.firstName ++ "'s Workspace")

section Login

variable {env : Env} {i : Proc} {w : World} {email password hash : String} {user : User}
  {account : Account}

private theorem read_exec {s : Stmt} {w' : World} {y : Except Err s.Ok} {a : s.Ok}
    (hs : ∀ ch, s.exec env.toPlatform ch w.db = (.ok a, w.db))
    (hx : noFault env i (.sql s) w y w') : y = .ok a ∧ w'.db = w.db := by
  obtain ⟨ch, hexec, -⟩ := World.Exec.sql_faultless hx
  obtain ⟨hy, hd⟩ := Prod.mk.inj ((hs ch).symm.trans hexec)
  exact ⟨hy.symm, hd.symm⟩

/-- A user whose account has a hash of the password can log in. -/
theorem logsIn_of_found (hsign : Signs env) (htext : textOk email = true)
    (hu : w.db.users.rows.find? (fun u ↦ u.email = email) = some user)
    (ha : w.db.accounts.rows.find? (fun a ↦ a.userID = user.id) = some account)
    (hhash : account.passwordHash = some hash) (hpw : env.bcryptMatches hash password = true) :
    LogsIn env i w email password := by
  intro r hr
  have hfind (ch : Choice) : (Stmt.userFindByEmail email).exec env.toPlatform ch w.db =
      (.ok user, w.db) := by
    change (UserRepository.findByEmail email w.db, w.db) = _
    rw [UserRepository.findByEmail, checkText_eq (by simpa using htext)]
    show (Option.elim _ _ _, _) = _
    rw [hu]
    rfl
  have hfind' (ch : Choice) : (Stmt.accountFindByUserID user.id).exec env.toPlatform ch w.db =
      (.ok account, w.db) := by
    change (AccountRepository.findByUserID user.id w.db, w.db) = _
    rw [AccountRepository.findByUserID, ha]
    rfl
  constructor
  · let ch : Choice := ⟨false, w.clock, .nil, fun _ ↦ 0, .failed "", []⟩
    obtain ⟨w₁, h₁, hd₁, hc₁⟩ := World.exec_sql env.toPlatform World.faultless i
      (.userFindByEmail email) ch rfl rfl rfl (Int.le_refl _)
    rw [hfind] at h₁ hd₁
    change w₁.db = w.db at hd₁
    rw [← hd₁] at hfind'
    obtain ⟨w₂, h₂, -, hc₂⟩ := World.exec_sql env.toPlatform World.faultless i
      (.accountFindByUserID user.id) ch (w := w₁) rfl rfl rfl (Int.le_of_eq hc₁)
    rw [hfind'] at h₂
    obtain ⟨w₃, h₃⟩ := World.exec_now env.toPlatform World.faultless i ch (w := w₂) rfl rfl
      (Int.le_of_eq hc₂)
    obtain ⟨token, htoken⟩ := hsign user.id.toString (ch.now / 1000000 + 48 * 3600)
    refine ⟨.ok (writeJSON 202 (.obj [("token", .str token)])), w₃, ?_⟩
    unfold login
    rw [hr, run_check_ok, run_query_bind]
    refine ⟨_, w₁, h₁, ?_⟩
    show ((query (.accountFindByUserID user.id) _ >>= _ : Handler Response).run).Runs _ _ _ _
    rw [run_query_bind]
    refine ⟨_, w₂, h₂, ?_⟩
    simp only [onAnswer, hhash, hpw, Bool.not_true, Bool.false_eq_true, if_false, run_clock_bind]
    refine ⟨_, w₃, h₃, ?_⟩
    beta_reduce
    rw [htoken]
    exact ⟨rfl, rfl⟩
  · intro x w' hrun
    refine hrun.post (Q := fun x _ ↦ ∃ res, x = .ok res ∧ res.code = 202) ?_
    unfold login
    rw [wp_check_bind, hr]
    refine ⟨fun req hreq ↦ ?_, fun e he ↦ by cases he⟩
    cases hreq
    rw [wp_query_bind]
    refine ⟨fun user' w₁ h₁ ↦ ?_, fun e w₁ h₁ ↦ by cases (read_exec hfind h₁).1⟩
    obtain ⟨hy, hd₁⟩ := read_exec hfind h₁
    cases hy
    rw [wp_query_bind]
    rw [← hd₁] at hfind'
    refine ⟨fun account' w₂ h₂ ↦ ?_, fun e w₂ h₂ ↦ by cases (read_exec hfind' h₂).1⟩
    obtain ⟨hy, hd₂⟩ := read_exec hfind' h₂
    cases hy
    rw [hhash]
    simp only [hpw, Bool.not_true, Bool.false_eq_true, if_false, run_clock_bind, Prog.wp_op]
    intro t w₃ _
    obtain ⟨token, htoken⟩ := hsign user.id.toString (t / 1000000 + 48 * 3600)
    rw [htoken]
    exact ⟨_, rfl, rfl⟩

end Login

/-! ### Whether a registration succeeds -/

section Register

variable {env : Env} {i : Proc} {w : World} {r : Request} {req : RegisterRequest}

theorem textOk_slugify (env : Env) (s : String) : textOk (Helper.slugify env.toLower s) = true := by
  refine List.all_eq_true.mpr fun c hc ↦ decide_eq_true fun h0 ↦ ?_
  have hslug := Helper.slugify_chars env.toLower _ c hc
  have hnul : c = Char.ofNat 0 := by rw [← h0, Char.ofNat_toNat]
  rw [hnul] at hslug
  exact absurd hslug (by decide)

theorem textOk_randomText {pre : String} (h : textOk pre = true) (bytes : List UInt8) :
    textOk (Helper.randomText pre bytes) = true :=
  textOk_append.mpr ⟨h, List.all_eq_true.mpr fun c hc ↦
    decide_eq_true (Helper.hexEncode_ne_nul bytes c hc)⟩

/-- The first row that satisfies a predicate is the inserted one, if no row did before. -/
private theorem find?_inserted {ρ : Type} {key : ρ → Uuid} {t t' : Relational.Table key} {a : ρ}
    (h : t.insert? a = some t') {p : ρ → Bool} (hold : ∀ r ∈ t, p r = false) (ha : p a = true) :
    t'.rows.find? p = some a := by
  obtain ⟨-, hrows⟩ := (t.insert?_eq_some_iff t' a).mp h
  have hnone : t.rows.find? p = none := List.find?_eq_none.mpr fun r hr ↦ by simp [hold r hr]
  rw [hrows, List.find?_append, hnone]
  simp [ha]

/-- With the four rows of a registration inserted, the user has signed up. -/
private theorem signedUp_of_rows {w' : World} {hash : String} {user : User} {account : Account}
    {org : Organization} {m : Membership} {users : Relational.Table User.id}
    {accounts : Relational.Table Account.id} {organizations : Relational.Table Organization.id}
    {memberships : Relational.Table Membership.id} {res : Response} (henv : Bcrypt env)
    (hsign : Signs env) (hm : Minted w.db w.issued) (htext : textOk req.email = true)
    (hnew : ∀ u ∈ w.db.users, u.email ≠ req.email) {salt : List UInt8}
    (hhash : env.bcryptHash salt req.password = some hash)
    (hu : w.db.users.insert? user = some users) (hemail : user.email = req.email)
    (hfresh : user.id ∉ w.issued) (ha : w.db.accounts.insert? account = some accounts)
    (hauser : account.userID = user.id) (hahash : account.passwordHash = some hash)
    (ho : w.db.organizations.insert? org = some organizations) (hofresh : org.id ∉ w.issued)
    (hins : w.db.memberships.insert? m = some memberships) (hmuser : m.userID = user.id)
    (hmorg : m.orgID = org.id) (hrole : m.role = .admin) (hcode : res.code = 201)
    (hd : w'.db = { w.db with
      users := users
      accounts := accounts
      organizations := organizations
      memberships := memberships }) : SignedUp env i req w.db (.ok res) w' where
  answer := ⟨res, rfl, hcode⟩
  login := by
    have hmatches : env.bcryptMatches hash req.password = true := henv.matched _ _ _ hhash
    refine @logsIn_of_found env i w' _ _ hash user account hsign htext ?_ ?_ hahash hmatches
    · rw [hd]
      exact find?_inserted hu (fun u hmem ↦ decide_eq_false (hnew u hmem)) (decide_eq_true hemail)
    · rw [hd]
      refine find?_inserted ha (fun a hmem ↦ decide_eq_false fun he ↦ hfresh ?_)
        (decide_eq_true hauser)
      rw [← he]
      exact (hm.accounts a hmem).2
  admin := by
    rw [hd]
    refine ⟨user, (Relational.Table.mem_of_insert? hu user).mpr (.inr rfl), hemail, org,
      (Relational.Table.mem_of_insert? ho org).mpr (.inr rfl), fun o hmem he ↦ hofresh ?_, m,
      (Relational.Table.mem_of_insert? hins m).mpr (.inr rfl), hmuser, hmorg, hrole⟩
    rw [← he]
    exact hm.organizations o hmem

theorem register_signs_up (henv : Bcrypt env) (hsign : Signs env) (hm : Minted w.db w.issued)
    (hreq : decodeAndValidate RegisterRequest.fields (RegisterRequest.errors env) r.body = .ok req)
    (htext : ∀ s ∈ [req.email, req.firstName, req.lastName], textOk s = true)
    (hlen : req.password.utf8ByteSize ≤ 72) (huser : ∀ u ∈ w.db.users, u.email ≠ req.email)
    (haccount : ∀ a ∈ w.db.accounts, a.providerAccountID ≠ req.email) :
    (register env r).run.wp (noFault env i) (fun x w' ↦ SignedUp env i req w.db x w' ↔
      ∀ o ∈ w.db.organizations, o.slug ≠ workspaceSlug env req) w := by
  have hemailText : textOk req.email = true := htext _ (by simp)
  have hfirstText : textOk req.firstName = true := htext _ (by simp)
  unfold register
  rw [wp_check_bind, hreq]
  refine ⟨fun req' h ↦ ?_, fun e he ↦ nomatch he⟩
  cases h
  rw [wp_random_bind]
  refine ⟨fun salt w₀ h₀ ↦ ?_, fun e w₀ h₀ ↦ ?_⟩
  · obtain ⟨-, -, hd₀, hi₀⟩ := World.Exec.rand_faultless h₀
    obtain ⟨hash, hhash⟩ := henv.hashes salt req.password hlen
    rw [hhash]
    rw [← hd₀] at huser haccount ⊢
    rw [← hd₀, ← hi₀] at hm
    have hmem {u : User} {users : Relational.Table User.id}
        (hu : w₀.db.users.insert? u = some users) : u ∈ users :=
      (Relational.Table.mem_of_insert? hu u).mpr (.inr rfl)
    -- the user
    rw [wp_query_bind]
    have hcreate {y : Except Err User} {w₁ : World}
        (h₁ : noFault env i (.sql (.userCreate (newUser req))) w₀ y w₁) :=
      user_created hm (by simpa [newUser] using htext) huser h₁
    refine ⟨fun user w₁ h₁ ↦ ?_, fun e w₁ h₁ ↦ by obtain ⟨_, _, hy, -⟩ := hcreate h₁; cases hy⟩
    obtain ⟨_, users, hy, hemail, hfirst, hfresh, hu, hd₁⟩ := hcreate h₁
    cases hy
    have hm₁ := minted_step hm h₁
    have hi₁ : w₀.issued ⊆ w₁.issued := World.Exec.issued_subset h₁
    -- the account
    rw [wp_query_bind]
    have hatext : ∀ s ∈ [(newAccount user hash).provider, (newAccount user hash).providerAccountID] ++
        (newAccount user hash).passwordHash.toList, textOk s = true := by
      simp [newAccount, hemail, newUser, hemailText, henv.text _ _ _ hhash]
      decide
    have hname : ∀ a ∈ w₁.db.accounts,
        a.providerAccountID ≠ (newAccount user hash).providerAccountID := by
      rw [hd₁]
      simpa [newAccount, hemail, newUser] using haccount
    have huser₁ : user ∈ w₁.db.users := by
      rw [hd₁]
      exact hmem hu
    have hcreate {y : Except Err Account} {w₂ : World}
        (h₂ : noFault env i (.sql (.accountCreate (newAccount user hash))) w₁ y w₂) :=
      account_created hm₁ hatext hname huser₁ rfl h₂
    refine ⟨fun account w₂ h₂ ↦ ?_, fun e w₂ h₂ ↦ by obtain ⟨_, _, hy, -⟩ := hcreate h₂; cases hy⟩
    obtain ⟨_, accounts, hy, haUser, hahash, ha, hd₂⟩ := hcreate h₂
    cases hy
    have hm₂ := minted_step hm₁ h₂
    rw [hd₁] at ha hd₂
    -- the organization
    rw [wp_random_bind]
    refine ⟨fun bytes w₃ h₃ ↦ ?_, fun e w₃ h₃ ↦ by
      obtain ⟨_, hy, -⟩ := World.Exec.rand_faultless h₃
      cases hy⟩
    obtain ⟨-, -, hd₃, hi₃⟩ := World.Exec.rand_faultless h₃
    rw [← hd₃, ← hi₃] at hm₂
    rw [hd₂] at hd₃
    rw [wp_query_bind]
    generalize hnew : newOrganization env (user.firstName ++ "'s Workspace")
      (Helper.randomText "whsec_" bytes) = new
    have hslug : new.slug = workspaceSlug env req := by
      rw [← hnew, newOrganization, hfirst]
      rfl
    have hotext : ∀ s ∈ [new.name, new.slug, new.signingSecret], textOk s = true := by
      have hname : textOk (newUser req).firstName = true := hfirstText
      simp only [List.forall_mem_cons, hslug]
      rw [← hnew]
      exact ⟨textOk_append.mpr ⟨hfirst ▸ hname, by decide⟩, textOk_slugify env _,
        textOk_randomText (by decide) bytes, by simp⟩
    have hcreate {y : Except Err Organization} {w₄ : World}
        (h₄ : noFault env i (.sql (.organizationCreate new)) w₃ y w₄) :=
      organization_created hm₂ hotext h₄
    rw [hslug, hd₃] at hcreate
    refine ⟨fun org w₄ h₄ ↦ ?_, fun e w₄ h₄ ↦ ?_⟩
    · rcases hcreate h₄ with ⟨hfree, _, organizations, hy, hofresh, ho, hd₄⟩ | ⟨-, _, hy⟩
      · cases hy
        have hm₄ := minted_step hm₂ h₄
        -- the membership
        rw [wp_query_bind]
        have hmnew : ∀ m ∈ w₄.db.memberships,
            m.userID ≠ (newMembership user.id org.id .admin).userID := by
          rw [hd₄]
          intro m hmem he
          refine hfresh ?_
          rw [show user.id = m.userID from he.symm]
          exact (hm.memberships m hmem).2
        have huser₄ : user ∈ w₄.db.users := by
          rw [hd₄]
          exact hmem hu
        have horg₄ : org ∈ w₄.db.organizations := by
          rw [hd₄]
          exact (Relational.Table.mem_of_insert? ho org).mpr (.inr rfl)
        have hcreate {y : Except Err Membership} {w₅ : World} (h₅ : noFault env i
            (.sql (.membershipCreate (newMembership user.id org.id .admin))) w₄ y w₅) :=
          membership_created hm₄ hmnew huser₄ rfl horg₄ rfl h₅
        refine ⟨fun m w₅ h₅ ↦ ?_, fun e w₅ h₅ ↦ by obtain ⟨_, _, hy, -⟩ := hcreate h₅; cases hy⟩
        obtain ⟨_, memberships, hy, hmuser, hmorg, hrole, hins, hd₅⟩ := hcreate h₅
        cases hy
        rw [hd₄] at hins hd₅
        refine iff_of_true ?_ hfree
        have hissued : w₀.issued ⊆ w₃.issued := by
          rw [hi₃]
          exact List.Subset.trans hi₁ (World.Exec.issued_subset h₂)
        exact signedUp_of_rows henv hsign hm hemailText huser hhash hu hemail hfresh ha haUser
          hahash ho (fun hmem ↦ hofresh (hissued hmem)) hins hmuser hmorg hrole rfl hd₅
      · cases hy
    · rcases hcreate h₄ with ⟨-, _, _, hy, -⟩ | ⟨⟨o, ho, htaken⟩, -⟩
      · cases hy
      · refine iff_of_false (fun hs ↦ ?_) fun hfree ↦ hfree o ho htaken
        obtain ⟨res, hx, -⟩ := hs.answer
        cases hx
  · obtain ⟨_, hy, -⟩ := World.Exec.rand_faultless h₀
    cases hy

/-- A registration that passes validation, with an address that nobody has, succeeds exactly when no
organization has the slug of its workspace. -/
theorem signs_up_iff {sent : Nat → Route × Request} {now : Time} {c : Config Proc World Op Op.Res}
    {x : Except Fault Response} {w' : World} (henv : Bcrypt env) (hsign : Signs env)
    (h : (system env sent anyStep).Reachable (World.start now) c)
    (hreq : decodeAndValidate RegisterRequest.fields (RegisterRequest.errors env) r.body = .ok req)
    (htext : ∀ s ∈ [req.email, req.firstName, req.lastName], textOk s = true)
    (hlen : req.password.utf8ByteSize ≤ 72) (huser : ∀ u ∈ c.state.db.users, u.email ≠ req.email)
    (haccount : ∀ a ∈ c.state.db.accounts, a.providerAccountID ≠ req.email)
    (hrun : (register env r).run.Runs (noFault env i) c.state x w') :
    SignedUp env i req c.state.db x w' ↔
      ∀ o ∈ c.state.db.organizations, o.slug ≠ workspaceSlug env req :=
  hrun.post (register_signs_up henv hsign (minted h) hreq htext hlen huser haccount)

end Register

/-! ### A sample -/

/-- The platform of the other samples with a hash that is a text. -/
def hashingEnv : Env :=
  let digest (password : String) : String :=
    Helper.hexEncode (password.toList.map fun c ↦ UInt8.ofNat c.toNat)
  { sampleEnv with
    bcryptHash := fun _ password ↦
      if password.utf8ByteSize ≤ 72 then some (digest password) else none
    bcryptMatches := fun hash password ↦ hash = digest password }

theorem hashingEnv_bcrypt : Bcrypt hashingEnv where
  hashes _ password hlen := ⟨_, if_pos hlen⟩
  text _ password hash h := by
    obtain ⟨-, he⟩ := Option.ite_none_right_eq_some.mp h
    cases he
    exact List.all_eq_true.mpr fun c hc ↦ decide_eq_true (Helper.hexEncode_ne_nul _ c hc)
  matched _ password hash h := by
    obtain ⟨-, he⟩ := Option.ite_none_right_eq_some.mp h
    cases he
    exact decide_eq_true rfl

attribute [local irreducible] register in
/-- The first Ann signs up. -/
theorem signs_up_sample :
    ∃ x w', SignedUp hashingEnv (.client 0) ⟨"ann@a.io", "password", "Ann", ""⟩
      (World.start 0).db x w' := by
  have hplay : ((register hashingEnv (sampleSent 0).2).run.play
      (fun ch ↦ World.step hashingEnv.toPlatform (.client 0) { ch with fail := false })
      ((sampleTurns 0 [0, 1, 2, 0, 3, 4]).map Prod.snd) (World.start 0)).isSome = true := by
    decide +kernel
  obtain ⟨⟨x, w'⟩, hplay⟩ := Option.isSome_iff_exists.mp hplay
  have hreq : decodeAndValidate RegisterRequest.fields (RegisterRequest.errors hashingEnv)
      (sampleSent 0).2.body = .ok ⟨"ann@a.io", "password", "Ann", ""⟩ :=
    decodeAndValidate_ok.mpr (by decide +kernel)
  have hstart : (system hashingEnv sampleSent anyStep).Reachable (World.start 0)
      ((system hashingEnv sampleSent anyStep).init (World.start 0)) := .refl
  refine ⟨x, w', (signs_up_iff hashingEnv_bcrypt (fun subject _ ↦ ⟨subject, rfl⟩) hstart hreq (by decide)
    (by decide +kernel) (fun u hu ↦ nomatch hu) (fun a ha ↦ nomatch ha) (World.runs_of_play hplay)).mpr
    fun o ho ↦ nomatch ho⟩

attribute [local irreducible] register in
/-- The second Ann does not, though nobody has her address. -/
theorem sign_up_refused :
    ∃ c req fault w', (system sampleEnv sampleSent anyStep).Reachable (World.start 0) c ∧
      decodeAndValidate RegisterRequest.fields (RegisterRequest.errors sampleEnv) secondAnn.body =
        .ok req ∧
      (∀ u ∈ c.state.db.users, u.email ≠ req.email) ∧
      (∀ a ∈ c.state.db.accounts, a.providerAccountID ≠ req.email) ∧
      req.password.utf8ByteSize ≤ 72 ∧
      (register sampleEnv secondAnn).run.Runs (noFault sampleEnv (.client 1)) c.state
        (.error fault) w' ∧
      ¬ SignedUp sampleEnv (.client 1) req c.state.db (.error fault) w' := by
  obtain ⟨c, fault, w', h, hruns, hbefore, -⟩ := second_ann
  have hreq : decodeAndValidate RegisterRequest.fields (RegisterRequest.errors sampleEnv)
      secondAnn.body = .ok ⟨"ann@b.io", "password", "ANN!", ""⟩ :=
    decodeAndValidate_ok.mpr (by decide +kernel)
  simp only [sampleAccounts, List.cons.injEq] at hbefore
  obtain ⟨husers, haccounts, -⟩ := hbefore
  refine ⟨c, _, fault, w', h, hreq, fun u hu he ↦ ?_, fun a ha he ↦ ?_, by decide +kernel, hruns,
    fun hs ↦ ?_⟩
  · have hmem := List.mem_map_of_mem (f := User.email) hu
    rw [husers, he] at hmem
    exact absurd hmem (by decide)
  · have hmem := List.mem_map_of_mem (f := Account.providerAccountID) ha
    rw [haccounts, he] at hmem
    exact absurd hmem (by decide)
  · obtain ⟨res, hx, -⟩ := hs.answer
    cases hx

end Chis.Accounts
