import Chis.Access.Authentication
import Chis.Api.Footprint

/-!
# Whom a session belongs to

A token is handed out by a login, to somebody who has given a password that matches the hash of an
account. The account was created by a registration, together with the user, of the password that was
given there.
-/

namespace Chis.Access

open Program Api Relation

/-! ### What a registration and a login know -/

/-- The body of a registration. -/
def Registers (env : Env) (r : Request) (req : RegisterRequest) : Prop :=
  decodeAndValidate RegisterRequest.fields (RegisterRequest.errors env) r.body = .ok req

/-- The body of a login. -/
def LogsInWith (env : Env) (r : Request) (req : LoginRequest) : Prop :=
  decodeAndValidate LoginRequest.fields (LoginRequest.errors env) r.body = .ok req

/-- The registration has created the user, and `hash` is one of its password. -/
structure Enrolled (env : Env) (route : Route) (r : Request) (past : List (Event Op.Res))
    (user : User) (hash : String) : Prop where
  route : route = .register
  body : ∃ req salt, Registers env r req ∧ env.bcryptHash salt req.password = some hash ∧
    (Stmt.userCreate (newUser req)).returned user ∈ past

/-- The login has found the account of a user by the address, and its password matches. -/
structure Matched (env : Env) (route : Route) (r : Request) (past : List (Event Op.Res))
    (user : User) (account : Account) : Prop where
  route : route = .login
  found : (Stmt.accountFindByUserID user.id).returned account ∈ past
  body : ∃ req hash, LogsInWith env r req ∧ (Stmt.userFindByEmail req.email).returned user ∈ past ∧
    account.passwordHash = some hash ∧ env.bcryptMatches hash req.password = true

/-- An account is created for the user of its registration, and a token is handed out for the user of
a login. -/
def Vouched (env : Env) (route : Route) (r : Request) (past : List (Event Op.Res)) : Op → Prop
  | .sql (.accountCreate account) => ∃ user hash, Enrolled env route r past user hash ∧
    account.userID = user.id ∧ account.passwordHash = some hash
  | .respond res => ∀ token, HandsOut res token → ∃ user account t,
    Matched env route r past user account ∧ Op.sawTime t ∈ past ∧
      env.jwtSign user.id.toString (t / 1000000 + 48 * 3600) = some token
  | _ => True

section Handlers

variable {env : Env} {route : Route} {r : Request} {past : List (Event Op.Res)}

/-- What a handler's answer may hand out. -/
def Backed (env : Env) (route : Route) (r : Request) (past : List (Event Op.Res)) (res : Response) :
    Prop := Vouched env route r past (.respond res)

attribute [local simp] Vouched Backed HandsOut writeJSON message

private theorem register_vouched :
    Tells (Vouched env .register r) (Backed env .register r) (register env r) past := by
  unfold register
  simp only [tells_check_bind, tells_random_bind]
  refine fun req hreq ↦ ⟨by simp, fun salt ↦ ?_⟩
  split
  · next hash hhash =>
    simp only [tells_query_bind]
    refine ⟨by simp, fun (user : User) ↦ ⟨?_, fun _ ↦ by simp⟩⟩
    exact ⟨user, hash, ⟨rfl, req, salt, hreq, hhash, List.mem_cons_self⟩, rfl, rfl⟩
  · simp

private theorem login_vouched :
    Tells (Vouched env .login r) (Backed env .login r) (login env r) past := by
  unfold login
  simp only [tells_check_bind, tells_query_bind]
  refine fun req hreq ↦ ⟨by simp, fun (user : User) ↦ ⟨by simp, fun (account : Account) ↦ ?_⟩⟩
  cases hhash : account.passwordHash with
  | none => exact ⟨by simp, fun e ↦ (e : Empty).elim⟩
  | some hash =>
    rw [tells_ite]
    refine ⟨fun _ ↦ tells_fail_bind _ _, fun hmatches ↦ ?_⟩
    rw [tells_clock_bind]
    refine ⟨by simp, fun t ↦ ?_⟩
    split
    · simp
    · next token htoken =>
      rw [tells_pure]
      rintro token' ⟨members, hbody, hmem⟩
      cases hbody
      cases List.mem_singleton.mp hmem
      refine ⟨user, account, t, ⟨rfl, by simp, req, hash, hreq, by simp, hhash, ?_⟩, by simp, htoken⟩
      simpa using hmatches

private theorem wrap_vouched {h : Handler Response}
    (hh : Tells (Vouched env route r) (Backed env route r) h past) :
    (wrap r h).Traces (Vouched env route r) (Backed env route r) past := by
  apply traces_wrap (fun _ ↦ trivial) (fun fault now past ↦ ?_) hh
  intro token htoken
  simp [AppError.body] at htoken

/-- Every request keeps to that. -/
theorem serve_vouched : (serve env route r).Traces (Vouched env route r) (fun _ _ ↦ True) past := by
  have hserve (h : (handle env r route).Traces (Vouched env route r) (Backed env route r) past) :
      (serve env route r).Traces (Vouched env route r) (fun _ _ ↦ True) past := by
    unfold serve
    rw [Prog.monad_bind, Prog.traces_bind]
    exact h.mono (fun _ _ h ↦ h) fun past res hres ↦ ⟨hres, fun _ ↦ trivial⟩
  by_cases hroute : route = .register ∨ route = .login
  · apply hserve
    rcases hroute with rfl | rfl
    · exact wrap_vouched register_vouched
    · exact wrap_vouched login_vouched
  · rw [not_or] at hroute
    apply serve_spared.mono (fun past o h ↦ ?_) fun _ _ h ↦ h
    cases o with
    | sql s =>
      cases s with
      | accountCreate => exact absurd (h.2.1 _ rfl) hroute.1
      | _ => trivial
    | respond res => exact fun token htoken ↦ absurd (h.2.2 res rfl token htoken) hroute.2
    | _ => trivial

end Handlers

/-! ### Accounts -/

/-- An account is in the table after a statement if it was there before or has just been created. -/
theorem account_inserted {env : Platform} {ch : Choice} {db db' : Db} {s : Stmt} {r : Except Err s.Ok}
    (hx : s.exec env ch db = (r, db')) {account : Account} (ha : account ∈ db'.accounts) :
    account ∈ db.accounts ∨ ∃ account₀,
      (⟨.sql s, r⟩ : Event Op.Res) = (Stmt.accountCreate account₀).returned account ∧
        account.userID = account₀.userID ∧ account.passwordHash = account₀.passwordHash := by
  by_cases hcreate : ∃ account₀, s = .accountCreate account₀
  · obtain ⟨account₀, rfl⟩ := hcreate
    rcases Stmt.write_inv hx with ⟨a, rfl, hc⟩ | ⟨e, -, -, rfl⟩
    · obtain ⟨rfl, accounts, hins, rfl⟩ := AccountRepository.create_ok hc
      rcases (Relational.Table.mem_of_insert? hins account).mp ha with hold | rfl
      · exact .inl hold
      · exact .inr ⟨account₀, rfl, rfl, rfl⟩
    · exact .inl ha
  · left
    have hc := Stmt.exec_change env ch db s
    rw [hx] at hc
    cases hc with
    | accountCreate => exact absurd ⟨_, rfl⟩ hcreate
    | messageUpdateStatus hu =>
      obtain ⟨_, rfl⟩ := MessageRepository.updateStatus_ok hu
      exact ha
    | _ => exact ha

/-! ### Runs -/

/-- What each process promises. -/
def voucher (env : Env) (sent : Nat → Route × Request) : Proc → List (Event Op.Res) → Op → Prop
  | .client n => Vouched env (sent n).1 (sent n).2
  | _ => fun _ o ↦ background o = true

/-- Tokens expire. -/
def Expires (env : Env) : Prop := ∀ subject expiry token t s, env.jwtSign subject expiry = some token →
  env.jwtSubject t token = some s → s = subject ∧ t < expiry * 1000000

/-- Whoever presents a token that is valid has got it from a response. -/
def Unforged (env : Env) (sent : Nat → Route × Request) (w : World) : Prop :=
  ∀ n token t, bearerToken (sent n).2.authorization = some token →
    Op.sawTime t ∈ w.past (.client n) → env.jwtSubject t token ≠ none →
      ∃ k res, Op.sent res ∈ w.past (.client k) ∧ HandsOut res token

/-- A user was created by registration `j`. Login `k`, under its address and with a password that
matches a hash of its password, was answered with the token; it had seen the time `t`. -/
structure Opened (env : Env) (sent : Nat → Route × Request) (w : World) (j k : Nat) (user : User)
    (token : String) (t : Time) : Prop where
  register : (sent j).1 = .register
  created : ∃ user₀, (Stmt.userCreate user₀).returned user ∈ w.past (.client j)
  login : (sent k).1 = .login
  answered : ∃ res, Op.sent res ∈ w.past (.client k) ∧ HandsOut res token
  time : Op.sawTime t ∈ w.past (.client k)
  password : ∃ registered given salt hash, Registers env (sent j).2 registered ∧
    LogsInWith env (sent k).2 given ∧ given.email = registered.email ∧
      env.bcryptHash salt registered.password = some hash ∧
        env.bcryptMatches hash given.password = true

section Run

variable {env : Env} {sent : Nat → Route × Request} {G : World → Proc → Op → Prop} {now : Time}
  {c : Config Proc World Op Op.Res}

theorem vouched (h : (system env sent G).Reachable (World.start now) c) (i : Proc) :
    Valid (voucher env sent i) (c.state.past i) := by
  apply (system_records env sent G).valid (fun _ ↦ rfl) ?_ h i
  rintro (n | _ | n) past hp
  · exact Prog.Traces.of_uses (fun _ _ h ↦ h) (fun _ _ ↦ trivial) (iteration_uses _) past
  · exact Prog.Traces.of_uses (fun _ _ h ↦ h) (fun _ _ ↦ trivial) processRetries_uses past
  · exact serve_vouched

/-- An account goes back to the registration of its user. -/
theorem account_enrolled (h : (system env sent G).Reachable (World.start now) c) {account : Account}
    (ha : account ∈ c.state.db.accounts) : ∃ j user hash,
      Enrolled env (sent j).1 (sent j).2 (c.state.past (.client j)) user hash ∧
        account.userID = user.id ∧ account.passwordHash = some hash := by
  have hback : ∃ i, ∃ e ∈ c.state.past i, ∃ account₀,
      e = (Stmt.accountCreate account₀).returned account ∧ account.userID = account₀.userID ∧
        account.passwordHash = account₀.passwordHash := by
    apply World.goes_back (I := fun db account ↦ account ∈ db.accounts)
      (fun _ ha ↦ (List.not_mem_nil ha).elim) ?_ h ha
    intro s ch db r db' hx account ha
    rcases account_inserted hx ha with hold | hnew
    · exact .inl ⟨account, hold, fun _ h ↦ h⟩
    · exact .inr hnew
  obtain ⟨i, e, he, account₀, rfl, huser, hhash⟩ := hback
  obtain ⟨newer, older, hpast, hv⟩ := (vouched h i).justified he
  cases i with
  | worker n => cases hv
  | scheduler => cases hv
  | client j =>
    obtain ⟨user, hash, ⟨hroute, req, salt, hreq, hsalt, hcreated⟩, hid, hpw⟩ := hv
    refine ⟨j, user, hash, ⟨hroute, req, salt, hreq, hsalt, ?_⟩, huser.trans hid, hhash.trans hpw⟩
    rw [hpast]
    exact List.mem_append_right _ (List.mem_cons_of_mem _ hcreated)

/-- A user that has been created stays, with the address of its registration. -/
theorem enrolled_user (h : (system env sent G).Reachable (World.start now) c) {i : Proc}
    {user₀ user : User} (hcreated : (Stmt.userCreate user₀).returned user ∈ c.state.past i) :
    user ∈ c.state.db.users ∧ user.email = user₀.email := by
  obtain ⟨c₀, c₁, -, hx, -, hto⟩ := (system_records env sent G).happened (fun _ ↦ rfl) h hcreated
  obtain ⟨ch, hexec⟩ := exec_ok hx
  rcases Stmt.write_inv hexec with ⟨a, he, hc⟩ | ⟨e, he, -, -⟩
  · cases he
    obtain ⟨he, users, hins, hd⟩ := UserRepository.create_ok hc
    have hrow : user ∈ c₁.state.db.users := by
      rw [hd]
      exact (Relational.Table.mem_of_insert? hins user).mpr (.inr rfl)
    exact ⟨World.user_stays system_exec hto hrow, by rw [he]⟩
  · cases he

/-- A user that was found by an address stays, with that address. -/
theorem found_user (h : (system env sent G).Reachable (World.start now) c) {i : Proc} {email : String}
    {user : User} (hfound : (Stmt.userFindByEmail email).returned user ∈ c.state.past i) :
    user ∈ c.state.db.users ∧ user.email = email := by
  obtain ⟨c₀, ch, db', -, hto, hexec⟩ := returned_then h hfound
  obtain ⟨hrow, hemail⟩ := UserRepository.findByEmail_ok (Prod.mk.inj hexec).1
  exact ⟨World.user_stays system_exec hto hrow, hemail⟩

/-- If tokens expire and none is forged, then a request that is let through for a user presents a token
of a session of that user, which a login has opened less than 48 hours before with the address and
the password of the registration that created the user. -/
theorem let_through_opened (hexpires : Expires env)
    (h : (system env sent G).Reachable (World.start now) c) (hunforged : Unforged env sent c.state)
    {n : Nat} {token : String} {t : Time} {u : Uuid}
    (htoken : bearerToken (sent n).2.authorization = some token)
    (ht : Op.sawTime t ∈ c.state.past (.client n)) (hu : tokenUser env t token = some u) :
    ∃ j k user t₀, user ∈ c.state.db.users ∧ user.id = u ∧
      Opened env sent c.state j k user token t₀ ∧ t < t₀ + 48 * 3600 * 1000000 := by
  obtain ⟨subject, hsubject, hparse⟩ := Option.bind_eq_some_iff.mp hu
  obtain ⟨k, res, hres, hout⟩ := hunforged n token t htoken ht (by simp [hsubject])
  obtain ⟨newer, older, hpast, hv⟩ := (vouched h (.client k)).justified hres
  have hin {e : Event Op.Res} (he : e ∈ older) : e ∈ c.state.past (.client k) := by
    rw [hpast]
    exact List.mem_append_right _ (List.mem_cons_of_mem _ he)
  obtain ⟨user, account, t₀, hmatched, ht₀, hsign⟩ := hv token hout
  obtain ⟨given, hash, hgiven, huser, hhash, hmatches⟩ := hmatched.body
  -- The token is of the user that the login has found, and has not expired.
  obtain ⟨rfl, hlt⟩ := hexpires _ _ _ _ _ hsign hsubject
  rw [Uuid.parse_toString] at hparse
  obtain ⟨hrow, hemail⟩ := found_user h (hin huser)
  -- Its account goes back to a registration, of a user with the same id.
  obtain ⟨c₀, ch, db', h₀, hto, hexec⟩ := returned_then h (hin hmatched.found)
  have hfound := elim_ok.mp (Prod.mk.inj hexec).1
  have hid : account.userID = user.id := by simpa using List.find?_some hfound
  obtain ⟨j, user₁, hash₁, henrolled, hid₁, hhash₁⟩ :=
    account_enrolled h₀ (List.mem_of_find?_eq_some hfound)
  obtain ⟨registered, salt, hregistered, hsalt, hcreated⟩ := henrolled.body
  have hcreated' := (system_records env sent G).subset hto (.client j) hcreated
  obtain ⟨hrow₁, hemail₁⟩ := enrolled_user h hcreated'
  have hsame : user = user₁ := by
    apply c.state.db.users.eq_of_key hrow hrow₁
    rw [← hid, hid₁]
  subst hsame
  rw [hhash] at hhash₁
  cases hhash₁
  have htime : t < t₀ + 48 * 3600 * 1000000 := by
    have hfloor := Int.ediv_mul_le t₀ (show (1000000 : Int) ≠ 0 by decide)
    rw [Int.add_mul] at hlt
    exact lt_of_lt_of_le hlt (Int.add_le_add_right hfloor _)
  refine ⟨j, k, user, t₀, hrow, Option.some.inj hparse, ?_, htime⟩
  exact {
    register := henrolled.route
    created := ⟨_, hcreated'⟩
    login := hmatched.route
    answered := ⟨res, hres, hout⟩
    time := hin ht₀
    password := ⟨registered, given, salt, hash, hregistered, hgiven, hemail.symm.trans hemail₁, hsalt,
      hmatches⟩ }

end Run

/-! ### A sample -/

/-- A platform on which a token is the time at which it expires, before its subject. -/
def sessionEnv : Env :=
  { sampleEnv with
    jwtSign := fun subject expiry ↦
      if 0 ≤ expiry ∧ expiry < 2 ^ 128 then
        some (Uuid.toString ⟨Fin.ofNat _ expiry.toNat⟩ ++ subject) else none
    jwtSubject := fun t token ↦
      (Uuid.parse (String.ofList (token.toList.take 36))).bind fun expiry ↦
        if t < (expiry.toFin : Nat) * 1000000 then some (String.ofList (token.toList.drop 36))
        else none }

private theorem sessionEnv_expires : Expires sessionEnv := by
  intro subject expiry token t s hsign hsubject
  simp only [sessionEnv, Option.ite_none_right_eq_some, Option.some.injEq] at hsign
  obtain ⟨⟨hle, hlt⟩, rfl⟩ := hsign
  have hlen := Uuid.length_toString ⟨Fin.ofNat _ expiry.toNat⟩
  simp only [sessionEnv, String.toList_append, ← hlen, List.take_left, List.drop_left,
    String.ofList_toList, Uuid.parse_toString, Option.bind_some, Option.ite_none_right_eq_some,
    Option.some.injEq] at hsubject
  obtain ⟨ht, rfl⟩ := hsubject
  refine ⟨rfl, ?_⟩
  rw [Fin.val_ofNat, Nat.mod_eq_of_lt (by omega), Int.toNat_of_nonneg hle] at ht
  exact ht

/-- Ann registers and logs in, and a request presents her token. -/
def sampleSessions : Nat → Route × Request
  | 0 => (.register, { sampleRequestOf .nil .nil
      "\x7b\"email\":\"ann@a.io\",\"password\":\"password\",\"firstName\":\"Ann\"\x7d" with
      authorization := "" })
  | 1 => (.login, { sampleRequestOf .nil .nil
      "\x7b\"email\":\"ann@a.io\",\"password\":\"password\"\x7d" with authorization := "" })
  | _ => (.listOrgs, { sampleRequestOf .nil .nil "" with
      authorization := "Bearer " ++ (Uuid.toString ⟨172800⟩ ++ Uuid.toString ⟨1⟩) })

/-- The tokens that a client was answered with. -/
def sampleTokens (w : World) (i : Proc) : List String :=
  (w.past i).filterMap fun
    | ⟨.respond ⟨_, some (.obj [("token", .str token)])⟩, _⟩ => some token
    | _ => none

/-- When a client has looked at the clock. -/
def sampleTimes (w : World) (i : Proc) : List Time :=
  (w.past i).filterMap fun
    | ⟨.now, t⟩ => some t
    | _ => none

private theorem mem_sampleTokens {w : World} {i : Proc} {token : String}
    (h : token ∈ sampleTokens w i) : ∃ res, Op.sent res ∈ w.past i ∧ HandsOut res token := by
  obtain ⟨e, he, htoken⟩ := List.mem_filterMap.mp h
  split at htoken
  · next _ code _ _ =>
    cases htoken
    exact ⟨_, he, _, rfl, List.mem_singleton_self _⟩
  · cases htoken

private theorem sampleSessions_token {n : Nat} {token : String}
    (h : bearerToken (sampleSessions n).2.authorization = some token) :
    token = Uuid.toString ⟨172800⟩ ++ Uuid.toString ⟨1⟩ := by
  unfold sampleSessions at h
  split at h
  · cases h
  · cases h
  · have hbearer : bearerToken ("Bearer " ++ (Uuid.toString ⟨172800⟩ ++ Uuid.toString ⟨1⟩)) =
        some (Uuid.toString ⟨172800⟩ ++ Uuid.toString ⟨1⟩) := by
      decide +kernel
    exact Option.some.inj (h.symm.trans hbearer)

/-- Her request is let through for the user that her registration created. -/
theorem let_through_opened_sample : ∃ c,
    (system sessionEnv sampleSessions anyStep).Reachable (World.start 0) c ∧
      ∃ j k user t₀, user ∈ c.state.db.users ∧ user.id = ⟨1⟩ ∧
        Opened sessionEnv sampleSessions c.state j k user
          (Uuid.toString ⟨172800⟩ ++ Uuid.toString ⟨1⟩) t₀ ∧ 0 < t₀ + 48 * 3600 * 1000000 := by
  have hrun : (System.play (World.step sessionEnv.toPlatform)
      ((system sessionEnv sampleSessions anyStep).init (World.start 0))
      (sampleTurns 0 [0, 1, 2, 0, 3, 4, 0] ++ sampleTurns 1 [0, 0, 0, 0] ++ sampleTurns 2 [0])).map
        (fun c ↦ (sampleTokens c.state (.client 1), sampleTimes c.state (.client 2))) =
      some ([Uuid.toString ⟨172800⟩ ++ Uuid.toString ⟨1⟩], [0]) := by
    decide +kernel
  obtain ⟨c, hc, hseen⟩ := Option.map_eq_some_iff.mp hrun
  obtain ⟨htokens, htimes⟩ := Prod.mk.inj hseen
  have h : (system sessionEnv sampleSessions anyStep).Reachable (World.start 0) c := by
    refine System.play_steps ?_ hc
    intro i ch o w r w' hs
    exact ⟨trivial, ch, trivial, hs⟩
  have hhanded : ∃ res, Op.sent res ∈ c.state.past (.client 1) ∧
      HandsOut res (Uuid.toString ⟨172800⟩ ++ Uuid.toString ⟨1⟩) := by
    apply mem_sampleTokens
    rw [htokens]
    exact List.mem_singleton_self _
  have ht : Op.sawTime 0 ∈ c.state.past (.client 2) := by
    have hmem : (0 : Time) ∈ sampleTimes c.state (.client 2) := by
      rw [htimes]
      exact List.mem_singleton_self _
    obtain ⟨e, he, htime⟩ := List.mem_filterMap.mp hmem
    split at htime
    · cases htime
      exact he
    · cases htime
  refine ⟨c, h, let_through_opened sessionEnv_expires h ?_ (n := 2) ?_ ht ?_⟩
  · intro n token t htoken _ _
    rw [sampleSessions_token htoken]
    exact ⟨1, hhanded⟩
  · decide +kernel
  · decide +kernel

end Chis.Access
