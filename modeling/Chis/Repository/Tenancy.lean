import Chis.Repository.Query

/-!
# Users, organizations, memberships, API keys and invitations

The remaining repositories of `internal/repository`, one SQL statement a function. Deleting an
organization deletes what references it, by the `ON DELETE CASCADE` of the migrations.
-/

namespace Chis

/-- A `UNIQUE` constraint on some columns of the rows already there. -/
def unique {ρ : Type} (rows : List ρ) (taken : ρ → Bool) : Except Err Unit :=
  if rows.any taken then .error (.pg Sqlstate.uniqueViolation) else .ok ()

theorem unique_eq {ρ : Type} {rows : List ρ} {taken : ρ → Bool} (h : ∀ r ∈ rows, taken r = false) :
    unique rows taken = .ok () := by
  rw [unique, if_neg]
  simpa using h

theorem unique_ok {ρ : Type} {rows : List ρ} {taken : ρ → Bool} {u : Unit}
    (h : unique rows taken = .ok u) : ∀ r ∈ rows, taken r = false := by
  unfold unique at h
  split at h
  · cases h
  · next hn => simpa using hn

theorem unique_error {ρ : Type} {rows : List ρ} {taken : ρ → Bool} {e : Err}
    (h : unique rows taken = .error e) : e = .pg Sqlstate.uniqueViolation := by
  unfold unique at h
  split at h
  · exact (Except.error.inj h).symm
  · cases h

namespace UserRepository

/-- `INSERT INTO users`; `user.go:22`. -/
def create (id : Uuid) (now : Time) (user : User) (db : Db) : Except Err (User × Db) := do
  checkText (user.email :: user.firstName :: user.lastName.toList)
  let row := { user with id := id, createdAt := now, updatedAt := now }
  let users ← insertRow db.users row
  unique db.users.rows fun u ↦ u.email = user.email
  return (row, { db with users := users })

/-- A user enters its table and nothing else changes. -/
theorem create_ok {id : Uuid} {now : Time} {user a : User} {db db' : Db}
    (h : create id now user db = .ok (a, db')) :
    a = { user with id := id, createdAt := now, updatedAt := now } ∧
      ∃ users, db.users.insert? a = some users ∧ db' = { db with users := users } := by
  simp only [create, except_bind_ok] at h
  obtain ⟨-, -, users, hu, -, -, h⟩ := h
  cases h
  exact ⟨rfl, users, insertRow_ok hu, rfl⟩

theorem create_text {id : Uuid} {now : Time} {user a : User} {db db' : Db}
    (h : create id now user db = .ok (a, db')) :
    ∀ s ∈ user.email :: user.firstName :: user.lastName.toList, textOk s = true := by
  simp only [create, except_bind_ok] at h
  obtain ⟨_, ht, -⟩ := h
  exact checkText_ok ht

theorem create_error {id : Uuid} {now : Time} {user : User} {db : Db} {e : Err}
    (h : create id now user db = .error e) :
    Refused (user.email :: user.firstName :: user.lastName.toList) e := by
  simp only [create, except_bind_error] at h
  rcases h with h | ⟨_, ht, h | ⟨_, -, h | ⟨_, -, h⟩⟩⟩
  · exact checkText_error h
  · exact insertRow_error h ▸ .unique (checkText_ok ht)
  · exact unique_error h ▸ .unique (checkText_ok ht)
  · cases h

/-- A user that is inserted has an email address of its own. -/
theorem create_email {id : Uuid} {now : Time} {user a : User} {db db' : Db}
    (h : create id now user db = .ok (a, db')) : ∀ u ∈ db.users, u.email ≠ user.email := by
  simp only [create, except_bind_ok] at h
  obtain ⟨-, -, -, -, _, hu, -⟩ := h
  exact fun u hmem ↦ of_decide_eq_false (unique_ok hu u hmem)

/-- A new email address can be registered. -/
theorem create_eq {id : Uuid} {now : Time} {user : User} {db : Db}
    (htext : ∀ s ∈ user.email :: user.firstName :: user.lastName.toList, textOk s = true)
    (hid : ∀ u ∈ db.users, u.id ≠ id) (hemail : ∀ u ∈ db.users, u.email ≠ user.email) :
    ∃ x, create id now user db = .ok x := by
  obtain ⟨users, hu⟩ := insertRow_eq (t := db.users)
    (r := { user with id := id, createdAt := now, updatedAt := now }) hid
  have hunique := unique_eq fun u hmem ↦ decide_eq_false (hemail u hmem)
  exact ⟨_, except_bind_ok.mpr ⟨_, checkText_eq htext,
    except_bind_ok.mpr ⟨_, hu, except_bind_ok.mpr ⟨_, hunique, rfl⟩⟩⟩⟩

/-- `SELECT ... FROM users WHERE email = $1`; `user.go:38`. -/
def findByEmail (email : String) (db : Db) : Except Err User := do
  checkText [email]
  (db.users.rows.find? fun u ↦ u.email = email).elim (.error .notFound) .ok

theorem findByEmail_ok {email : String} {db : Db} {user : User}
    (h : findByEmail email db = .ok user) : user ∈ db.users ∧ user.email = email := by
  rw [findByEmail, except_bind_ok] at h
  obtain ⟨-, -, h⟩ := h
  have hf := elim_ok.mp h
  exact ⟨List.mem_of_find?_eq_some hf, by simpa using List.find?_some hf⟩

theorem findByEmail_text {email : String} {db : Db} {user : User}
    (h : findByEmail email db = .ok user) : textOk email = true := by
  rw [findByEmail, except_bind_ok] at h
  obtain ⟨_, htext, -⟩ := h
  exact checkText_ok htext email List.mem_cons_self

/-- `SELECT ... FROM users WHERE id = $1`; `user.go:66`. -/
def findByID (id : Uuid) (db : Db) : Except Err User :=
  (db.users.find? id).elim (.error .notFound) .ok

end UserRepository

namespace AccountRepository

/-- `INSERT INTO accounts`; `account.go:23`. -/
def create (id : Uuid) (now : Time) (account : Account) (db : Db) : Except Err (Account × Db) := do
  checkText ([account.provider, account.providerAccountID] ++ account.passwordHash.toList)
  let row := { account with id := id, createdAt := now, updatedAt := now }
  let accounts ← insertRow db.accounts row
  unique db.accounts.rows fun a ↦
    a.provider = account.provider && a.providerAccountID = account.providerAccountID
  references db.users account.userID
  return (row, { db with accounts := accounts })

/-- An account enters its table and nothing else changes. -/
theorem create_ok {id : Uuid} {now : Time} {account a : Account} {db db' : Db}
    (h : create id now account db = .ok (a, db')) :
    a = { account with id := id, createdAt := now, updatedAt := now } ∧
      ∃ accounts, db.accounts.insert? a = some accounts ∧
        db' = { db with accounts := accounts } := by
  simp only [create, except_bind_ok] at h
  obtain ⟨-, -, accounts, ha, -, -, -, -, h⟩ := h
  cases h
  exact ⟨rfl, accounts, insertRow_ok ha, rfl⟩

theorem create_error {id : Uuid} {now : Time} {account : Account} {db : Db} {e : Err}
    (h : create id now account db = .error e) :
    Refused ([account.provider, account.providerAccountID] ++ account.passwordHash.toList) e := by
  simp only [create, except_bind_error] at h
  rcases h with h | ⟨_, ht, h | ⟨_, -, h | ⟨_, -, h | ⟨_, -, h⟩⟩⟩⟩
  · exact checkText_error h
  · exact insertRow_error h ▸ .unique (checkText_ok ht)
  · exact unique_error h ▸ .unique (checkText_ok ht)
  · exact references_error h ▸ .foreignKey (checkText_ok ht)
  · cases h

/-- A new account name can be registered for a user. -/
theorem create_eq {id : Uuid} {now : Time} {account : Account} {db : Db} {user : User}
    (htext : ∀ s ∈ [account.provider, account.providerAccountID] ++ account.passwordHash.toList,
      textOk s = true)
    (hid : ∀ a ∈ db.accounts, a.id ≠ id)
    (hname : ∀ a ∈ db.accounts, a.providerAccountID ≠ account.providerAccountID)
    (huser : user ∈ db.users) (hu : account.userID = user.id) :
    ∃ x, create id now account db = .ok x := by
  obtain ⟨accounts, ha⟩ := insertRow_eq (t := db.accounts)
    (r := { account with id := id, createdAt := now, updatedAt := now }) hid
  have hunique : unique db.accounts.rows (fun a ↦ a.provider = account.provider &&
      a.providerAccountID = account.providerAccountID) = .ok () :=
    unique_eq fun a hmem ↦ by simp [hname a hmem]
  have href : references db.users account.userID = .ok () := hu ▸ references_eq huser
  exact ⟨_, except_bind_ok.mpr ⟨_, checkText_eq htext, except_bind_ok.mpr ⟨_, ha,
    except_bind_ok.mpr ⟨_, hunique, except_bind_ok.mpr ⟨_, href, rfl⟩⟩⟩⟩⟩

/-- An account is one of a user there is. -/
theorem create_user {id : Uuid} {now : Time} {account a : Account} {db db' : Db}
    (h : create id now account db = .ok (a, db')) : ∃ u ∈ db.users, u.id = account.userID := by
  simp only [create, except_bind_ok] at h
  obtain ⟨-, -, -, -, -, -, _, hr, -⟩ := h
  obtain ⟨u, hu⟩ := references_ok hr
  exact ⟨u, (db.users.find?_eq_some_iff _ _).mp hu⟩

/-- `SELECT ... FROM accounts WHERE user_id = $1`, its first row; `account.go:38`. -/
def findByUserID (userID : Uuid) (db : Db) : Except Err Account :=
  (db.accounts.rows.find? fun a ↦ a.userID = userID).elim (.error .notFound) .ok

end AccountRepository

namespace OrganizationRepository

/-- `INSERT INTO organizations`; `organization.go:22`. -/
def create (id : Uuid) (now : Time) (organization : Organization) (db : Db) :
    Except Err (Organization × Db) := do
  checkText [organization.name, organization.slug, organization.signingSecret]
  let row := { organization with id := id, createdAt := now, updatedAt := now }
  let organizations ← insertRow db.organizations row
  unique db.organizations.rows fun o ↦ o.slug = organization.slug
  return (row, { db with organizations := organizations })

/-- An organization enters its table and nothing else changes. -/
theorem create_ok {id : Uuid} {now : Time} {organization a : Organization} {db db' : Db}
    (h : create id now organization db = .ok (a, db')) :
    a = { organization with id := id, createdAt := now, updatedAt := now } ∧
      ∃ organizations, db.organizations.insert? a = some organizations ∧
        db' = { db with organizations := organizations } := by
  simp only [create, except_bind_ok] at h
  obtain ⟨-, -, organizations, ho, -, -, h⟩ := h
  cases h
  exact ⟨rfl, organizations, insertRow_ok ho, rfl⟩

theorem create_text {id : Uuid} {now : Time} {organization a : Organization} {db db' : Db}
    (h : create id now organization db = .ok (a, db')) :
    ∀ s ∈ [organization.name, organization.slug, organization.signingSecret], textOk s = true := by
  simp only [create, except_bind_ok] at h
  obtain ⟨_, ht, -⟩ := h
  exact checkText_ok ht

theorem create_error {id : Uuid} {now : Time} {organization : Organization} {db : Db} {e : Err}
    (h : create id now organization db = .error e) :
    Refused [organization.name, organization.slug, organization.signingSecret] e := by
  simp only [create, except_bind_error] at h
  rcases h with h | ⟨_, ht, h | ⟨_, -, h | ⟨_, -, h⟩⟩⟩
  · exact checkText_error h
  · exact insertRow_error h ▸ .unique (checkText_ok ht)
  · exact unique_error h ▸ .unique (checkText_ok ht)
  · cases h

/-- An organization whose slug is free can be inserted. -/
theorem create_eq {id : Uuid} {now : Time} {organization : Organization} {db : Db}
    (htext : ∀ s ∈ [organization.name, organization.slug, organization.signingSecret],
      textOk s = true)
    (hid : ∀ o ∈ db.organizations, o.id ≠ id)
    (hslug : ∀ o ∈ db.organizations, o.slug ≠ organization.slug) :
    ∃ x, create id now organization db = .ok x := by
  obtain ⟨organizations, ho⟩ := insertRow_eq (t := db.organizations)
    (r := { organization with id := id, createdAt := now, updatedAt := now }) hid
  have hunique := unique_eq fun o hmem ↦ decide_eq_false (hslug o hmem)
  exact ⟨_, except_bind_ok.mpr ⟨_, checkText_eq htext,
    except_bind_ok.mpr ⟨_, ho, except_bind_ok.mpr ⟨_, hunique, rfl⟩⟩⟩⟩

/-- An organization that is inserted has a slug of its own. -/
theorem create_slug {id : Uuid} {now : Time} {organization a : Organization} {db db' : Db}
    (h : create id now organization db = .ok (a, db')) :
    ∀ o ∈ db.organizations, o.slug ≠ organization.slug := by
  simp only [create, except_bind_ok] at h
  obtain ⟨-, -, -, -, _, hu, -⟩ := h
  exact fun o ho ↦ of_decide_eq_false (unique_ok hu o ho)

/-- `SELECT ... FROM organizations WHERE id = $1`; `organization.go:36`. -/
def findByID (id : Uuid) (db : Db) : Except Err Organization :=
  (db.organizations.find? id).elim (.error .noRows) .ok

/-- `DELETE FROM organizations WHERE id = $1` and its cascades; `organization.go:48`. -/
def delete (id : Uuid) (db : Db) : Db :=
  let messages := db.messages.filter fun m ↦ m.orgID ≠ id
  { db with
    organizations := db.organizations.filter fun o ↦ o.id ≠ id
    memberships := db.memberships.filter fun m ↦ m.orgID ≠ id
    apiKeys := db.apiKeys.filter fun k ↦ k.orgID ≠ id
    messages := messages
    deliveryAttempts := db.deliveryAttempts.filter fun a ↦
      !(db.messages.find? a.messageID).any fun m ↦ m.orgID = id
    invitations := db.invitations.filter fun i ↦ i.orgID ≠ id }

/-- `SELECT signing_secret FROM organizations WHERE id = $1`; `organization.go:53`. -/
def getSigningSecret (orgID : Uuid) (db : Db) : Except Err String :=
  (db.organizations.find? orgID).elim (.error .noRows) fun o ↦ .ok o.signingSecret

theorem getSigningSecret_ok {orgID : Uuid} {db : Db} {secret : String}
    (h : getSigningSecret orgID db = .ok secret) :
    ∃ o ∈ db.organizations, o.id = orgID ∧ o.signingSecret = secret := by
  unfold getSigningSecret at h
  cases hf : db.organizations.find? orgID with
  | none =>
    rw [hf] at h
    cases h
  | some o =>
    rw [hf] at h
    cases h
    obtain ⟨ho, hid⟩ := (db.organizations.find?_eq_some_iff orgID o).mp hf
    exact ⟨o, ho, hid, rfl⟩

theorem getSigningSecret_error {orgID : Uuid} {db : Db} {e : Err}
    (h : getSigningSecret orgID db = .error e) : ∀ o ∈ db.organizations, o.id ≠ orgID := by
  unfold getSigningSecret at h
  cases hf : db.organizations.find? orgID with
  | none => exact (db.organizations.find?_eq_none_iff orgID).mp hf
  | some o =>
    rw [hf] at h
    cases h

/-- `UPDATE organizations SET signing_secret = $1`; `organization.go:64`. A missing row is reported
with an error of its own that wraps nothing. -/
def rotateSigningSecret (now : Time) (orgID : Uuid) (newSecret : String) (db : Db) :
    Except Err Db :=
  match checkText [newSecret], db.organizations.find? orgID with
  | .error e, _ => .error e
  | .ok _, none => .error .unavailable
  | .ok _, some _ =>
    .ok { db with
      organizations := db.organizations.modify orgID
        (fun o ↦ { o with signingSecret := newSecret, updatedAt := now }) fun _ ↦ rfl }

/-- A rotation changes the secret of the organization named, which exists. -/
theorem rotateSigningSecret_ok {now : Time} {orgID : Uuid} {newSecret : String} {db db' : Db}
    (h : rotateSigningSecret now orgID newSecret db = .ok db') :
    (∃ o, db.organizations.find? orgID = some o) ∧
      db' = { db with
        organizations := db.organizations.modify orgID
          (fun o ↦ { o with signingSecret := newSecret, updatedAt := now }) fun _ ↦ rfl } := by
  unfold rotateSigningSecret at h
  split at h
  · cases h
  · cases h
  · next hf =>
    cases h
    exact ⟨⟨_, hf⟩, rfl⟩

end OrganizationRepository

/-- `repository.MembershipWithOrg`. -/
structure MembershipWithOrg where
  orgID : Uuid
  orgName : String
  orgSlug : String
  role : Role
deriving DecidableEq

namespace MembershipRepository

/-- `INSERT INTO memberships`; `membership.go:21`. -/
def create (id : Uuid) (now : Time) (membership : Membership) (db : Db) :
    Except Err (Membership × Db) := do
  let row := { membership with id := id, createdAt := now, updatedAt := now }
  let memberships ← insertRow db.memberships row
  unique db.memberships.rows fun m ↦ m.userID = membership.userID && m.orgID = membership.orgID
  references db.users membership.userID
  references db.organizations membership.orgID
  return (row, { db with memberships := memberships })

/-- A membership enters its table and nothing else changes. -/
theorem create_ok {id : Uuid} {now : Time} {membership a : Membership} {db db' : Db}
    (h : create id now membership db = .ok (a, db')) :
    a = { membership with id := id, createdAt := now, updatedAt := now } ∧
      ∃ memberships, db.memberships.insert? a = some memberships ∧
        db' = { db with memberships := memberships } := by
  simp only [create, except_bind_ok] at h
  obtain ⟨memberships, hm, -, -, -, -, -, -, h⟩ := h
  cases h
  exact ⟨rfl, memberships, insertRow_ok hm, rfl⟩

theorem create_error {id : Uuid} {now : Time} {membership : Membership} {db : Db} {e : Err}
    (h : create id now membership db = .error e) : Refused [] e := by
  have hno : ∀ s ∈ ([] : List String), textOk s = true := fun s hs ↦ (nomatch hs)
  simp only [create, except_bind_error] at h
  rcases h with h | ⟨_, -, h | ⟨_, -, h | ⟨_, -, h | ⟨_, -, h⟩⟩⟩⟩
  · exact insertRow_error h ▸ .unique hno
  · exact unique_error h ▸ .unique hno
  · exact references_error h ▸ .foreignKey hno
  · exact references_error h ▸ .foreignKey hno
  · cases h

/-- A user can become a member of an organization. -/
theorem create_eq {id : Uuid} {now : Time} {membership : Membership} {db : Db} {user : User}
    {org : Organization} (hid : ∀ m ∈ db.memberships, m.id ≠ id)
    (hnew : ∀ m ∈ db.memberships, m.userID ≠ membership.userID) (huser : user ∈ db.users)
    (hu : membership.userID = user.id) (horg : org ∈ db.organizations)
    (ho : membership.orgID = org.id) : ∃ x, create id now membership db = .ok x := by
  obtain ⟨memberships, hm⟩ := insertRow_eq (t := db.memberships)
    (r := { membership with id := id, createdAt := now, updatedAt := now }) hid
  have hunique : unique db.memberships.rows (fun m ↦
      m.userID = membership.userID && m.orgID = membership.orgID) = .ok () :=
    unique_eq fun m hmem ↦ by simp [hnew m hmem]
  have hfst : references db.users membership.userID = .ok () := hu ▸ references_eq huser
  have hsnd : references db.organizations membership.orgID = .ok () := ho ▸ references_eq horg
  exact ⟨_, except_bind_ok.mpr ⟨_, hm, except_bind_ok.mpr ⟨_, hunique,
    except_bind_ok.mpr ⟨_, hfst, except_bind_ok.mpr ⟨_, hsnd, rfl⟩⟩⟩⟩⟩

/-- A membership is one of a user there is. -/
theorem create_user {id : Uuid} {now : Time} {membership a : Membership} {db db' : Db}
    (h : create id now membership db = .ok (a, db')) :
    ∃ u ∈ db.users, u.id = membership.userID := by
  simp only [create, except_bind_ok] at h
  obtain ⟨-, -, -, -, _, hr, -⟩ := h
  obtain ⟨u, hu⟩ := references_ok hr
  exact ⟨u, (db.users.find?_eq_some_iff _ _).mp hu⟩

/-- `SELECT ... FROM memberships m JOIN organizations o ... ORDER BY m.created_at ASC`;
`membership.go:60`. -/
def findAllByUserID (tie : Uuid → Nat) (userID : Uuid) (db : Db) : List MembershipWithOrg :=
  (orderBy Membership.createdAt (fun m ↦ tie m.id)
    (db.memberships.rows.filter fun m ↦ m.userID = userID)).filterMap fun m ↦
      (db.organizations.find? m.orgID).map fun o ↦ ⟨m.orgID, o.name, o.slug, m.role⟩

/-- `SELECT ... FROM memberships WHERE user_id = $1 AND org_id = $2`; `membership.go:85`. -/
def findByUserAndOrgID (userID orgID : Uuid) (db : Db) : Except Err Membership :=
  (db.memberships.rows.find? fun m ↦ m.userID = userID && m.orgID = orgID).elim
    (.error .noRows) .ok

theorem findByUserAndOrgID_ok {userID orgID : Uuid} {db : Db} {m : Membership}
    (h : findByUserAndOrgID userID orgID db = .ok m) :
    m ∈ db.memberships ∧ m.userID = userID ∧ m.orgID = orgID := by
  have hf := elim_ok.mp h
  have hp := List.find?_some hf
  exact ⟨List.mem_of_find?_eq_some hf, by simpa using hp⟩

theorem findByUserAndOrgID_error {userID orgID : Uuid} {db : Db} {e : Err}
    (h : findByUserAndOrgID userID orgID db = .error e) :
    ∀ m ∈ db.memberships, m.userID = userID → m.orgID ≠ orgID := by
  intro m hm hu ho
  cases hf : db.memberships.rows.find? fun m ↦ m.userID = userID && m.orgID = orgID with
  | none =>
    have hno := List.find?_eq_none.mp hf m hm
    simp [hu, ho] at hno
  | some m' =>
    rw [findByUserAndOrgID, hf] at h
    cases h

end MembershipRepository

namespace ApiKeyRepository

/-- `INSERT INTO api_keys`; `apiKey.go:21`. -/
def create (id : Uuid) (now : Time) (apiKey : APIKey) (db : Db) : Except Err (APIKey × Db) := do
  checkText [apiKey.name, apiKey.pre, apiKey.hashedKey]
  let row := { apiKey with id := id, lastUsedAt := none, createdAt := now, updatedAt := now }
  let apiKeys ← insertRow db.apiKeys row
  unique db.apiKeys.rows fun k ↦ k.hashedKey = apiKey.hashedKey
  references db.organizations apiKey.orgID
  return (row, { db with apiKeys := apiKeys })

/-- A key enters its table and nothing else changes. -/
theorem create_ok {id : Uuid} {now : Time} {apiKey a : APIKey} {db db' : Db}
    (h : create id now apiKey db = .ok (a, db')) :
    a = { apiKey with id := id, lastUsedAt := none, createdAt := now, updatedAt := now } ∧
      ∃ apiKeys, db.apiKeys.insert? a = some apiKeys ∧ db' = { db with apiKeys := apiKeys } := by
  simp only [create, except_bind_ok] at h
  obtain ⟨-, -, apiKeys, hk, -, -, -, -, h⟩ := h
  cases h
  exact ⟨rfl, apiKeys, insertRow_ok hk, rfl⟩

theorem create_text {id : Uuid} {now : Time} {apiKey a : APIKey} {db db' : Db}
    (h : create id now apiKey db = .ok (a, db')) :
    ∀ s ∈ [apiKey.name, apiKey.pre, apiKey.hashedKey], textOk s = true := by
  simp only [create, except_bind_ok] at h
  obtain ⟨_, ht, -⟩ := h
  exact checkText_ok ht

theorem create_error {id : Uuid} {now : Time} {apiKey : APIKey} {db : Db} {e : Err}
    (h : create id now apiKey db = .error e) :
    Refused [apiKey.name, apiKey.pre, apiKey.hashedKey] e := by
  simp only [create, except_bind_error] at h
  rcases h with h | ⟨_, ht, h | ⟨_, -, h | ⟨_, -, h | ⟨_, -, h⟩⟩⟩⟩
  · exact checkText_error h
  · exact insertRow_error h ▸ .unique (checkText_ok ht)
  · exact unique_error h ▸ .unique (checkText_ok ht)
  · exact references_error h ▸ .foreignKey (checkText_ok ht)
  · cases h

/-- `SELECT ... FROM api_keys WHERE hashed_key = $1 LIMIT 1`; `apiKey.go:38`. -/
def findByHashedKey (hashedKey : String) (db : Db) : Except Err APIKey :=
  (db.apiKeys.rows.find? fun k ↦ k.hashedKey = hashedKey).elim (.error .noRows) .ok

/-- A key is found by its hash, which no other has. -/
theorem findByHashedKey_eq {db : Db} {k : APIKey} (hk : k ∈ db.apiKeys)
    (hunique : ∀ k ∈ db.apiKeys, ∀ k' ∈ db.apiKeys, k.hashedKey = k'.hashedKey → k = k') :
    findByHashedKey k.hashedKey db = .ok k := by
  refine elim_ok.mpr ?_
  cases hf : db.apiKeys.rows.find? fun x ↦ x.hashedKey = k.hashedKey with
  | none =>
    have hne := List.find?_eq_none.mp hf k hk
    simp at hne
  | some k' =>
    have he : k'.hashedKey = k.hashedKey := by simpa using List.find?_some hf
    rw [hunique k' (List.mem_of_find?_eq_some hf) k hk he]

/-- `SELECT ... FROM api_keys WHERE org_id = $1 ORDER BY created_at DESC`, which leaves the hash
out; `apiKey.go:64`. -/
def findByOrgID (tie : Uuid → Nat) (orgID : Uuid) (db : Db) : List APIKey :=
  (orderBy (fun k ↦ -k.createdAt) (fun k ↦ tie k.id)
    (db.apiKeys.rows.filter fun k ↦ k.orgID = orgID)).map fun k ↦ { k with hashedKey := "" }

/-- `DELETE FROM api_keys WHERE id = $1`; `apiKey.go:91`. -/
def delete (id : Uuid) (db : Db) : Except Err Db :=
  match db.apiKeys.find? id with
  | none => .error .notFound
  | some _ => .ok { db with apiKeys := db.apiKeys.filter fun k ↦ k.id ≠ id }

/-- A deletion removes the key named, which exists. -/
theorem delete_ok {id : Uuid} {db db' : Db} (h : delete id db = .ok db') :
    (∃ k, db.apiKeys.find? id = some k) ∧
      db' = { db with apiKeys := db.apiKeys.filter fun k ↦ k.id ≠ id } := by
  unfold delete at h
  split at h
  · cases h
  · next hf =>
    cases h
    exact ⟨⟨_, hf⟩, rfl⟩

end ApiKeyRepository

/-- `repository.PendingInvitation`. -/
structure PendingInvitation where
  id : Uuid
  orgName : String
  orgSlug : String
  role : Role
  expiresAt : Time
deriving DecidableEq

namespace InvitationRepository

/-- `INSERT INTO invitations`; `invitation.go:23`. -/
def create (id : Uuid) (now : Time) (invitation : Invitation) (db : Db) :
    Except Err (Invitation × Db) := do
  checkText [invitation.email, invitation.token]
  let row := { invitation with id := id, acceptedAt := none, createdAt := now, updatedAt := now }
  let invitations ← insertRow db.invitations row
  unique db.invitations.rows fun i ↦ i.token = invitation.token
  unique db.invitations.rows fun i ↦ i.orgID = invitation.orgID && i.email = invitation.email
  references db.organizations invitation.orgID
  invitation.invitedBy.elim (.ok ()) (references db.users)
  return (row, { db with invitations := invitations })

/-- An invitation enters its table and nothing else changes. -/
theorem create_ok {id : Uuid} {now : Time} {invitation a : Invitation} {db db' : Db}
    (h : create id now invitation db = .ok (a, db')) :
    a = { invitation with id := id, acceptedAt := none, createdAt := now, updatedAt := now } ∧
      ∃ invitations, db.invitations.insert? a = some invitations ∧
        db' = { db with invitations := invitations } := by
  simp only [create, except_bind_ok] at h
  obtain ⟨-, -, invitations, hi, -, -, -, -, -, -, -, -, h⟩ := h
  cases h
  exact ⟨rfl, invitations, insertRow_ok hi, rfl⟩

/-- An invitation can be inserted if its token and its pair of organization and email are new. -/
theorem create_eq {id : Uuid} {now : Time} {invitation : Invitation} {db : Db} {org : Organization}
    {user : User} (htext : ∀ s ∈ [invitation.email, invitation.token], textOk s = true)
    (hid : ∀ i ∈ db.invitations, i.id ≠ id)
    (htoken : ∀ i ∈ db.invitations, i.token ≠ invitation.token)
    (hpair : ∀ i ∈ db.invitations, i.orgID = invitation.orgID → i.email ≠ invitation.email)
    (horg : org ∈ db.organizations) (ho : invitation.orgID = org.id) (huser : user ∈ db.users)
    (hu : invitation.invitedBy = some user.id) : ∃ x, create id now invitation db = .ok x := by
  obtain ⟨invitations, hi⟩ := insertRow_eq (t := db.invitations)
    (r := { invitation with id := id, acceptedAt := none, createdAt := now, updatedAt := now }) hid
  have htokens : unique db.invitations.rows (fun i ↦ i.token = invitation.token) = .ok () :=
    unique_eq fun i hmem ↦ by simp [htoken i hmem]
  have hpairs : unique db.invitations.rows (fun i ↦
      i.orgID = invitation.orgID && i.email = invitation.email) = .ok () :=
    unique_eq fun i hmem ↦ by simpa using hpair i hmem
  have hfst : references db.organizations invitation.orgID = .ok () := ho ▸ references_eq horg
  have hsnd : invitation.invitedBy.elim (.ok ()) (references db.users) = .ok () := by
    rw [hu]
    exact references_eq huser
  exact ⟨_, except_bind_ok.mpr ⟨_, checkText_eq htext, except_bind_ok.mpr ⟨_, hi,
    except_bind_ok.mpr ⟨_, htokens, except_bind_ok.mpr ⟨_, hpairs,
    except_bind_ok.mpr ⟨_, hfst, except_bind_ok.mpr ⟨_, hsnd, rfl⟩⟩⟩⟩⟩⟩⟩

/-- `SELECT ... FROM invitations WHERE id = $1`; `invitation.go:41`. -/
def findByID (id : Uuid) (db : Db) : Except Err Invitation :=
  (db.invitations.find? id).elim (.error .notFound) .ok

theorem findByID_ok {id : Uuid} {db : Db} {inv : Invitation} (h : findByID id db = .ok inv) :
    inv ∈ db.invitations ∧ inv.id = id :=
  (db.invitations.find?_eq_some_iff id inv).mp (elim_ok.mp h)

/-- `SELECT ... FROM invitations WHERE token = $1`; `invitation.go:97`. -/
def findByToken (token : String) (db : Db) : Except Err Invitation := do
  checkText [token]
  (db.invitations.rows.find? fun i ↦ i.token = token).elim (.error .notFound) .ok

theorem findByToken_ok {token : String} {db : Db} {inv : Invitation}
    (h : findByToken token db = .ok inv) : inv ∈ db.invitations := by
  rw [findByToken, except_bind_ok] at h
  obtain ⟨-, -, h⟩ := h
  exact List.mem_of_find?_eq_some (elim_ok.mp h)

theorem findByToken_token {token : String} {db : Db} {inv : Invitation}
    (h : findByToken token db = .ok inv) : inv.token = token := by
  rw [findByToken, except_bind_ok] at h
  obtain ⟨-, -, h⟩ := h
  simpa using List.find?_some (elim_ok.mp h)

/-- An invitation is found by its token, which no other has. -/
theorem findByToken_eq {db : Db} {inv : Invitation} (htext : textOk inv.token = true)
    (hinv : inv ∈ db.invitations)
    (hunique : ∀ i ∈ db.invitations, ∀ i' ∈ db.invitations, i.token = i'.token → i = i') :
    findByToken inv.token db = .ok inv := by
  refine except_bind_ok.mpr ⟨_, checkText_eq (by simp [htext]), elim_ok.mpr ?_⟩
  cases hf : db.invitations.rows.find? fun i ↦ i.token = inv.token with
  | none =>
    have hne := List.find?_eq_none.mp hf inv hinv
    simp at hne
  | some i =>
    have he : i.token = inv.token := by simpa using List.find?_some hf
    rw [hunique i (List.mem_of_find?_eq_some hf) inv hinv he]

/-- `SELECT ... FROM invitations WHERE org_id = $1 ORDER BY created_at DESC`;
`invitation.go:128`. -/
def findByOrgID (tie : Uuid → Nat) (orgID : Uuid) (db : Db) : List Invitation :=
  orderBy (fun i ↦ -i.createdAt) (fun i ↦ tie i.id)
    (db.invitations.rows.filter fun i ↦ i.orgID = orgID)

/-- `SELECT ... FROM invitations WHERE org_id = $1 AND email = $2`; `invitation.go:164`. -/
def findByOrgAndEmail (orgID : Uuid) (email : String) (db : Db) : Except Err Invitation := do
  checkText [email]
  (db.invitations.rows.find? fun i ↦ i.orgID = orgID && i.email = email).elim
    (.error .notFound) .ok

theorem findByOrgAndEmail_pair {orgID : Uuid} {email : String} {db : Db} {inv : Invitation}
    (h : findByOrgAndEmail orgID email db = .ok inv) :
    inv ∈ db.invitations ∧ inv.orgID = orgID ∧ inv.email = email := by
  rw [findByOrgAndEmail, except_bind_ok] at h
  obtain ⟨-, -, h⟩ := h
  have hf := elim_ok.mp h
  exact ⟨List.mem_of_find?_eq_some hf, by simpa using List.find?_some hf⟩

/-- A lookup by organization and email fails without a row or for the text of the email. -/
theorem findByOrgAndEmail_error {orgID : Uuid} {email : String} {db : Db} {e : Err}
    (h : findByOrgAndEmail orgID email db = .error e) :
    (e = .notFound ∧ textOk email = true ∧
        ∀ i ∈ db.invitations, i.orgID = orgID → i.email ≠ email) ∨
      e ≠ .notFound ∧ textOk email = false := by
  by_cases ht : textOk email = true
  · left
    rw [findByOrgAndEmail, checkText_eq (by simp [ht])] at h
    cases hf : db.invitations.rows.find? fun i ↦ i.orgID = orgID && i.email = email with
    | none =>
      rw [hf] at h
      cases h
      exact ⟨rfl, ht, fun i hi ho he ↦ absurd (List.find?_eq_none.mp hf i hi) (by simp [ho, he])⟩
    | some i =>
      rw [hf] at h
      cases h
  · right
    rw [findByOrgAndEmail, checkText, if_neg (by simp [ht])] at h
    cases h
    exact ⟨by decide, by simpa using ht⟩

theorem findByOrgAndEmail_ok {orgID : Uuid} {email : String} {db : Db} {inv : Invitation}
    (h : findByOrgAndEmail orgID email db = .ok inv) :
    inv ∈ db.invitations ∧ inv.orgID = orgID :=
  ⟨(findByOrgAndEmail_pair h).1, (findByOrgAndEmail_pair h).2.1⟩

/-- `SELECT ... WHERE i.email = $1 AND i.status = 'pending' AND i.expires_at > NOW()
ORDER BY i.created_at DESC`; `invitation.go:72`. -/
def findPendingByEmail (tie : Uuid → Nat) (now : Time) (email : String) (db : Db) :
    Except Err (List PendingInvitation) := do
  checkText [email]
  return (orderBy (fun i ↦ -i.createdAt) (fun i ↦ tie i.id)
    (db.invitations.rows.filter fun i ↦
      i.email = email && i.status = .pending && decide (now < i.expiresAt))).filterMap fun i ↦
        (db.organizations.find? i.orgID).map fun o ↦ ⟨i.id, o.name, o.slug, i.role, i.expiresAt⟩

/-- `UPDATE invitations SET status = $1 WHERE id = $2`; `invitation.go:195`. The status is a text
that Postgres reads as an `invitation_status`; a missing row is no error. -/
def updateStatus (now : Time) (id : Uuid) (status : String) (db : Db) : Except Err Db :=
  match InvitationStatus.ofLabel status with
  | none => .error (.pg Sqlstate.invalidTextFormat)
  | some st =>
    .ok { db with
      invitations := db.invitations.modify id
        (fun i ↦ { i with status := st, updatedAt := now }) fun _ ↦ rfl }

/-- An update writes a status that the text names. -/
theorem updateStatus_ok {now : Time} {id : Uuid} {status : String} {db db' : Db}
    (h : updateStatus now id status db = .ok db') :
    ∃ st, InvitationStatus.ofLabel status = some st ∧
      db' = { db with
        invitations := db.invitations.modify id
          (fun i ↦ { i with status := st, updatedAt := now }) fun _ ↦ rfl } := by
  unfold updateStatus at h
  split at h
  · cases h
  · next st hs =>
    cases h
    exact ⟨st, hs, rfl⟩

/-- `UPDATE invitations SET status = 'accepted', accepted_at = $1 WHERE id = $2`;
`invitation.go:205`. -/
def acceptInvitation (now : Time) (acceptedAt : Time) (id : Uuid) (db : Db) : Db :=
  { db with
    invitations := db.invitations.modify id
      (fun i ↦ { i with status := .accepted, acceptedAt := some acceptedAt, updatedAt := now })
      fun _ ↦ rfl }

/-- `DELETE FROM invitations WHERE id = $1`; `invitation.go:216`. -/
def delete (id : Uuid) (db : Db) : Db :=
  { db with invitations := db.invitations.filter fun i ↦ i.id ≠ id }

end InvitationRepository

end Chis
