import Chis.Api.System

/-!
# Creating accounts and organizations

`Register` and `CreateOrg` insert their rows one statement after the other, without a transaction.
What a request that fails has inserted before stays.
-/

namespace Chis.Accounts

open Program Api

/-- Any outcome of every operation. -/
abbrev anyOutcome (env : Env) (i : Proc) : (o : Op) → World → o.Res → World → Prop :=
  World.Exec env.toPlatform (fun _ ↦ True) i

/-! ### What a failed request leaves -/

/-- The tables after the first insertions of a registration: all of its rows but the last ones. -/
inductive PartOfRegistration (db : Db) : Db → Prop
  | nothing : PartOfRegistration db db
  | user {user : User} {users : Relational.Table User.id} :
    db.users.insert? user = some users → PartOfRegistration db { db with users := users }
  | account {user : User} {users : Relational.Table User.id} {account : Account}
    {accounts : Relational.Table Account.id} :
    db.users.insert? user = some users → db.accounts.insert? account = some accounts →
    account.userID = user.id → account.providerAccountID = user.email →
    PartOfRegistration db { db with users := users, accounts := accounts }
  | organization {user : User} {users : Relational.Table User.id} {account : Account}
    {accounts : Relational.Table Account.id} {org : Organization}
    {organizations : Relational.Table Organization.id} :
    db.users.insert? user = some users → db.accounts.insert? account = some accounts →
    account.userID = user.id → account.providerAccountID = user.email →
    db.organizations.insert? org = some organizations → org.name = user.firstName ++ "'s Workspace" →
    PartOfRegistration db
      { db with users := users, accounts := accounts, organizations := organizations }

/-- The tables without or with the organization that is to be created. -/
inductive PartOfCreation (db : Db) : Db → Prop
  | nothing : PartOfCreation db db
  | organization {org : Organization} {organizations : Relational.Table Organization.id} :
    db.organizations.insert? org = some organizations →
    PartOfCreation db { db with organizations := organizations }

section Failure

variable {env : Env} {i : Proc} {w w' : World} {r : Request}

/-- An insertion gives its row, or fails and leaves the tables alone. -/
private theorem exec_write {s : Stmt} {a : s.Ok} (hx : anyOutcome env i (.sql s) w (.ok a) w') :
    ∃ ch, s.exec env.toPlatform ch w.db = (.ok a, w'.db) := by
  rcases World.Exec.sql hx with ⟨hr, -⟩ | ⟨ch, -, hexec, -⟩
  · cases hr
  · exact ⟨ch, hexec⟩

private theorem user_inserted {user a : User} (hx : anyOutcome env i (.sql (.userCreate user)) w (.ok a) w') :
    a.email = user.email ∧ a.firstName = user.firstName ∧
      ∃ users, w.db.users.insert? a = some users ∧ w'.db = { w.db with users := users } := by
  obtain ⟨ch, hexec⟩ := exec_write hx
  rcases Stmt.write_inv hexec with ⟨_, ha, hc⟩ | ⟨e, he, -⟩
  · cases ha
    obtain ⟨rfl, users, hu, hd⟩ := UserRepository.create_ok hc
    exact ⟨rfl, rfl, users, hu, hd⟩
  · cases he

private theorem account_inserted {account a : Account}
    (hx : anyOutcome env i (.sql (.accountCreate account)) w (.ok a) w') :
    a.userID = account.userID ∧ a.providerAccountID = account.providerAccountID ∧
      ∃ accounts, w.db.accounts.insert? a = some accounts ∧
        w'.db = { w.db with accounts := accounts } := by
  obtain ⟨ch, hexec⟩ := exec_write hx
  rcases Stmt.write_inv hexec with ⟨_, ha, hc⟩ | ⟨e, he, -⟩
  · cases ha
    obtain ⟨rfl, accounts, hu, hd⟩ := AccountRepository.create_ok hc
    exact ⟨rfl, rfl, accounts, hu, hd⟩
  · cases he

private theorem organization_inserted {org a : Organization}
    (hx : anyOutcome env i (.sql (.organizationCreate org)) w (.ok a) w') :
    a.name = org.name ∧ ∃ organizations, w.db.organizations.insert? a = some organizations ∧
      w'.db = { w.db with organizations := organizations } := by
  obtain ⟨ch, hexec⟩ := exec_write hx
  rcases Stmt.write_inv hexec with ⟨_, ha, hc⟩ | ⟨e, he, -⟩
  · cases ha
    obtain ⟨rfl, organizations, hu, hd⟩ := OrganizationRepository.create_ok hc
    exact ⟨rfl, organizations, hu, hd⟩
  · cases he

private theorem rand_db {x : Except Err (List UInt8)} (hx : anyOutcome env i .rand w x w') :
    w'.db = w.db :=
  World.Exec.db_eq hx fun _ h ↦ nomatch h

/-- A registration that fails leaves its first rows. -/
theorem register_part (fault : Fault) :
    (register env r).run.wp (anyOutcome env i)
      (fun x w' ↦ x = .error fault → PartOfRegistration w.db w'.db) w := by
  unfold register
  rw [wp_check_bind]
  refine ⟨fun req _ ↦ ?_, fun _ _ _ ↦ .nothing⟩
  rw [wp_random_bind]
  refine ⟨fun salt w₀ h₀ ↦ ?_, fun _ w₀ h₀ _ ↦ ?_⟩
  · rw [← rand_db h₀]
    split
    · next hashedPassword _ =>
      rw [wp_query_bind]
      refine ⟨fun user w₁ h₁ ↦ ?_, fun _ w₁ h₁ _ ↦ by rw [World.Exec.failed h₁]; exact .nothing⟩
      obtain ⟨-, hfirst, users, hu, hd₁⟩ := user_inserted h₁
      rw [wp_query_bind]
      refine ⟨fun account w₂ h₂ ↦ ?_, fun _ w₂ h₂ _ ↦ ?_⟩
      · obtain ⟨hid, hname, accounts, ha, hd₂⟩ := account_inserted h₂
        rw [hd₁] at ha hd₂
        have hpart : PartOfRegistration w₀.db w₂.db := hd₂ ▸ .account hu ha hid hname
        rw [wp_random_bind]
        refine ⟨fun bytes w₃ h₃ ↦ ?_, fun _ w₃ h₃ _ ↦ rand_db h₃ ▸ hpart⟩
        rw [wp_query_bind]
        refine ⟨fun org w₄ h₄ ↦ ?_, fun _ w₄ h₄ _ ↦ ?_⟩
        · obtain ⟨horg, organizations, ho, hd₄⟩ := organization_inserted h₄
          rw [rand_db h₃, hd₂] at ho hd₄
          have hpart' : PartOfRegistration w₀.db w₄.db :=
            hd₄ ▸ .organization hu ha hid hname ho horg
          rw [wp_query_bind]
          refine ⟨fun m w₅ h₅ hx ↦ ?_, fun _ w₅ h₅ _ ↦ ?_⟩
          · cases hx
          · rw [World.Exec.failed h₅]
            exact hpart'
        · rw [World.Exec.failed h₄, rand_db h₃]
          exact hpart
      · rw [World.Exec.failed h₂, hd₁]
        exact .user hu
    · exact fun _ ↦ .nothing
  · rw [rand_db h₀]
    exact .nothing

theorem createOrg_part (userID : Uuid) (fault : Fault) :
    (createOrg env userID r).run.wp (anyOutcome env i)
      (fun x w' ↦ x = .error fault → PartOfCreation w.db w'.db) w := by
  unfold createOrg
  rw [wp_check_bind]
  refine ⟨fun req _ ↦ ?_, fun _ _ _ ↦ .nothing⟩
  rw [wp_random_bind]
  refine ⟨fun bytes w₀ h₀ ↦ ?_, fun _ w₀ h₀ _ ↦ by rw [rand_db h₀]; exact .nothing⟩
  rw [← rand_db h₀, wp_query_bind]
  refine ⟨fun org w₁ h₁ ↦ ?_, fun _ w₁ h₁ _ ↦ by rw [World.Exec.failed h₁]; exact .nothing⟩
  obtain ⟨-, organizations, ho, hd⟩ := organization_inserted h₁
  rw [wp_query_bind]
  refine ⟨fun m w₂ h₂ hx ↦ ?_, fun _ w₂ h₂ _ ↦ ?_⟩
  · cases hx
  · rw [World.Exec.failed h₂, hd]
    exact .organization ho

/-- A request that creates an account or an organization and fails has inserted some of its first
rows, and has changed nothing else. -/
theorem failed_creation (env : Env) (i : Proc) (w : World) (r : Request) (fault : Fault)
    (w' : World) :
    ((register env r).run.Runs (anyOutcome env i) w (.error fault) w' →
      PartOfRegistration w.db w'.db) ∧
    ∀ userID, (createOrg env userID r).run.Runs (anyOutcome env i) w (.error fault) w' →
      PartOfCreation w.db w'.db :=
  ⟨fun h ↦ h.post (register_part fault) rfl,
    fun userID h ↦ h.post (createOrg_part userID fault) rfl⟩

end Failure

/-! ### A sample -/

/-- The addresses of the users, the names of the accounts and the slugs of the organizations. -/
def sampleAccounts (w : World) : List (List String) :=
  [w.db.users.rows.map User.email, w.db.accounts.rows.map Account.providerAccountID,
    w.db.organizations.rows.map Organization.slug]

/-- Somebody registers under a first name from which the same slug is made as from Ann's. -/
def secondAnn : Request := sampleRequestOf .nil .nil
  "\x7b\"email\":\"ann@b.io\",\"password\":\"password\",\"firstName\":\"ANN!\"\x7d"

-- the elaborator would evaluate the handler on the body
attribute [local irreducible] register in
/-- After Ann has registered, the second Ann is stored as a user and gets an error. -/
theorem second_ann :
    ∃ c fault w', (system sampleEnv sampleSent anyStep).Reachable (World.start 0) c ∧
      (register sampleEnv secondAnn).run.Runs
        (World.Exec sampleEnv.toPlatform World.faultless (.client 1)) c.state (.error fault) w' ∧
      sampleAccounts c.state = [["ann@a.io"], ["ann@a.io"], ["anns-workspace"]] ∧
      sampleAccounts w' =
        [["ann@a.io", "ann@b.io"], ["ann@a.io", "ann@b.io"], ["anns-workspace"]] := by
  have hrun : ((sampleRun (fun _ _ _ ↦ true) (sampleTurns 0 [0, 1, 2, 0, 3, 4, 0])).bind fun c ↦
      ((register sampleEnv secondAnn).run.play
        (fun ch ↦ World.step sampleEnv.toPlatform (.client 1) { ch with fail := false })
        ((sampleTurns 1 [0, 5, 6, 0, 7]).map Prod.snd) c.state).map fun p ↦
          (p.1.isOk, sampleAccounts c.state, sampleAccounts p.2)) =
      some (false, [["ann@a.io"], ["ann@a.io"], ["anns-workspace"]],
        [["ann@a.io", "ann@b.io"], ["ann@a.io", "ann@b.io"], ["anns-workspace"]]) := by
    decide +kernel
  obtain ⟨c, x, w', h, hruns, hseen⟩ := sample_seen_alone (fun _ _ _ _ ↦ trivial) hrun
  obtain ⟨hx, hseen⟩ := Prod.mk.inj hseen
  obtain ⟨hbefore, hafter⟩ := Prod.mk.inj hseen
  cases x with
  | ok res => cases hx
  | error fault => exact ⟨c, fault, w', h, hruns, hbefore, hafter⟩

private theorem anyOutcome_of_faultless {env : Env} {i : Proc} (o : Op) (w : World) (x : o.Res)
    (w' : World) (h : World.Exec env.toPlatform World.faultless i o w x w') :
    anyOutcome env i o w x w' := by
  obtain ⟨ch, -, hs⟩ := h
  exact ⟨ch, trivial, hs⟩

attribute [local irreducible] register in
/-- The registration of the second Ann leaves the user, whose address is taken from then on. -/
theorem failed_creation_sample :
    ∃ c w', (system sampleEnv sampleSent anyStep).Reachable (World.start 0) c ∧
      sampleAccounts w' =
        [["ann@a.io", "ann@b.io"], ["ann@a.io", "ann@b.io"], ["anns-workspace"]] ∧
      PartOfRegistration c.state.db w'.db := by
  obtain ⟨c, fault, w', h, hruns, -, hafter⟩ := second_ann
  exact ⟨c, w', h, hafter, (failed_creation sampleEnv (.client 1) c.state secondAnn fault w').1
    (hruns.mono anyOutcome_of_faultless)⟩

attribute [local irreducible] register in
/-- A registration that fails has stored a user. -/
theorem registration_not_atomic :
    ∃ c fault w', (system sampleEnv sampleSent anyStep).Reachable (World.start 0) c ∧
      (register sampleEnv secondAnn).run.Runs (anyOutcome sampleEnv (.client 1)) c.state
        (.error fault) w' ∧
      w'.db.users ≠ c.state.db.users := by
  obtain ⟨c, fault, w', h, hruns, hbefore, hafter⟩ := second_ann
  refine ⟨c, fault, w', h, hruns.mono anyOutcome_of_faultless, fun hu ↦ ?_⟩
  have hemails : (sampleAccounts w').head? = (sampleAccounts c.state).head? := by
    simp only [sampleAccounts, List.head?_cons, hu]
  rw [hbefore, hafter] at hemails
  cases hemails

end Chis.Accounts
