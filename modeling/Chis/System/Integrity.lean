import Chis.Base.Constraints
import Chis.System.World

/-!
# What the schema keeps

The foreign keys and `UNIQUE` constraints of the migrations hold after every statement, and so in
every run.
-/

namespace Chis

open Relational

/-- The foreign keys. -/
structure References (db : Db) : Prop where
  accounts : db.accounts.Refers Account.userID db.users
  users : db.memberships.Refers Membership.userID db.users
  memberships : db.memberships.Refers Membership.orgID db.organizations
  apiKeys : db.apiKeys.Refers APIKey.orgID db.organizations
  messages : db.messages.Refers Message.orgID db.organizations
  deliveryAttempts : db.deliveryAttempts.Refers DeliveryAttempt.messageID db.messages
  invitations : db.invitations.Refers Invitation.orgID db.organizations

/-- The unique columns, and the texts that `invitations` holds. -/
structure Unique (db : Db) : Prop where
  users : db.users.Distinct User.email
  organizations : db.organizations.Distinct Organization.slug
  memberships : db.memberships.Distinct fun m ↦ (m.userID, m.orgID)
  apiKeys : db.apiKeys.Distinct APIKey.hashedKey
  tokens : db.invitations.Distinct Invitation.token
  invitations : db.invitations.Distinct fun i ↦ (i.orgID, i.email)
  texts : ∀ i ∈ db.invitations, textOk i.token = true ∧ textOk i.email = true

/-- The ids in use were generated. -/
structure Generated (db : Db) (issued : List Uuid) : Prop where
  users : db.users.Keys (· ∈ issued)
  accounts : db.accounts.Keys (· ∈ issued)
  organizations : db.organizations.Keys (· ∈ issued)
  memberships : db.memberships.Keys (· ∈ issued)
  apiKeys : db.apiKeys.Keys (· ∈ issued)
  messages : db.messages.Keys (· ∈ issued)
  deliveryAttempts : db.deliveryAttempts.Keys (· ∈ issued)
  invitations : db.invitations.Keys (· ∈ issued)

/-- All of it. -/
structure World.Sound (w : World) : Prop where
  references : References w.db
  unique : Unique w.db
  generated : Generated w.db w.issued

section Statements

variable {env : Platform} {ch : Choice} {db db' : Db} {s : Stmt} {r : Except Err s.Ok}

private theorem references_target {ρ : Type} {key : ρ → Uuid} {t : Table key} {id : Uuid} {u : Unit}
    (h : references t id = .ok u) : ∃ x ∈ t, key x = id := by
  obtain ⟨x, hx⟩ := references_ok h
  exact ⟨x, (t.find?_eq_some_iff _ _).mp hx⟩

/-- An account is inserted for a user there is. -/
theorem account_refs {account a : Account}
    (h : AccountRepository.create ch.id ch.now account db = .ok (a, db')) :
    ∃ u ∈ db.users, u.id = a.userID := by
  obtain ⟨u, hu, he⟩ := AccountRepository.create_user h
  rw [(AccountRepository.create_ok h).1]
  exact ⟨u, hu, he⟩

/-- A membership is inserted for a user and an organization there are, once. -/
theorem membership_refs {m a : Membership}
    (h : MembershipRepository.create ch.id ch.now m db = .ok (a, db')) :
    (∃ u ∈ db.users, u.id = a.userID) ∧ (∃ o ∈ db.organizations, o.id = a.orgID) ∧
      ∀ m' ∈ db.memberships, (m'.userID, m'.orgID) ≠ (a.userID, a.orgID) := by
  rw [(MembershipRepository.create_ok h).1]
  simp only [MembershipRepository.create, except_bind_ok] at h
  obtain ⟨-, -, _, hu, _, husers, _, horgs, -⟩ := h
  refine ⟨references_target husers, references_target horgs, fun m' hm' he ↦ ?_⟩
  have hf := unique_ok hu m' hm'
  simp_all

/-- A key is inserted for an organization there is, with a hash of its own. -/
theorem apiKey_refs {k a : APIKey} (h : ApiKeyRepository.create ch.id ch.now k db = .ok (a, db')) :
    (∃ o ∈ db.organizations, o.id = a.orgID) ∧ ∀ k' ∈ db.apiKeys, k'.hashedKey ≠ a.hashedKey := by
  rw [(ApiKeyRepository.create_ok h).1]
  simp only [ApiKeyRepository.create, except_bind_ok] at h
  obtain ⟨-, -, -, -, _, hu, _, horgs, -⟩ := h
  exact ⟨references_target horgs, fun k' hk' ↦ of_decide_eq_false (unique_ok hu k' hk')⟩

/-- A message is inserted for an organization there is. -/
theorem message_refs {jsonb : String → Option String} {message : Message} {x : Message × Db}
    (h : MessageRepository.create jsonb ch.id ch.now message db = .ok x) :
    ∃ o ∈ db.organizations, o.id = message.orgID :=
  (MessageRepository.create_succeeds_iff.mp ⟨x, h⟩).2.2.2

/-- An invitation is inserted for an organization there is, with a token of its own, once for an
address. -/
theorem invitation_refs {i a : Invitation}
    (h : InvitationRepository.create ch.id ch.now i db = .ok (a, db')) :
    (∃ o ∈ db.organizations, o.id = a.orgID) ∧ (∀ i' ∈ db.invitations, i'.token ≠ a.token) ∧
      (∀ i' ∈ db.invitations, (i'.orgID, i'.email) ≠ (a.orgID, a.email)) ∧
      textOk a.token = true ∧ textOk a.email = true := by
  rw [(InvitationRepository.create_ok h).1]
  simp only [InvitationRepository.create, except_bind_ok] at h
  obtain ⟨_, ht, -, -, _, htoken, _, hpair, _, horgs, -⟩ := h
  have htext := checkText_ok ht
  refine ⟨references_target horgs, fun i' hi' ↦ of_decide_eq_false (unique_ok htoken i' hi'),
    fun i' hi' he ↦ ?_, htext _ (by simp), htext _ (by simp)⟩
  have hf := unique_ok hpair i' hi'
  simp_all

/-- Foreign keys hold after every statement. -/
theorem References.exec (h : References db) (hx : s.exec env ch db = (r, db')) :
    References db' := by
  have hc := Stmt.exec_change env ch db s
  rw [hx] at hc
  cases hc with
  | same => exact h
  | userCreate hu =>
    exact { h with
      accounts := h.accounts.retarget (Table.insert_keys hu)
      users := h.users.retarget (Table.insert_keys hu) }
  | accountCreate ha =>
    rcases Stmt.write_inv hx with ⟨a, -, hcreate⟩ | ⟨e, -, -, hd⟩
    · have ha' := (AccountRepository.create_ok hcreate).1
      exact { h with accounts := h.accounts.insert ha (ha' ▸ account_refs hcreate) }
    · rwa [hd]
  | organizationCreate ho =>
    exact { h with
      memberships := h.memberships.retarget (Table.insert_keys ho)
      apiKeys := h.apiKeys.retarget (Table.insert_keys ho)
      messages := h.messages.retarget (Table.insert_keys ho)
      invitations := h.invitations.retarget (Table.insert_keys ho) }
  | organizationDelete id =>
    refine
      { accounts := h.accounts
        users := h.users.subset fun m hm ↦ ((Table.mem_filter _ _ _).mp hm).1
        memberships := ?_
        apiKeys := ?_
        messages := ?_
        deliveryAttempts := ?_
        invitations := ?_ }
    · simpa using h.memberships.cascade id
    · simpa using h.apiKeys.cascade id
    · simpa using h.messages.cascade id
    · intro a ha
      obtain ⟨ha, horg⟩ := (Table.mem_filter _ _ _).mp ha
      obtain ⟨m, hm, hid⟩ := h.deliveryAttempts a ha
      rw [(db.messages.find?_eq_some_iff _ _).mpr ⟨hm, hid⟩] at horg
      exact ⟨m, (Table.mem_filter _ _ _).mpr ⟨hm, by simpa using horg⟩, hid⟩
    · simpa using h.invitations.cascade id
  | rotateSigningSecret orgID newSecret =>
    exact { h with
      memberships := h.memberships.retarget (Table.modify_keys (by intro _; rfl))
      apiKeys := h.apiKeys.retarget (Table.modify_keys (by intro _; rfl))
      messages := h.messages.retarget (Table.modify_keys (by intro _; rfl))
      invitations := h.invitations.retarget (Table.modify_keys (by intro _; rfl)) }
  | membershipCreate hm =>
    rcases Stmt.write_inv hx with ⟨a, -, hcreate⟩ | ⟨e, -, -, hd⟩
    · have ha := (MembershipRepository.create_ok hcreate).1
      obtain ⟨huser, horg, -⟩ := membership_refs hcreate
      exact { h with
        users := h.users.insert hm (ha ▸ huser)
        memberships := h.memberships.insert hm (ha ▸ horg) }
    · rwa [hd]
  | apiKeyCreate hk =>
    rcases Stmt.write_inv hx with ⟨a, -, hcreate⟩ | ⟨e, -, -, hd⟩
    · have ha := (ApiKeyRepository.create_ok hcreate).1
      exact { h with apiKeys := h.apiKeys.insert hk (ha ▸ (apiKey_refs hcreate).1) }
    · rwa [hd]
  | apiKeyDelete id =>
    exact { h with apiKeys := h.apiKeys.subset fun k hk ↦ ((Table.mem_filter _ _ _).mp hk).1 }
  | messageCreate hm =>
    rcases Stmt.write_inv hx with ⟨a, -, hcreate⟩ | ⟨e, -, -, hd⟩
    · have horg := message_refs hcreate
      exact { h with
        messages := h.messages.insert hm horg
        deliveryAttempts := h.deliveryAttempts.retarget (Table.insert_keys hm) }
    · rwa [hd]
  | messageUpdateStatus hu =>
    unfold MessageRepository.updateStatus at hu
    split at hu
    · cases hu
    · cases hu
      exact { h with
        messages := h.messages.modify (by intro _; rfl) (by intro _; rfl)
        deliveryAttempts := h.deliveryAttempts.retarget (Table.modify_keys (by intro _; rfl)) }
  | messageUpdate msg =>
    exact { h with
      messages := h.messages.modify (by intro _; rfl) (by intro _; rfl)
      deliveryAttempts := h.deliveryAttempts.retarget (Table.modify_keys (by intro _; rfl)) }
  | attemptCreate ha =>
    rcases Stmt.write_inv hx with ⟨a, -, hcreate⟩ | ⟨e, -, -, hd⟩
    · obtain ⟨-, hm, -⟩ := DeliveryAttemptRepository.create_ok hcreate
      exact { h with deliveryAttempts := h.deliveryAttempts.insert ha hm }
    · rwa [hd]
  | invitationCreate hi =>
    rcases Stmt.write_inv hx with ⟨a, -, hcreate⟩ | ⟨e, -, -, hd⟩
    · have ha := (InvitationRepository.create_ok hcreate).1
      exact { h with invitations := h.invitations.insert hi (ha ▸ (invitation_refs hcreate).1) }
    · rwa [hd]
  | invitationUpdateStatus =>
    exact { h with invitations := h.invitations.modify (by intro _; rfl) (by intro _; rfl) }
  | invitationAccept =>
    exact { h with invitations := h.invitations.modify (by intro _; rfl) (by intro _; rfl) }
  | invitationDelete =>
    exact { h with
      invitations := h.invitations.subset fun i hi ↦ ((Table.mem_filter _ _ _).mp hi).1 }

/-- Unique constraints hold after every statement. -/
theorem Unique.exec (h : Unique db) (hx : s.exec env ch db = (r, db')) : Unique db' := by
  have hc := Stmt.exec_change env ch db s
  rw [hx] at hc
  cases hc with
  | userCreate hu =>
    rcases Stmt.write_inv hx with ⟨a, -, hcreate⟩ | ⟨e, -, -, hd⟩
    · exact { h with users := h.users.insert hu (UserRepository.create_email hcreate) }
    · rwa [hd]
  | organizationCreate ho =>
    rcases Stmt.write_inv hx with ⟨a, -, hcreate⟩ | ⟨e, -, -, hd⟩
    · exact { h with
        organizations := h.organizations.insert ho (OrganizationRepository.create_slug hcreate) }
    · rwa [hd]
  | organizationDelete id =>
    have hmem {ρ : Type} {key : ρ → Uuid} {t : Table key} {p : ρ → Bool} :
        ∀ x ∈ t.filter p, x ∈ t := fun x hx ↦ ((Table.mem_filter _ _ _).mp hx).1
    exact
      { users := h.users
        organizations := h.organizations.subset hmem
        memberships := h.memberships.subset hmem
        apiKeys := h.apiKeys.subset hmem
        tokens := h.tokens.subset hmem
        invitations := h.invitations.subset hmem
        texts := fun i hi ↦ h.texts i (hmem i hi) }
  | rotateSigningSecret =>
    exact { h with organizations := h.organizations.modify (by intro _; rfl) (by intro _; rfl) }
  | membershipCreate hm =>
    rcases Stmt.write_inv hx with ⟨a, -, hcreate⟩ | ⟨e, -, -, hd⟩
    · have ha := (MembershipRepository.create_ok hcreate).1
      exact { h with
        memberships := h.memberships.insert hm (ha ▸ (membership_refs hcreate).2.2) }
    · rwa [hd]
  | apiKeyCreate hk =>
    rcases Stmt.write_inv hx with ⟨a, -, hcreate⟩ | ⟨e, -, -, hd⟩
    · have ha := (ApiKeyRepository.create_ok hcreate).1
      exact { h with apiKeys := h.apiKeys.insert hk (ha ▸ (apiKey_refs hcreate).2) }
    · rwa [hd]
  | apiKeyDelete id =>
    exact { h with apiKeys := h.apiKeys.subset fun k hk ↦ ((Table.mem_filter _ _ _).mp hk).1 }
  | messageUpdateStatus hu =>
    obtain ⟨_, rfl⟩ := MessageRepository.updateStatus_ok hu
    exact { h with }
  | invitationCreate hi =>
    rcases Stmt.write_inv hx with ⟨a, -, hcreate⟩ | ⟨e, -, -, hd⟩
    · have ha := (InvitationRepository.create_ok hcreate).1
      obtain ⟨-, htoken, hpair, htext⟩ := invitation_refs hcreate
      refine { h with
        tokens := h.tokens.insert hi (ha ▸ htoken)
        invitations := h.invitations.insert hi (ha ▸ hpair)
        texts := fun i hmem ↦ ?_ }
      rcases (Table.mem_of_insert? hi i).mp hmem with hmem | rfl
      · exact h.texts i hmem
      · exact ha ▸ htext
    · rwa [hd]
  | invitationUpdateStatus =>
    refine { h with
      tokens := h.tokens.modify (by intro _; rfl) (by intro _; rfl)
      invitations := h.invitations.modify (by intro _; rfl) (by intro _; rfl)
      texts := fun i hmem ↦ ?_ }
    rcases Table.mem_modify_cases (by intro _; rfl) hmem with ⟨hmem, -⟩ | ⟨i₀, h₀, -, rfl⟩
    · exact h.texts i hmem
    · exact h.texts i₀ h₀
  | invitationAccept =>
    refine { h with
      tokens := h.tokens.modify (by intro _; rfl) (by intro _; rfl)
      invitations := h.invitations.modify (by intro _; rfl) (by intro _; rfl)
      texts := fun i hmem ↦ ?_ }
    rcases Table.mem_modify_cases (by intro _; rfl) hmem with ⟨hmem, -⟩ | ⟨i₀, h₀, -, rfl⟩
    · exact h.texts i hmem
    · exact h.texts i₀ h₀
  | invitationDelete =>
    have hmem {p : Invitation → Bool} : ∀ i ∈ db.invitations.filter p, i ∈ db.invitations :=
      fun i hi ↦ ((Table.mem_filter _ _ _).mp hi).1
    exact { h with
      tokens := h.tokens.subset hmem
      invitations := h.invitations.subset hmem
      texts := fun i hi ↦ h.texts i (hmem i hi) }
  | _ => exact { h with }

/-- Only generated ids come into use. -/
theorem Generated.exec {issued : List Uuid} (h : Generated db issued)
    (hx : s.exec env ch db = (r, db')) (hid : s.inserts = true → ch.id ∈ issued) :
    Generated db' issued := by
  have hc := Stmt.exec_change env ch db s
  rw [hx] at hc
  cases hc with
  | userCreate hu => exact { h with users := h.users.insert hu (hid rfl) }
  | accountCreate ha => exact { h with accounts := h.accounts.insert ha (hid rfl) }
  | organizationCreate ho =>
    exact { h with organizations := h.organizations.insert ho (hid rfl) }
  | organizationDelete id =>
    have hmem {ρ : Type} {key : ρ → Uuid} {t : Table key} {p : ρ → Bool} :
        ∀ x ∈ t.filter p, x ∈ t := fun x hx ↦ ((Table.mem_filter _ _ _).mp hx).1
    exact
      { users := h.users
        accounts := h.accounts
        organizations := h.organizations.subset hmem
        memberships := h.memberships.subset hmem
        apiKeys := h.apiKeys.subset hmem
        messages := h.messages.subset hmem
        deliveryAttempts := h.deliveryAttempts.subset hmem
        invitations := h.invitations.subset hmem }
  | rotateSigningSecret =>
    exact { h with organizations := h.organizations.modify (by intro _; rfl) }
  | membershipCreate hm => exact { h with memberships := h.memberships.insert hm (hid rfl) }
  | apiKeyCreate hk => exact { h with apiKeys := h.apiKeys.insert hk (hid rfl) }
  | apiKeyDelete id =>
    exact { h with apiKeys := h.apiKeys.subset fun k hk ↦ ((Table.mem_filter _ _ _).mp hk).1 }
  | messageCreate hm => exact { h with messages := h.messages.insert hm (hid rfl) }
  | messageUpdateStatus hu =>
    unfold MessageRepository.updateStatus at hu
    split at hu
    · cases hu
    · cases hu
      exact { h with messages := h.messages.modify (by intro _; rfl) }
  | messageUpdate msg => exact { h with messages := h.messages.modify (by intro _; rfl) }
  | attemptCreate ha =>
    exact { h with deliveryAttempts := h.deliveryAttempts.insert ha (hid rfl) }
  | invitationCreate hi => exact { h with invitations := h.invitations.insert hi (hid rfl) }
  | invitationUpdateStatus =>
    exact { h with invitations := h.invitations.modify (by intro _; rfl) }
  | invitationAccept => exact { h with invitations := h.invitations.modify (by intro _; rfl) }
  | invitationDelete =>
    exact { h with
      invitations := h.invitations.subset fun i hi ↦ ((Table.mem_filter _ _ _).mp hi).1 }
  | same => exact h

theorem Generated.mono {issued issued' : List Uuid} (h : Generated db issued)
    (hsub : issued ⊆ issued') : Generated db issued' where
  users := h.users.mono fun _ hk ↦ hsub hk
  accounts := h.accounts.mono fun _ hk ↦ hsub hk
  organizations := h.organizations.mono fun _ hk ↦ hsub hk
  memberships := h.memberships.mono fun _ hk ↦ hsub hk
  apiKeys := h.apiKeys.mono fun _ hk ↦ hsub hk
  messages := h.messages.mono fun _ hk ↦ hsub hk
  deliveryAttempts := h.deliveryAttempts.mono fun _ hk ↦ hsub hk
  invitations := h.invitations.mono fun _ hk ↦ hsub hk

end Statements

/-- Every operation of every process keeps the constraints. -/
theorem World.Sound.exec {env : Platform} {allow : Choice → Prop} {i : Proc} {o : Op} {w w' : World}
    {r : o.Res} (h : w.Sound) (hx : World.Exec env allow i o w r w') : w'.Sound := by
  have hsub := hx.issued_subset
  by_cases hs : ∃ s, o = .sql s
  · obtain ⟨s, rfl⟩ := hs
    rcases World.Exec.sql hx with ⟨-, hd⟩ | ⟨ch, -, hexec, hid⟩
    · exact ⟨hd ▸ h.references, hd ▸ h.unique, hd ▸ h.generated.mono hsub⟩
    · exact ⟨h.references.exec hexec, h.unique.exec hexec,
        (h.generated.mono hsub).exec hexec fun hins ↦ (hid hins).2⟩
  · have hd := World.Exec.db_eq hx fun s he ↦ hs ⟨s, he⟩
    exact ⟨hd ▸ h.references, hd ▸ h.unique, hd ▸ h.generated.mono hsub⟩

/-- The tables right after the migrations keep the constraints. -/
theorem sound_empty (queue : List String) (now : Time) (issued : List Uuid) (log : List Entry) :
    World.Sound ⟨.empty, queue, now, issued, log⟩ where
  references :=
    { accounts := Table.refers_empty _ _
      users := Table.refers_empty _ _
      memberships := Table.refers_empty _ _
      apiKeys := Table.refers_empty _ _
      messages := Table.refers_empty _ _
      deliveryAttempts := Table.refers_empty _ _
      invitations := Table.refers_empty _ _ }
  unique :=
    { users := Table.distinct_empty _
      organizations := Table.distinct_empty _
      memberships := Table.distinct_empty _
      apiKeys := Table.distinct_empty _
      tokens := Table.distinct_empty _
      invitations := Table.distinct_empty _
      texts := fun _ hi ↦ nomatch hi }
  generated :=
    { users := Table.keys_empty
      accounts := Table.keys_empty
      organizations := Table.keys_empty
      memberships := Table.keys_empty
      apiKeys := Table.keys_empty
      messages := Table.keys_empty
      deliveryAttempts := Table.keys_empty
      invitations := Table.keys_empty }

/-- In every run of the services from a sound state, the constraints hold throughout. -/
theorem World.Sound.reachable {env : Platform} {S : Program.System Proc World Op Op.Res} {w : World}
    {c : Program.Config Proc World Op Op.Res} (h : w.Sound)
    (hexec : ∀ i o w r w', S.exec i o w r w' → World.Exec env (fun _ ↦ True) i o w r w')
    (hc : S.Reachable w c) : c.state.Sound := by
  refine hc.induct (I := fun c ↦ c.state.Sound) h fun c c' _ ih hstep ↦ ?_
  cases hstep with
  | act _ hx => exact ih.exec (hexec _ _ _ _ _ hx)
  | again => exact ih

end Chis
