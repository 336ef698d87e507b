import Chis.Access.Authentication
import Chis.Pipeline.Content

/-!
# Founders stay

Nothing takes a membership away but the deletion of its organization, and whatever is stored for an
organization goes back to one of its members. So an organization has its founder as an admin as long
as anything is stored for it.
-/

namespace Chis.Access

open Program Api Relation

/-! ### What a request that stores something has read -/

/-- A key is created for an organization of which a membership was read, and a message for the
organization of a key that was read. -/
def Grounded (past : List (Event Op.Res)) : Op → Prop
  | .sql (.apiKeyCreate k) =>
    ∃ u m, (Stmt.membershipFindByUserAndOrgID u k.orgID).returned m ∈ past
  | .sql (.messageCreate message) => ∃ hash, ∃ k : APIKey,
    (Stmt.apiKeyFindByHashedKey hash).returned k ∈ past ∧ k.orgID = message.orgID
  | _ => True

section Handlers

variable {env : Env} {route : Route} {r : Request} {past : List (Event Op.Res)}

attribute [local simp] Grounded

private theorem createApiKey_grounded {orgID : Uuid}
    (h : ∃ u m, (Stmt.membershipFindByUserAndOrgID u orgID).returned m ∈ past) :
    Tells Grounded (fun _ _ ↦ True) (createApiKey env orgID r) past := by
  obtain ⟨u, m, hm⟩ := h
  unfold createApiKey
  simp only [tells_check_bind, tells_random_bind, tells_query_bind, tells_pure]
  exact fun req _ ↦ ⟨trivial, fun bytes ↦ ⟨⟨u, m, List.mem_cons_of_mem _ hm⟩, fun _ ↦ trivial⟩⟩

attribute [local irreducible] Uuid.parse Uuid.toString in
private theorem send_grounded {k : APIKey} {hash : String}
    (h : (Stmt.apiKeyFindByHashedKey hash).returned k ∈ past) :
    Tells Grounded (fun _ _ ↦ True) (send env k.orgID r) past := by
  unfold send
  rw [tells_check_bind]
  intro req _
  simp only []
  split
  · simp
  · apply tells_lift_bind
    unfold Delivery.queueMessage
    rw [Uuid.parse_toString]
    simp [Uuid.parse_toString]
    exact ⟨hash, k, h, rfl⟩

private theorem validateApiKey_grounded {next : Uuid → Service Response}
    (hnext : ∀ hash past, ∀ k : APIKey, (Stmt.apiKeyFindByHashedKey hash).returned k ∈ past →
      (next k.orgID).Traces Grounded (fun _ _ ↦ True) past) :
    (validateApiKey env r next).Traces Grounded (fun _ _ ↦ True) past := by
  unfold validateApiKey
  split
  · trivial
  · simp only [Prog.monad_bind, traces_sql_bind]
    refine ⟨trivial, fun (k : APIKey) ↦ ?_, fun _ ↦ trivial⟩
    cases k.expiresAt with
    | none => exact hnext _ _ k List.mem_cons_self
    | some expiresAt =>
      rw [traces_now_bind]
      refine ⟨trivial, fun t ↦ ?_⟩
      split
      · trivial
      · exact hnext _ _ k (List.mem_cons_of_mem _ List.mem_cons_self)

/-- Every request keeps to that. -/
theorem serve_grounded : (serve env route r).Traces Grounded (fun _ _ ↦ True) past := by
  have hserve (h : (handle env r route).Traces Grounded (fun _ _ ↦ True) past) :
      (serve env route r).Traces Grounded (fun _ _ ↦ True) past := by
    unfold serve
    rw [Prog.monad_bind, Prog.traces_bind]
    exact h.mono (fun _ _ h ↦ h) fun past res _ ↦ ⟨trivial, fun _ ↦ trivial⟩
  by_cases hroute : route = .org .createApiKey ∨ route = .send
  · apply hserve
    rcases hroute with rfl | rfl
    · exact traces_validateToken trivial (fun _ ↦ trivial) fun _ t u _ _ ↦
        traces_validateOrgAccess (fun _ ↦ trivial) (fun _ _ _ ↦ trivial) fun orgID m _ ↦
          traces_wrap (fun _ ↦ trivial) (fun _ _ _ ↦ trivial)
            (createApiKey_grounded ⟨u, m, List.mem_cons_self⟩)
    · rw [handle]
      apply validateApiKey_grounded
      intro hash past k hk
      exact traces_wrap (fun _ ↦ trivial) (fun _ _ _ ↦ trivial) (send_grounded hk)
  · rw [not_or] at hroute
    apply serve_spared.mono (fun past o h ↦ ?_) fun _ _ h ↦ h
    cases o with
    | sql s =>
      cases s with
      | apiKeyCreate => exact absurd (h.2.1 _ rfl) hroute.1
      | messageCreate => exact absurd (h.2.1 _ rfl) hroute.2
      | _ => trivial
    | _ => trivial

end Handlers

/-! ### Runs -/

/-- The request that created the organization has made its user an admin, who still is one. -/
def Founded (env : Env) (sent : Nat → Route × Request) (w : World) (orgID : Uuid) : Prop :=
  ∃ m ∈ w.db.memberships, m.orgID = orgID ∧ m.role = .admin ∧
    ∃ n, Founds env (sent n).1 (sent n).2 (w.past (.client n)) m

theorem Founds.mono {env : Env} {route : Route} {r : Request} {past past' : List (Event Op.Res)}
    {m : Membership} (h : Founds env route r past m) (hsub : past ⊆ past') :
    Founds env route r past' m where
  org := by
    obtain ⟨o, org, ho, hid⟩ := h.org
    exact ⟨o, org, hsub ho, hid⟩
  role := h.role
  user := by
    rcases h.user with ⟨hroute, u, user, hu, hid⟩ | ⟨hroute, token, t, htoken, ht, hu⟩
    · exact .inl ⟨hroute, u, user, hsub hu, hid⟩
    · exact .inr ⟨hroute, token, t, htoken, hsub ht, hu⟩

theorem Founds.congr {env : Env} {route : Route} {r : Request} {past : List (Event Op.Res)}
    {m m' : Membership} (h : Founds env route r past m) (huser : m'.userID = m.userID)
    (horg : m'.orgID = m.orgID) (hrole : m'.role = m.role) : Founds env route r past m' where
  org := by
    rw [horg]
    exact h.org
  role := hrole.trans h.role
  user := by
    rw [huser]
    exact h.user

/-- What each process keeps to. -/
def ground : Proc → List (Event Op.Res) → Op → Prop
  | .client _ => Grounded
  | _ => fun _ o ↦ background o = true

section Run

variable {env : Env} {sent : Nat → Route × Request} {G : World → Proc → Op → Prop} {now : Time}
  {c c₀ : Config Proc World Op Op.Res} {orgID : Uuid}

theorem grounded (h : (system env sent G).Reachable (World.start now) c) (i : Proc) :
    Valid (ground i) (c.state.past i) := by
  apply (system_records env sent G).valid (fun _ ↦ rfl) ?_ h i
  rintro (n | _ | n) past hp
  · exact Prog.Traces.of_uses (fun _ _ h ↦ h) (fun _ _ ↦ trivial) (iteration_uses _) past
  · exact Prog.Traces.of_uses (fun _ _ h ↦ h) (fun _ _ ↦ trivial) processRetries_uses past
  · exact serve_grounded

/-- A founder stays while the organization does. -/
theorem Founded.stays (hf : Founded env sent c₀.state orgID)
    (h₀ : (system env sent G).Reachable (World.start now) c₀)
    (hto : ReflTransGen (system env sent G).Step c₀ c) {org : Organization}
    (horg : org ∈ c.state.db.organizations) (hid : org.id = orgID) :
    Founded env sent c.state orgID := by
  obtain ⟨m, hm, ho, hrole, n, hfounds⟩ := hf
  rcases World.membership_stays system_exec hto (sound h₀) hm with hstill | hgone
  · exact ⟨m, hstill, ho, hrole, n, hfounds.mono ((system_records env sent G).subset hto _)⟩
  · exact absurd (hid.trans ho.symm) (hgone.none org horg)

/-- The organization of a membership has its founder as an admin. -/
theorem member_founded (h : (system env sent G).Reachable (World.start now) c) :
    ∀ m ∈ c.state.db.memberships, Founded env sent c.state m.orgID := by
  refine h.induct (I := fun c ↦ ∀ m ∈ c.state.db.memberships, Founded env sent c.state m.orgID) ?_ ?_
  · intro m hm
    cases hm
  · intro c c' hreach ih hstep
    have hreach' := hreach.tail hstep
    intro m hm
    obtain ⟨org, horg, hid⟩ := (sound hreach').references.memberships m hm
    have hlater {m₁ : Membership} (hm₁ : m₁ ∈ c.state.db.memberships) (ho : m₁.orgID = m.orgID) :
        Founded env sent c'.state m.orgID := by
      rw [← ho]
      exact (ih m₁ hm₁).stays hreach (.single hstep) horg (hid.trans ho.symm)
    cases hstep with
    | again => exact ih m hm
    | @act i o k r s' hp hx =>
      by_cases hs : ∃ s, o = .sql s
      · obtain ⟨s, rfl⟩ := hs
        rcases World.Exec.sql hx.2 with ⟨-, hd⟩ | ⟨ch, -, hexec, -⟩
        · exact hlater (hd ▸ hm) rfl
        · rcases membership_inserted hexec hm with hold | ⟨m₀, he, huser, ho, hrole⟩
          · exact hlater hold rfl
          · cases he
            have hjustified := (system_records env sent G).justified (promised hreach' i) hx
            cases i with
            | worker n => cases hjustified
            | scheduler => cases hjustified
            | client n =>
              rcases hjustified with hfounds | ⟨inv, htakes, ho', -⟩
              · -- The founder itself.
                refine ⟨m, hm, rfl, hrole.trans hfounds.role, n, ?_⟩
                apply (hfounds.congr huser ho hrole).mono
                exact (system_records env sent G).subset (.single (.act hp hx)) _
              · -- A guest, invited by an admin.
                obtain ⟨-, -, -, -, -, -, -, -, -, -, -, c₁, -, -, h₁, hto, m₁, hm₁, -, ho₁, -⟩ :=
                  issued_of_read hreach htakes.read
                have hsame : m₁.orgID = m.orgID := ho₁.trans (ho'.trans ho.symm)
                rcases World.membership_stays system_exec hto (sound h₁) hm₁ with hstill | hgone
                · exact hlater hstill hsame
                · have hgone' := World.gone_stays system_exec (.single (.act hp hx)) hgone
                  exact absurd (hid.trans hsame.symm) (hgone'.none org horg)
      · exact hlater (World.Exec.db_eq hx.2 (fun s he ↦ hs ⟨s, he⟩) ▸ hm) rfl

/-- So has one of which a process has read a membership, while it exists. -/
theorem read_founded (h : (system env sent G).Reachable (World.start now) c) {i : Proc} {u : Uuid}
    {m : Membership} (hread : (Stmt.membershipFindByUserAndOrgID u orgID).returned m ∈ c.state.past i)
    {org : Organization} (horg : org ∈ c.state.db.organizations) (hid : org.id = orgID) :
    Founded env sent c.state orgID := by
  obtain ⟨c₀, ch, db', h₀, hto, hexec⟩ := returned_then h hread
  obtain ⟨hm, -, rfl⟩ := MembershipRepository.findByUserAndOrgID_ok (Prod.mk.inj hexec).1
  exact (member_founded h₀ m hm).stays h₀ hto horg hid

theorem invitation_founded (h : (system env sent G).Reachable (World.start now) c) :
    ∀ inv ∈ c.state.db.invitations, Founded env sent c.state inv.orgID := by
  intro inv hinv
  obtain ⟨org, horg, hid⟩ := (sound h).references.invitations inv hinv
  obtain ⟨i, inv₀, inv₁, hmem, -, -, ho⟩ := (inserted h).invitations inv hinv
  obtain ⟨newer, older, hpast, hp⟩ := (promised h i).justified hmem
  cases i with
  | worker n => cases hp
  | scheduler => cases hp
  | client n =>
    obtain ⟨u, m, -, -, hread, -⟩ := (show Invites env (sent n).1 (sent n).2 older inv₀ from hp).admin
    have hsame : inv₀.orgID = inv.orgID := congrArg Prod.fst ho
    have hread' : (Stmt.membershipFindByUserAndOrgID u inv₀.orgID).returned m ∈
        c.state.past (.client n) := by
      rw [hpast]
      exact List.mem_append_right _ (List.mem_cons_of_mem _ hread)
    rw [← hsame]
    exact read_founded h hread' horg (hid.trans hsame.symm)

theorem apiKey_founded (h : (system env sent G).Reachable (World.start now) c) :
    ∀ k ∈ c.state.db.apiKeys, Founded env sent c.state k.orgID := by
  intro k hk
  obtain ⟨org, horg, hid⟩ := (sound h).references.apiKeys k hk
  have hback : ∃ i, ∃ e ∈ c.state.past i, ∃ k₀, e = (Stmt.apiKeyCreate k₀).returned k := by
    apply World.goes_back (I := fun db k ↦ k ∈ db.apiKeys)
      (fun _ hk ↦ (List.not_mem_nil hk).elim) ?_ h hk
    intro s ch db r db' hx k hk
    rcases (apiKey_rows hx k).mp hk with hnew | ⟨hold, -⟩
    · exact .inr hnew
    · exact .inl ⟨k, hold, fun _ h ↦ h⟩
  obtain ⟨i, e, he, k₀, rfl⟩ := hback
  obtain ⟨c₀, ch, db', -, -, hexec⟩ := returned_then h he
  have hsame : k.orgID = k₀.orgID := by
    rcases Stmt.write_inv hexec with ⟨a, ha, hc⟩ | ⟨e', he', -⟩
    · cases ha
      rw [(ApiKeyRepository.create_ok hc).1]
    · cases he'
  obtain ⟨newer, older, hpast, hg⟩ := (grounded h i).justified he
  cases i with
  | worker n => cases hg
  | scheduler => cases hg
  | client n =>
    obtain ⟨u, m, hread⟩ := hg
    have hread' : (Stmt.membershipFindByUserAndOrgID u k₀.orgID).returned m ∈
        c.state.past (.client n) := by
      rw [hpast]
      exact List.mem_append_right _ (List.mem_cons_of_mem _ hread)
    rw [hsame]
    exact read_founded h hread' horg (hid.trans hsame)

theorem message_founded (h : (system env sent G).Reachable (World.start now) c) :
    ∀ row ∈ c.state.db.messages, Founded env sent c.state row.orgID := by
  intro row hrow
  obtain ⟨org, horg, hid⟩ := (sound h).references.messages row hrow
  obtain ⟨i, message, a, he, hof⟩ := Content.created h row hrow
  obtain ⟨newer, older, hpast, hg⟩ := (grounded h i).justified he
  cases i with
  | worker n => cases hg
  | scheduler => cases hg
  | client n =>
    obtain ⟨hash, k, hread, hsame⟩ := hg
    have hread' : (Stmt.apiKeyFindByHashedKey hash).returned k ∈ c.state.past (.client n) := by
      rw [hpast]
      exact List.mem_append_right _ (List.mem_cons_of_mem _ hread)
    obtain ⟨c₀, ch, db', h₀, hto, hexec⟩ := returned_then h hread'
    have hk : k ∈ c₀.state.db.apiKeys :=
      List.mem_of_find?_eq_some (elim_ok.mp (Prod.mk.inj hexec).1)
    have hkey := apiKey_founded h₀ k hk
    rw [hsame, ← hof.org] at hkey
    exact hkey.stays h₀ hto horg hid

/-- The organization of a membership, an invitation, a key or a message has its founder as an admin:
no organization is left to nobody while anything is stored for it. -/
theorem founder_remains (h : (system env sent G).Reachable (World.start now) c) :
    (∀ m ∈ c.state.db.memberships, Founded env sent c.state m.orgID) ∧
      (∀ inv ∈ c.state.db.invitations, Founded env sent c.state inv.orgID) ∧
      (∀ k ∈ c.state.db.apiKeys, Founded env sent c.state k.orgID) ∧
      ∀ row ∈ c.state.db.messages, Founded env sent c.state row.orgID :=
  ⟨member_founded h, invitation_founded h, apiKey_founded h, message_founded h⟩

end Run

/-- Ann is an admin of her organization, and Bob is invited to it. -/
theorem founder_remains_sample : ∃ c, (system sampleEnv sampleSent anyStep).Reachable (World.start 0) c ∧
    (c.state.db.invitations.rows.map Invitation.orgID) = [⟨3⟩] ∧
      Founded sampleEnv sampleSent c.state ⟨3⟩ := by
  have hrun : ((sampleRun (fun _ _ _ ↦ true) sampleInvited).map fun c ↦
      c.state.db.invitations.rows.map Invitation.orgID) = some [⟨3⟩] := by
    decide +kernel
  obtain ⟨c, h, hseen⟩ := sample_seen (fun _ _ _ _ ↦ trivial) hrun
  obtain ⟨inv, hinv, hid⟩ := List.mem_map.mp (hseen ▸ List.mem_singleton_self (⟨3⟩ : Uuid))
  exact ⟨c, h, hseen, hid ▸ (founder_remains h).2.1 inv hinv⟩

end Chis.Access
