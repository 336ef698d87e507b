import Chis.Access.Administration

/-!
# Who can take up an invitation

A user becomes a member by an invitation to the address of the user's own account. Nobody has
verified that address, and of the two routes one asks for the token and the other for the id that
`GetPendingInvitations` lists.
-/

namespace Chis.Access

open Program Api Relation

section Run

variable {env : Env} {sent : Nat → Route × Request} {G : World → Proc → Op → Prop} {now : Time}
  {c : Config Proc World Op Op.Res} {w' : World} {n : Nat} {m : Membership}

/-- The next operation of client `n` makes a user a member. -/
structure Gains (env : Env) (sent : Nat → Route × Request) (G : World → Proc → Op → Prop)
    (c : Config Proc World Op Op.Res) (n : Nat) (w' : World) (m : Membership) : Prop where
  step : ∃ o k, ∃ r : o.Res, c.procs (.client n) = .op o k ∧
    (system env sent G).exec (.client n) o c.state r w'
  before : m ∉ c.state.db.memberships
  after : m ∈ w'.db.memberships

/-- The request names the invitation by its id. -/
def NamesId (route : Route) (id : Uuid) : Prop :=
  ∃ idParam, route = .respondToInvitation idParam ∧ Uuid.parse idParam = some id

/-- A membership comes from one statement, which its request was permitted to run. -/
theorem Gains.created (h : (system env sent G).Reachable (World.start now) c)
    (hg : Gains env sent G c n w' m) : ∃ m₀ : Membership, m.userID = m₀.userID ∧
      m.orgID = m₀.orgID ∧
      Permitted env (sent n).1 (sent n).2 (c.state.past (.client n)) (.sql (.membershipCreate m₀)) := by
  obtain ⟨o, k, r, hp, hx⟩ := hg.step
  have hd := duty_next h hp hx
  by_cases hs : ∃ s, o = .sql s
  · obtain ⟨s, rfl⟩ := hs
    rcases World.Exec.sql hx.2 with ⟨-, hdb⟩ | ⟨ch, -, hexec, -⟩
    · exact absurd (hdb ▸ hg.after) hg.before
    · rcases membership_inserted hexec hg.after with hm | ⟨m₀, he, huser, horg, -⟩
      · exact absurd hm hg.before
      · cases he
        exact ⟨m₀, huser, horg, hd⟩
  · exact absurd (World.Exec.db_eq hx.2 (fun s he ↦ hs ⟨s, he⟩) ▸ hg.after) hg.before

private theorem user_inserted {ch : Choice} {db db' : Db} {s : Stmt} (h : s.Change ch db db')
    {u : User} (hu : u ∈ db'.users) :
    u ∈ db.users ∨ ∃ user, s = .userCreate user ∧ u.emailVerified = user.emailVerified := by
  cases h with
  | userCreate hins =>
    rcases (Relational.Table.mem_of_insert? hins u).mp hu with hu | rfl
    · exact .inl hu
    · exact .inr ⟨_, rfl, rfl⟩
  | messageUpdateStatus hm =>
    obtain ⟨_, rfl⟩ := MessageRepository.updateStatus_ok hm
    exact .inl hu
  | _ => exact .inl hu

/-- No user's address is ever verified. -/
theorem unverified (h : (system env sent G).Reachable (World.start now) c) :
    ∀ u ∈ c.state.db.users, u.emailVerified = false := by
  refine h.induct (I := fun c ↦ ∀ u ∈ c.state.db.users, u.emailVerified = false) ?_ ?_
  · intro u hu
    cases hu
  · intro c c' hreach ih hstep
    cases hstep with
    | act hp hx =>
      intro u hu
      rcases hx.2.change with hd | ⟨s, ch, rfl, hc, -⟩
      · rw [hd] at hu
        exact ih u hu
      · rcases user_inserted hc hu with hu | ⟨user, rfl, he⟩
        · exact ih u hu
        · obtain ⟨n, -, hperm⟩ := permitted_next hreach hp hx rfl
          rw [he]
          exact hperm
    | again => exact ih

/-- Who gains a membership by an invitation has presented its token or has a verified address: what
one would expect of an invitation. -/
def Proven (env : Env) (sent : Nat → Route × Request) (now : Time) : Prop :=
  ∀ c n w' m, (system env sent anyStep).Reachable (World.start now) c →
    Gains env sent anyStep c n w' m → (sent n).1 ≠ .register → (sent n).1 ≠ .createOrg →
    ∃ inv c₁, (system env sent anyStep).Reachable (World.start now) c₁ ∧
      ReflTransGen (system env sent anyStep).Step c₁ c ∧ inv ∈ c₁.state.db.invitations ∧
      inv.orgID = m.orgID ∧ (PresentsToken env (sent n).1 (sent n).2 inv.token ∨
        ∃ user ∈ c.state.db.users, user.id = m.userID ∧ user.email = inv.email ∧
          user.emailVerified = true)

/-- Who gains a membership by an invitation has an account under the address invited, which nobody
has verified, and has presented the token or named the id of the invitation. -/
theorem claimed_by_address (h : (system env sent anyStep).Reachable (World.start now) c)
    (hg : Gains env sent anyStep c n w' m) (hregister : (sent n).1 ≠ .register)
    (hcreate : (sent n).1 ≠ .createOrg) :
    ∃ inv c₁, (system env sent anyStep).Reachable (World.start now) c₁ ∧
      ReflTransGen (system env sent anyStep).Step c₁ c ∧ inv ∈ c₁.state.db.invitations ∧
      inv.orgID = m.orgID ∧ RequestedBy env (sent n).2 (c.state.past (.client n)) m.userID ∧
      (PresentsToken env (sent n).1 (sent n).2 inv.token ∨ NamesId (sent n).1 inv.id) ∧
      ∃ user ∈ c.state.db.users, user.id = m.userID ∧ user.email = inv.email ∧
        user.emailVerified = false := by
  obtain ⟨m₀, huser, horg, hperm⟩ := hg.created h
  rcases hperm with hroute | hroute | ⟨inv, he, ⟨user, hu, hemail⟩, ho⟩
  · exact absurd hroute hregister
  · exact absurd hroute hcreate
  · obtain ⟨c₂, _, _, h₂, hto₂, hexec₂⟩ := returned_then h hu
    have hf := (c₂.state.db.users.find?_eq_some_iff _ user).mp (elim_ok.mp (Prod.mk.inj hexec₂).1)
    have hrow := World.user_stays system_exec hto₂ hf.1
    have haddress : ∃ user ∈ c.state.db.users, user.id = m.userID ∧ user.email = inv.email ∧
        user.emailVerified = false :=
      ⟨user, hrow, hf.2.trans huser.symm, hemail, unverified h user hrow⟩
    rw [huser, horg] at *
    cases he.presents with
    | token token hroute hreq hread =>
      obtain ⟨c₁, _, _, h₁, hto, hexec⟩ := returned_then h hread
      have hfound := (Prod.mk.inj hexec).1
      refine ⟨inv, c₁, h₁, hto, InvitationRepository.findByToken_ok hfound, ho, he.authenticated,
        .inl ⟨hroute, ?_⟩, haddress⟩
      rw [InvitationRepository.findByToken_token hfound]
      exact hreq
    | id idParam id hroute hparse hread =>
      obtain ⟨c₁, _, _, h₁, hto, hexec⟩ := returned_then h hread
      obtain ⟨hrow₁, hid⟩ := InvitationRepository.findByID_ok (Prod.mk.inj hexec).1
      refine ⟨inv, c₁, h₁, hto, hrow₁, ho, he.authenticated, .inr ⟨idParam, hroute, ?_⟩, haddress⟩
      rw [hid]
      exact hparse

end Run

/-! ### A sample -/

/-- Somebody has registered with Bob's address, and answers the invitation to it by its id. -/
def sampleClaims : Nat → Route × Request
  | 3 => (.respondToInvitation (Uuid.toString ⟨9⟩),
      sampleRequestOf ⟨5⟩ .nil "\x7b\"action\":\"accept\"\x7d")
  | n => sampleSent n

/-- The memberships, by user and organization. -/
def sampleMembers (w : World) : List (Uuid × Uuid) :=
  w.db.memberships.rows.map fun m ↦ (m.userID, m.orgID)

private theorem sample_gains : ∃ c w' m,
    (system sampleEnv sampleClaims anyStep).Reachable (World.start 0) c ∧
      Gains sampleEnv sampleClaims anyStep c 3 w' m ∧ m.userID = ⟨5⟩ ∧ m.orgID = ⟨3⟩ := by
  have hrun : (sentRuns sampleClaims (sampleInvited ++ sampleTurns 3 [0, 0, 0, 0, 0])
      (sampleTurns 3 [10])).map (fun p ↦ (sampleMembers p.1.state, sampleMembers p.2.state)) =
      some ([(⟨1⟩, ⟨3⟩), (⟨5⟩, ⟨7⟩)], [(⟨1⟩, ⟨3⟩), (⟨5⟩, ⟨7⟩), (⟨5⟩, ⟨3⟩)]) := by decide +kernel
  obtain ⟨c, o, k, r, w', h, hp, hx, hbefore, hafter⟩ := sample_seen_step (f := sampleMembers) hrun
  have hmem : ((⟨5⟩, ⟨3⟩) : Uuid × Uuid) ∈ sampleMembers w' := by
    rw [hafter]
    decide
  obtain ⟨m, hm, he⟩ := List.mem_map.mp hmem
  refine ⟨c, w', m, h, ⟨⟨o, k, r, hp, hx⟩, fun hm' ↦ ?_, hm⟩, congrArg Prod.fst he,
    congrArg Prod.snd he⟩
  have hmem' : ((⟨5⟩, ⟨3⟩) : Uuid × Uuid) ∈ sampleMembers c.state := List.mem_map.mpr ⟨m, hm', he⟩
  rw [hbefore] at hmem'
  exact absurd hmem' (by decide)

/-- They join Ann's organization. -/
theorem claimed_by_address_sample : ∃ c w' m,
    (system sampleEnv sampleClaims anyStep).Reachable (World.start 0) c ∧
      Gains sampleEnv sampleClaims anyStep c 3 w' m ∧ m.userID = ⟨5⟩ ∧ m.orgID = ⟨3⟩ ∧
      ∃ inv c₁, (system sampleEnv sampleClaims anyStep).Reachable (World.start 0) c₁ ∧
        ReflTransGen (system sampleEnv sampleClaims anyStep).Step c₁ c ∧
        inv ∈ c₁.state.db.invitations ∧ inv.orgID = m.orgID ∧
        RequestedBy sampleEnv (sampleClaims 3).2 (c.state.past (.client 3)) m.userID ∧
        (PresentsToken sampleEnv (sampleClaims 3).1 (sampleClaims 3).2 inv.token ∨
          NamesId (sampleClaims 3).1 inv.id) ∧
        ∃ user ∈ c.state.db.users, user.id = m.userID ∧ user.email = inv.email ∧
          user.emailVerified = false := by
  obtain ⟨c, w', m, h, hg, huser, horg⟩ := sample_gains
  exact ⟨c, w', m, h, hg, huser, horg,
    claimed_by_address h hg (fun he ↦ nomatch he) fun he ↦ nomatch he⟩

/-- So they have neither presented the token nor verified the address. -/
theorem claimed_unproven : ¬ Proven sampleEnv sampleClaims 0 := by
  intro hproven
  obtain ⟨c, w', m, h, hg, -, -⟩ := sample_gains
  obtain ⟨inv, c₁, -, -, -, -, ⟨hroute, -⟩ | ⟨user, hu, -, -, hverified⟩⟩ :=
    hproven c 3 w' m h hg (fun he ↦ nomatch he) fun he ↦ nomatch he
  · cases hroute
  · rw [unverified h user hu] at hverified
    cases hverified

end Chis.Access
