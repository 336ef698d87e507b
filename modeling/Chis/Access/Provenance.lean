import Chis.Access.Requests

/-!
# Where memberships come from

Every row of a membership or an invitation goes back to the statement that inserted it, and that
statement to what its request had read. So every membership was either founded together with its
organization or offered by an invitation that an admin had created.
-/

namespace Chis

/-- What an invitation offers, and by whom: no statement changes it. -/
def Invitation.offer (inv : Invitation) : Uuid × String × Role × Option Uuid × Time :=
  (inv.orgID, inv.email, inv.role, inv.invitedBy, inv.expiresAt)

namespace Access

open Program Api Relation

/-! ### Rows and the statements that inserted them -/

section Rows

variable {env : Platform} {ch : Choice} {db db' : Db} {s : Stmt} {r : Except Err s.Ok}

/-- A membership was there before the statement, or is its answer. -/
theorem membership_inserted (hx : s.exec env ch db = (r, db')) {m : Membership}
    (hm : m ∈ db'.memberships) :
    m ∈ db.memberships ∨ ∃ m₀ : Membership,
      (⟨.sql s, r⟩ : Event Op.Res) = (Stmt.membershipCreate m₀).returned m ∧
        m.userID = m₀.userID ∧ m.orgID = m₀.orgID ∧ m.role = m₀.role := by
  by_cases hs : ∃ m₀, s = .membershipCreate m₀
  · obtain ⟨m₀, rfl⟩ := hs
    rcases Stmt.write_inv hx with ⟨a, rfl, hc⟩ | ⟨e, -, -, rfl⟩
    · obtain ⟨ha, memberships, hins, rfl⟩ := MembershipRepository.create_ok hc
      rcases (Relational.Table.mem_of_insert? hins m).mp hm with hm | rfl
      · exact .inl hm
      · exact .inr ⟨m₀, rfl, by rw [ha], by rw [ha], by rw [ha]⟩
    · exact .inl hm
  · left
    have hc := Stmt.exec_change env ch db s
    rw [hx] at hc
    cases hc with
    | membershipCreate => exact absurd ⟨_, rfl⟩ hs
    | organizationDelete => exact ((Relational.Table.mem_filter _ _ _).mp hm).1
    | messageUpdateStatus hu =>
      obtain ⟨_, rfl⟩ := MessageRepository.updateStatus_ok hu
      exact hm
    | _ => exact hm

/-- An invitation goes back to a row there was before the statement, or to its answer. -/
theorem invitation_inserted (hx : s.exec env ch db = (r, db')) {inv : Invitation}
    (hi : inv ∈ db'.invitations) :
    (∃ inv₀ ∈ db.invitations, inv₀.id = inv.id ∧ inv₀.offer = inv.offer) ∨
      ∃ inv₀ : Invitation, (⟨.sql s, r⟩ : Event Op.Res) = (Stmt.invitationCreate inv₀).returned inv ∧
        inv₀.offer = inv.offer := by
  have hmodify {id : Uuid} {f : Invitation → Invitation} (hf : ∀ i, (f i).id = i.id)
      (ho : ∀ i, (f i).offer = i.offer) (hi : inv ∈ db.invitations.modify id f hf) :
      ∃ inv₀ ∈ db.invitations, inv₀.id = inv.id ∧ inv₀.offer = inv.offer := by
    obtain ⟨inv₀, h₀, rfl⟩ := (Relational.Table.mem_modify _ _ _ _ _).mp hi
    refine ⟨inv₀, h₀, ?_⟩
    split
    · exact ⟨(hf inv₀).symm, (ho inv₀).symm⟩
    · exact ⟨rfl, rfl⟩
  by_cases hs : ∃ inv₀, s = .invitationCreate inv₀
  · obtain ⟨inv₀, rfl⟩ := hs
    rcases Stmt.write_inv hx with ⟨a, rfl, hc⟩ | ⟨e, -, -, rfl⟩
    · obtain ⟨ha, invitations, hins, rfl⟩ := InvitationRepository.create_ok hc
      rcases (Relational.Table.mem_of_insert? hins inv).mp hi with hi | rfl
      · exact .inl ⟨inv, hi, rfl, rfl⟩
      · exact .inr ⟨inv₀, rfl, by rw [ha]; rfl⟩
    · exact .inl ⟨inv, hi, rfl, rfl⟩
  · left
    have hc := Stmt.exec_change env ch db s
    rw [hx] at hc
    cases hc with
    | invitationCreate => exact absurd ⟨_, rfl⟩ hs
    | organizationDelete => exact ⟨inv, ((Relational.Table.mem_filter _ _ _).mp hi).1, rfl, rfl⟩
    | invitationDelete => exact ⟨inv, ((Relational.Table.mem_filter _ _ _).mp hi).1, rfl, rfl⟩
    | invitationUpdateStatus => exact hmodify (by intro _; rfl) (by intro _; rfl) hi
    | invitationAccept => exact hmodify (by intro _; rfl) (by intro _; rfl) hi
    | messageUpdateStatus hu =>
      obtain ⟨_, rfl⟩ := MessageRepository.updateStatus_ok hu
      exact ⟨inv, hi, rfl, rfl⟩
    | _ => exact ⟨inv, hi, rfl, rfl⟩

end Rows

/-! ### Runs -/

/-- The operations by which access is granted. -/
def grants : Op → Bool
  | .sql (.membershipCreate _) | .sql (.invitationCreate _) | .sql (.invitationUpdateStatus _ _)
  | .sql (.invitationAccept _ _) | .sql (.invitationDelete _) => true
  | _ => false

/-- What each process promises of its operations. -/
def promise (sent : Nat → Route × Request) (env : Env) : Proc → List (Event Op.Res) → Op → Prop
  | .client n => Justified env (sent n).1 (sent n).2
  | _ => fun _ o ↦ grants o = false

private theorem not_grants {o : Op} (h : background o = true) : grants o = false := by
  cases o with
  | sql s => cases s <;> first | rfl | cases h
  | _ => rfl

section Run

variable {env : Env} {sent : Nat → Route × Request} {G : World → Proc → Op → Prop} {now : Time}
  {c : Config Proc World Op Op.Res}

/-- In every run, every process keeps its promise. -/
theorem promised (h : (system env sent G).Reachable (World.start now) c) (i : Proc) :
    Valid (promise sent env i) (c.state.past i) := by
  refine (system_records env sent G).valid (fun _ ↦ rfl) ?_ h i
  rintro (n | _ | n) p hp
  · refine Prog.Traces.of_uses (fun _ _ h ↦ h) (fun _ _ ↦ trivial) ?_ p
    exact Prog.Uses.mono (fun o ↦ not_grants) (iteration_uses _)
  · refine Prog.Traces.of_uses (fun _ _ h ↦ h) (fun _ _ ↦ trivial) ?_ p
    exact Prog.Uses.mono (fun o ↦ not_grants) processRetries_uses
  · rcases hp with hp | rfl
    · exact absurd rfl (hp n)
    · exact serve_careful

/-- A statement that the services ran and its answer. -/
theorem exec_ok {G : World → Proc → Op → Prop} {i : Proc} {s : Stmt} {w w' : World}
    {a : s.Ok} (h : (system env sent G).exec i (.sql s) w (.ok a) w') :
    ∃ ch, s.exec env.toPlatform ch w.db = (.ok a, w'.db) := by
  rcases World.Exec.sql h.2 with ⟨hr, -⟩ | ⟨ch, -, hx, -⟩
  · cases hr
  · exact ⟨ch, hx⟩

/-- What is in the tables goes back to the past of some process. -/
structure Inserted (w : World) : Prop where
  memberships : ∀ m ∈ w.db.memberships, ∃ i, ∃ m₀ : Membership,
    (Stmt.membershipCreate m₀).returned m ∈ w.past i ∧
      m.userID = m₀.userID ∧ m.orgID = m₀.orgID ∧ m.role = m₀.role
  invitations : ∀ inv ∈ w.db.invitations, ∃ i, ∃ inv₀ inv₁ : Invitation,
    (Stmt.invitationCreate inv₀).returned inv₁ ∈ w.past i ∧ inv₁.id = inv.id ∧
      inv₁.offer = inv.offer ∧ inv₀.offer = inv.offer

private theorem Inserted.step {i : Proc} {o : Op} {w w' : World} {r : o.Res} (h : Inserted w)
    (hx : (system env sent G).exec i o w r w') : Inserted w' := by
  obtain ⟨hi, hj⟩ := system_records env sent G i o w r w' hx
  have hold (j : Proc) : w.past j ⊆ w'.past j := by
    by_cases hji : j = i
    · rw [hji, hi]
      exact List.subset_cons_self _ _
    · rw [hj j hji]
      exact List.Subset.refl _
  by_cases hs : ∃ s, o = .sql s
  · obtain ⟨s, rfl⟩ := hs
    rcases World.Exec.sql hx.2 with ⟨-, hd⟩ | ⟨ch, -, hexec, -⟩
    · constructor
      · intro m hm
        rw [hd] at hm
        obtain ⟨j, m₀, hmem, hrest⟩ := h.memberships m hm
        exact ⟨j, m₀, hold j hmem, hrest⟩
      · intro inv hinv
        rw [hd] at hinv
        obtain ⟨j, inv₀, inv₁, hmem, hrest⟩ := h.invitations inv hinv
        exact ⟨j, inv₀, inv₁, hold j hmem, hrest⟩
    · constructor
      · intro m hm
        rcases membership_inserted hexec hm with hm | ⟨m₀, he, hrest⟩
        · obtain ⟨j, m₀, hmem, hrest⟩ := h.memberships m hm
          exact ⟨j, m₀, hold j hmem, hrest⟩
        · refine ⟨i, m₀, ?_, hrest⟩
          rw [hi, ← he]
          exact List.mem_cons_self
      · intro inv hinv
        rcases invitation_inserted hexec hinv with ⟨inv₂, hinv, hid, ho⟩ | ⟨inv₀, he, ho⟩
        · obtain ⟨j, inv₀, inv₁, hmem, hid', ho', ho''⟩ := h.invitations inv₂ hinv
          exact ⟨j, inv₀, inv₁, hold j hmem, hid'.trans hid, ho'.trans ho, ho''.trans ho⟩
        · refine ⟨i, inv₀, inv, ?_, rfl, rfl, ho⟩
          rw [hi, ← he]
          exact List.mem_cons_self
  · have hd : w'.db = w.db := World.Exec.db_eq hx.2 fun s he ↦ hs ⟨s, he⟩
    constructor
    · intro m hm
      rw [hd] at hm
      obtain ⟨j, m₀, hmem, hrest⟩ := h.memberships m hm
      exact ⟨j, m₀, hold j hmem, hrest⟩
    · intro inv hinv
      rw [hd] at hinv
      obtain ⟨j, inv₀, inv₁, hmem, hrest⟩ := h.invitations inv hinv
      exact ⟨j, inv₀, inv₁, hold j hmem, hrest⟩

theorem inserted (h : (system env sent G).Reachable (World.start now) c) : Inserted c.state := by
  refine h.induct (I := fun c ↦ Inserted c.state) ⟨?_, ?_⟩ ?_
  · intro m hm
    cases hm
  · intro inv hinv
    cases hinv
  · intro c c' _ ih hstep
    cases hstep with
    | act _ hx => exact ih.step hx
    | again => exact ih

/-! ### Provenance -/

/-- The invitation was created by a request of an admin of its organization: its `RequireAdmin` had
read a membership that the user held then. -/
def Issued (env : Env) (sent : Nat → Route × Request) (G : World → Proc → Op → Prop) (now : Time)
    (c : Config Proc World Op Op.Res) (inv : Invitation) : Prop :=
  ∃ n newer older, ∃ inv₀ inv₁ : Invitation,
    c.state.past (.client n) = newer ++ (Stmt.invitationCreate inv₀).returned inv₁ :: older ∧
    inv₁.id = inv.id ∧ inv₁.offer = inv.offer ∧ inv₀.offer = inv.offer ∧
    Invites env (sent n).1 (sent n).2 older inv₀ ∧
    ∃ u c₀, inv.invitedBy = some u ∧ Authenticated env (sent n).2 older u ∧
      (system env sent G).Reachable (World.start now) c₀ ∧
      ReflTransGen (system env sent G).Step c₀ c ∧
      ∃ m ∈ c₀.state.db.memberships, m.userID = u ∧ m.orgID = inv.orgID ∧ m.role = .admin

/-- An invitation that a request has read was issued by an admin. -/
theorem issued_of_read (h : (system env sent G).Reachable (World.start now) c) {n : Nat}
    {inv : Invitation} (hread : Read (c.state.past (.client n)) inv) :
    Issued env sent G now c inv := by
  have hrec := system_records env sent G
  have hrow : ∃ c₀, (system env sent G).Reachable (World.start now) c₀ ∧
      ReflTransGen (system env sent G).Step c₀ c ∧ inv ∈ c₀.state.db.invitations := by
    rcases hread with ⟨token, hmem⟩ | ⟨id, hmem⟩
    · obtain ⟨c₀, c₁, h₀, hx, hs, h₁⟩ := hrec.happened (fun _ ↦ rfl) h hmem
      obtain ⟨ch, hx⟩ := exec_ok hx
      exact ⟨c₀, h₀, .head hs h₁, InvitationRepository.findByToken_ok (Prod.mk.inj hx).1⟩
    · obtain ⟨c₀, c₁, h₀, hx, hs, h₁⟩ := hrec.happened (fun _ ↦ rfl) h hmem
      obtain ⟨ch, hx⟩ := exec_ok hx
      exact ⟨c₀, h₀, .head hs h₁, (InvitationRepository.findByID_ok (Prod.mk.inj hx).1).1⟩
  obtain ⟨c₀, h₀, hto, hinv⟩ := hrow
  obtain ⟨i, inv₀, inv₁, hmem, hid, ho, ho'⟩ := (inserted h₀).invitations inv hinv
  have hmem' := hrec.subset hto i hmem
  obtain ⟨newer, older, hpast, hp⟩ := (promised h i).justified hmem'
  cases i with
  | worker k => cases hp
  | scheduler => cases hp
  | client n' =>
    have hinvites : Invites env (sent n').1 (sent n').2 older inv₀ := hp
    obtain ⟨u, m, hby, hauth, hm, hrole⟩ := hinvites.admin
    have hm' : (Stmt.membershipFindByUserAndOrgID u inv₀.orgID).returned m ∈
        c.state.past (.client n') := by
      rw [hpast]
      exact List.mem_append_right _ (List.mem_cons_of_mem _ hm)
    obtain ⟨c₂, c₃, h₂, hx, hs, h₃⟩ := hrec.happened (fun _ ↦ rfl) h hm'
    obtain ⟨ch, hx⟩ := exec_ok hx
    obtain ⟨hrow, huser, horg⟩ := MembershipRepository.findByUserAndOrgID_ok (Prod.mk.inj hx).1
    simp only [Invitation.offer, Prod.mk.injEq] at ho'
    refine ⟨n', newer, older, inv₀, inv₁, hpast, hid, ho, ?_, hinvites, u, c₂, ?_, hauth, h₂,
      .head hs h₃, m, hrow, huser, ?_, hrole⟩
    · simp only [Invitation.offer, Prod.mk.injEq]
      exact ho'
    · rw [← ho'.2.2.2.1]
      exact hby
    · rw [← ho'.1]
      exact horg

/-- Every membership was inserted by a request of its user that had founded the organization, or
that had taken up an invitation to that organization, with that role and addressed to that user,
issued by an admin of the organization. -/
theorem membership_provenance
    (h : (system env sent anyStep).Reachable (World.start now) c) :
    ∀ m ∈ c.state.db.memberships, ∃ n newer older, ∃ m₀ : Membership,
      c.state.past (.client n) = newer ++ (Stmt.membershipCreate m₀).returned m :: older ∧
      m.userID = m₀.userID ∧ m.orgID = m₀.orgID ∧ m.role = m₀.role ∧
      (Founds env (sent n).1 (sent n).2 older m₀ ∨
        ∃ inv, TakesUp env (sent n).1 (sent n).2 older m.userID inv ∧ inv.orgID = m.orgID ∧
          inv.role = m.role ∧ Issued env sent anyStep now c inv) := by
  intro m hm
  obtain ⟨i, m₀, hmem, huser, horg, hrole⟩ := (inserted h).memberships m hm
  obtain ⟨newer, older, hpast, hp⟩ := (promised h i).justified hmem
  cases i with
  | worker k => cases hp
  | scheduler => cases hp
  | client n =>
    refine ⟨n, newer, older, m₀, hpast, huser, horg, hrole, ?_⟩
    rcases hp with hp | ⟨inv, htakes, ho, hr⟩
    · exact .inl hp
    · right
      have hread : Read (c.state.past (.client n)) inv := by
        rw [hpast]
        rcases htakes.read with ⟨token, hread⟩ | ⟨id, hread⟩
        · exact .inl ⟨token, List.mem_append_right _ (List.mem_cons_of_mem _ hread)⟩
        · exact .inr ⟨id, List.mem_append_right _ (List.mem_cons_of_mem _ hread)⟩
      rw [huser, horg, hrole]
      exact ⟨inv, htakes, ho, hr, issued_of_read h hread⟩

end Run

/-- Bob's memberships of his own organization and of Ann's. -/
theorem membership_provenance_sample :
    ∃ c, (c.state.db.memberships.rows.map fun m ↦ (m.userID, m.orgID, m.role)) =
        [(⟨1⟩, ⟨3⟩, .admin), (⟨5⟩, ⟨7⟩, .admin), (⟨5⟩, ⟨3⟩, .member)] ∧
      ∀ m ∈ c.state.db.memberships, ∃ n newer older, ∃ m₀ : Membership,
        c.state.past (.client n) = newer ++ (Stmt.membershipCreate m₀).returned m :: older ∧
        m.userID = m₀.userID ∧ m.orgID = m₀.orgID ∧ m.role = m₀.role ∧
        (Founds sampleEnv (sampleSent n).1 (sampleSent n).2 older m₀ ∨
          ∃ inv, TakesUp sampleEnv (sampleSent n).1 (sampleSent n).2 older m.userID inv ∧
            inv.orgID = m.orgID ∧ inv.role = m.role ∧
            Issued sampleEnv sampleSent anyStep 0 c inv) := by
  have hrun : ((sampleRun (fun _ _ _ ↦ true)
      (sampleInvited ++ sampleTurns 3 [0, 0, 0, 0, 0, 10, 0, 0, 0, 0])).map fun c ↦
        c.state.db.memberships.rows.map fun m ↦ (m.userID, m.orgID, m.role)) =
      some [(⟨1⟩, ⟨3⟩, .admin), (⟨5⟩, ⟨7⟩, .admin), (⟨5⟩, ⟨3⟩, .member)] := by
    decide +kernel
  obtain ⟨c, h, hm⟩ := sample_seen (fun _ _ _ _ ↦ trivial) hrun
  exact ⟨c, hm, membership_provenance h⟩

end Access

end Chis
