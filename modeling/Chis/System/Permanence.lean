import Chis.System.Integrity

/-!
# What stays

No statement deletes a user or changes a membership, no update touches what an invitation says, and
an organization that has been deleted does not come back.
-/

namespace Chis

open Program Relational Relation

/-- What an invitation says: no update changes it. -/
def Invitation.terms (inv : Invitation) : Uuid × String × Role × String × Option Uuid × Time :=
  (inv.orgID, inv.email, inv.role, inv.token, inv.invitedBy, inv.expiresAt)

/-- The organization existed once, and does not any more. -/
structure World.Gone (w : World) (orgID : Uuid) : Prop where
  issued : orgID ∈ w.issued
  none : ∀ o ∈ w.db.organizations, o.id ≠ orgID

/-- A message had the id once, and none has it any more. -/
structure World.Dead (w : World) (id : Uuid) : Prop where
  issued : id ∈ w.issued
  none : ∀ m ∈ w.db.messages, m.id ≠ id

/-! ### One statement -/

section Statements

variable {ch : Choice} {db db' : Db} {s : Stmt}

namespace Stmt.Change

/-- Users stay. -/
theorem user (h : s.Change ch db db') {u : User} (hu : u ∈ db.users) : u ∈ db'.users := by
  cases h with
  | userCreate hins => exact (Table.mem_of_insert? hins u).mpr (.inl hu)
  | messageUpdateStatus hm =>
    obtain ⟨_, rfl⟩ := MessageRepository.updateStatus_ok hm
    exact hu
  | _ => exact hu

/-- A membership goes only with its organization. -/
theorem membership (h : s.Change ch db db') {m : Membership} (hm : m ∈ db.memberships) :
    m ∈ db'.memberships ∨ s = .organizationDelete m.orgID := by
  cases h with
  | membershipCreate hins => exact .inl ((Table.mem_of_insert? hins m).mpr (.inl hm))
  | organizationDelete id =>
    by_cases hid : m.orgID = id
    · rw [hid]
      exact .inr rfl
    · exact .inl ((Table.mem_filter _ _ _).mpr ⟨hm, by simpa using hid⟩)
  | messageUpdateStatus hu =>
    obtain ⟨_, rfl⟩ := MessageRepository.updateStatus_ok hu
    exact .inl hm
  | _ => exact .inl hm

/-- An organization was there before, or has just got a new id. -/
theorem organization (h : s.Change ch db db') {o : Organization} (ho : o ∈ db'.organizations) :
    (∃ o₀ ∈ db.organizations, o₀.id = o.id) ∨ s.inserts = true ∧ o.id = ch.id := by
  cases h with
  | organizationCreate hins =>
    rcases (Table.mem_of_insert? hins o).mp ho with ho | rfl
    · exact .inl ⟨o, ho, rfl⟩
    · exact .inr ⟨rfl, rfl⟩
  | organizationDelete => exact .inl ⟨o, ((Table.mem_filter _ _ _).mp ho).1, rfl⟩
  | rotateSigningSecret =>
    rcases Table.mem_modify_cases (by intro _; rfl) ho with ⟨ho, -⟩ | ⟨o₀, h₀, -, rfl⟩
    · exact .inl ⟨o, ho, rfl⟩
    · exact .inl ⟨o₀, h₀, rfl⟩
  | messageUpdateStatus hu =>
    obtain ⟨_, rfl⟩ := MessageRepository.updateStatus_ok hu
    exact .inl ⟨o, ho, rfl⟩
  | _ => exact .inl ⟨o, ho, rfl⟩

/-- An organization stays until it is deleted, with its secret until that is replaced. -/
theorem organization_stays (h : s.Change ch db db') {o : Organization} (ho : o ∈ db.organizations) :
    s = .organizationDelete o.id ∨ ∃ o' ∈ db'.organizations, o'.id = o.id ∧
      (o'.signingSecret = o.signingSecret ∨ ∃ secret, s = .rotateSigningSecret o.id secret) := by
  cases h with
  | organizationCreate hins =>
    exact .inr ⟨o, (Table.mem_of_insert? hins o).mpr (.inl ho), rfl, .inl rfl⟩
  | organizationDelete id =>
    by_cases hid : o.id = id
    · rw [hid]
      exact .inl rfl
    · exact .inr ⟨o, (Table.mem_filter _ _ _).mpr ⟨ho, by simpa using hid⟩, rfl, .inl rfl⟩
  | rotateSigningSecret orgID newSecret =>
    refine .inr ⟨_, (Table.mem_modify _ _ _ (by intro _; rfl) _).mpr ⟨o, ho, rfl⟩, ?_⟩
    by_cases hid : o.id = orgID
    · subst hid
      rw [if_pos rfl]
      exact ⟨rfl, .inr ⟨newSecret, rfl⟩⟩
    · rw [if_neg hid]
      exact ⟨rfl, .inl rfl⟩
  | messageUpdateStatus hu =>
    obtain ⟨_, rfl⟩ := MessageRepository.updateStatus_ok hu
    exact .inr ⟨o, ho, rfl, .inl rfl⟩
  | _ => exact .inr ⟨o, ho, rfl, .inl rfl⟩

/-- A message was there before, or has just got a new id. -/
theorem message (h : s.Change ch db db') {m : Message} (hm : m ∈ db'.messages) :
    (∃ m₀ ∈ db.messages, m₀.id = m.id) ∨ s.inserts = true ∧ m.id = ch.id := by
  cases h with
  | messageCreate hins =>
    rcases (Table.mem_of_insert? hins m).mp hm with hm | rfl
    · exact .inl ⟨m, hm, rfl⟩
    · exact .inr ⟨rfl, rfl⟩
  | organizationDelete => exact .inl ⟨m, ((Table.mem_filter _ _ _).mp hm).1, rfl⟩
  | messageUpdateStatus hu =>
    obtain ⟨m₀, h₀, rfl⟩ := (MessageRepository.mem_updateStatus hu m).mp hm
    refine .inl ⟨m₀, h₀, ?_⟩
    split <;> rfl
  | messageUpdate msg =>
    obtain ⟨m₀, h₀, rfl⟩ := (MessageRepository.mem_update ch.now msg db m).mp hm
    refine .inl ⟨m₀, h₀, ?_⟩
    split <;> rfl
  | _ => exact .inl ⟨m, hm, rfl⟩

/-- A deletion leaves no organization of its id. -/
theorem deleted {orgID : Uuid} : ∀ o ∈ (OrganizationRepository.delete orgID db).organizations,
    o.id ≠ orgID := by
  intro o ho
  simpa using ((Table.mem_filter _ _ _).mp ho).2

/-- An invitation was there before, on the same terms, or has just got a new id. -/
theorem invitation (h : s.Change ch db db') {inv : Invitation} (hi : inv ∈ db'.invitations) :
    (∃ inv₀ ∈ db.invitations, inv₀.id = inv.id ∧ inv₀.terms = inv.terms) ∨
      s.inserts = true ∧ inv.id = ch.id := by
  cases h with
  | invitationCreate hins =>
    rcases (Table.mem_of_insert? hins inv).mp hi with hi | rfl
    · exact .inl ⟨inv, hi, rfl, rfl⟩
    · exact .inr ⟨rfl, rfl⟩
  | organizationDelete => exact .inl ⟨inv, ((Table.mem_filter _ _ _).mp hi).1, rfl, rfl⟩
  | invitationDelete => exact .inl ⟨inv, ((Table.mem_filter _ _ _).mp hi).1, rfl, rfl⟩
  | invitationUpdateStatus =>
    rcases Table.mem_modify_cases (by intro _; rfl) hi with ⟨hi, -⟩ | ⟨inv₀, h₀, -, rfl⟩
    · exact .inl ⟨inv, hi, rfl, rfl⟩
    · exact .inl ⟨inv₀, h₀, rfl, rfl⟩
  | invitationAccept =>
    rcases Table.mem_modify_cases (by intro _; rfl) hi with ⟨hi, -⟩ | ⟨inv₀, h₀, -, rfl⟩
    · exact .inl ⟨inv, hi, rfl, rfl⟩
    · exact .inl ⟨inv₀, h₀, rfl, rfl⟩
  | messageUpdateStatus hu =>
    obtain ⟨_, rfl⟩ := MessageRepository.updateStatus_ok hu
    exact .inl ⟨inv, hi, rfl, rfl⟩
  | _ => exact .inl ⟨inv, hi, rfl, rfl⟩

end Stmt.Change

/-- How an invitation can enter or leave the table: it is created or deleted, its organization is
deleted, or its status is written. -/
theorem Stmt.invitation_changed {env : Platform} {r : Except Err s.Ok} {inv : Invitation}
    (hx : s.exec env ch db = (r, db')) (h : ¬ (inv ∈ db.invitations ↔ inv ∈ db'.invitations)) :
    s = .organizationDelete inv.orgID ∨ s = .invitationDelete inv.id ∨
      (∃ inv₀ : Invitation, s = .invitationCreate inv₀ ∧ inv₀.orgID = inv.orgID) ∨
      ∃ inv₀ ∈ db.invitations, ∃ inv₁ ∈ db'.invitations, (inv = inv₀ ∨ inv = inv₁) ∧
        inv₁.id = inv₀.id ∧ inv₁.terms = inv₀.terms ∧
        ((∃ status, s = .invitationUpdateStatus inv₀.id status ∧
          InvitationStatus.ofLabel status = some inv₁.status) ∨
        ∃ t, s = .invitationAccept inv₀.id t ∧ inv₁.status = .accepted) := by
  by_cases hs : ∃ id status, s = .invitationUpdateStatus id status
  · obtain ⟨id, status, rfl⟩ := hs
    rcases Stmt.writeUnit_inv hx with ⟨-, hw⟩ | ⟨e, -, -, hd⟩
    · obtain ⟨st, hst, rfl⟩ := InvitationRepository.updateStatus_ok hw
      obtain ⟨inv₀, h₀, rfl, h₁, hinv⟩ := Table.modify_changed (by intro _; rfl) h
      exact .inr (.inr (.inr ⟨inv₀, h₀, _, h₁, hinv, rfl, rfl, .inl ⟨status, rfl, hst⟩⟩))
    · rw [hd] at h
      exact absurd Iff.rfl h
  · have hc := Stmt.exec_change env ch db s
    rw [hx] at hc
    cases hc with
    | organizationDelete id =>
      by_cases hid : inv.orgID = id
      · rw [hid]
        exact .inl rfl
      · refine absurd ⟨fun hi ↦ (Table.mem_filter _ _ _).mpr ⟨hi, by simpa using hid⟩, fun hi ↦ ?_⟩ h
        exact ((Table.mem_filter _ _ _).mp hi).1
    | invitationDelete id =>
      by_cases hid : inv.id = id
      · rw [hid]
        exact .inr (.inl rfl)
      · refine absurd ⟨fun hi ↦ (Table.mem_filter _ _ _).mpr ⟨hi, by simpa using hid⟩, fun hi ↦ ?_⟩ h
        exact ((Table.mem_filter _ _ _).mp hi).1
    | @invitationCreate inv₀ _ hins =>
      have hmem := Table.mem_of_insert? hins inv
      by_cases hi : inv ∈ db.invitations
      · exact absurd (iff_of_true hi (hmem.mpr (.inl hi))) h
      · by_cases he : inv = { inv₀ with
            id := ch.id, acceptedAt := none, createdAt := ch.now, updatedAt := ch.now }
        · exact .inr (.inr (.inl ⟨inv₀, rfl, by rw [he]⟩))
        · refine absurd (iff_of_false hi fun hi' ↦ ?_) h
          exact (hmem.mp hi').elim hi he
    | invitationUpdateStatus => exact absurd ⟨_, _, rfl⟩ hs
    | invitationAccept id t =>
      obtain ⟨inv₀, h₀, rfl, h₁, hinv⟩ := Table.modify_changed (by intro _; rfl) h
      exact .inr (.inr (.inr ⟨inv₀, h₀, _, h₁, hinv, rfl, rfl, .inr ⟨t, rfl, rfl⟩⟩))
    | messageUpdateStatus hu =>
      obtain ⟨_, rfl⟩ := MessageRepository.updateStatus_ok hu
      exact absurd Iff.rfl h
    | _ => exact absurd Iff.rfl h

end Statements

/-! ### One operation -/

namespace World

section Operation

variable {env : Platform} {allow : Choice → Prop} {i : Proc} {o : Op} {w w' : World} {r : o.Res}

/-- An operation leaves the tables alone, or it is a statement, which draws a new id if any. -/
theorem Exec.change (hx : Exec env allow i o w r w') :
    w'.db = w.db ∨ ∃ s ch, o = .sql s ∧ s.Change ch w.db w'.db ∧
      (s.inserts = true → ch.id ∉ w.issued ∧ ch.id ∈ w'.issued) := by
  by_cases hs : ∃ s, o = .sql s
  · obtain ⟨s, rfl⟩ := hs
    rcases hx.sql with ⟨-, hd⟩ | ⟨ch, -, hexec, hid⟩
    · exact .inl hd
    · have hc := Stmt.exec_change env ch w.db s
      rw [hexec] at hc
      exact .inr ⟨s, ch, rfl, hc, hid⟩
  · exact .inl (hx.db_eq fun s he ↦ hs ⟨s, he⟩)

theorem Exec.user (hx : Exec env allow i o w r w') {u : User} (hu : u ∈ w.db.users) :
    u ∈ w'.db.users := by
  rcases hx.change with hd | ⟨s, ch, -, hc, -⟩
  · rwa [hd]
  · exact hc.user hu

theorem Gone.exec {orgID : Uuid} (h : w.Gone orgID) (hx : Exec env allow i o w r w') :
    w'.Gone orgID where
  issued := hx.issued_subset h.issued
  none := by
    intro org horg
    rcases hx.change with hd | ⟨s, ch, rfl, hc, hid⟩
    · rw [hd] at horg
      exact h.none org horg
    · rcases hc.organization horg with ⟨o₀, h₀, he⟩ | ⟨hins, he⟩
      · rw [← he]
        exact h.none o₀ h₀
      · intro hg
        rw [← he, hg] at hid
        exact (hid hins).1 h.issued

theorem Dead.exec {id : Uuid} (h : w.Dead id) (hx : Exec env allow i o w r w') : w'.Dead id where
  issued := hx.issued_subset h.issued
  none := by
    intro m hm
    rcases hx.change with hd | ⟨s, ch, rfl, hc, hid⟩
    · rw [hd] at hm
      exact h.none m hm
    · rcases hc.message hm with ⟨m₀, h₀, he⟩ | ⟨hins, he⟩
      · rw [← he]
        exact h.none m₀ h₀
      · intro hg
        rw [← he, hg] at hid
        exact (hid hins).1 h.issued

/-- A successful deletion of an organization there is leaves it gone. -/
theorem Exec.gone {orgID : Uuid} {u : Unit} (hs : w.Sound) {org : Organization}
    (horg : org ∈ w.db.organizations) (hid : org.id = orgID)
    (hx : Exec env allow i (.sql (.organizationDelete orgID)) w (.ok u) w') : w'.Gone orgID where
  issued := by
    rw [← hid]
    exact hx.issued_subset (hs.generated.organizations org horg)
  none := by
    rcases hx.sql with ⟨hr, -⟩ | ⟨ch, -, hexec, -⟩
    · cases hr
    · rw [← (Prod.mk.inj hexec).2]
      exact Stmt.Change.deleted

/-- Its messages are dead. -/
theorem Exec.dead {orgID : Uuid} {u : Unit} (hs : w.Sound) {m : Message} (hm : m ∈ w.db.messages)
    (horg : m.orgID = orgID)
    (hx : Exec env allow i (.sql (.organizationDelete orgID)) w (.ok u) w') : w'.Dead m.id where
  issued := hx.issued_subset (hs.generated.messages m hm)
  none := by
    rcases hx.sql with ⟨hr, -⟩ | ⟨ch, -, hexec, -⟩
    · cases hr
    · rw [← (Prod.mk.inj hexec).2]
      intro m' hm' hid
      obtain ⟨hm', hkeep⟩ := (Table.mem_filter _ _ _).mp hm'
      rw [w.db.messages.eq_of_key hm' hm hid, horg] at hkeep
      simp at hkeep

/-- A membership stays, or its organization is gone. -/
theorem Exec.membership (hx : Exec env allow i o w r w') (hs : w.Sound) {m : Membership}
    (hm : m ∈ w.db.memberships) : m ∈ w'.db.memberships ∨ w'.Gone m.orgID := by
  rcases hx.change with hd | ⟨s, ch, rfl, hc, -⟩
  · rw [hd]
    exact .inl hm
  · rcases hc.membership hm with hm' | rfl
    · exact .inl hm'
    · cases r with
      | error e =>
        rw [hx.failed]
        exact .inl hm
      | ok u =>
        obtain ⟨org, horg, hid⟩ := hs.references.memberships m hm
        exact .inr (hx.gone hs horg hid)

/-- An invitation has the terms of the row with its id before, or a new id. -/
theorem Exec.invitation (hx : Exec env allow i o w r w') {inv : Invitation}
    (hi : inv ∈ w'.db.invitations) :
    (∃ inv₀ ∈ w.db.invitations, inv₀.id = inv.id ∧ inv₀.terms = inv.terms) ∨
      inv.id ∉ w.issued := by
  rcases hx.change with hd | ⟨s, ch, rfl, hc, hid⟩
  · rw [hd] at hi
    exact .inl ⟨inv, hi, rfl, rfl⟩
  · rcases hc.invitation hi with h₀ | ⟨hins, he⟩
    · exact .inl h₀
    · rw [he]
      exact .inr (hid hins).1

/-- Of an organization that is gone, nothing is left. -/
theorem Sound.nothing_left {orgID : Uuid} (hs : w.Sound) (h : w.Gone orgID) :
    (∀ m ∈ w.db.memberships, m.orgID ≠ orgID) ∧ (∀ k ∈ w.db.apiKeys, k.orgID ≠ orgID) ∧
      (∀ m ∈ w.db.messages, m.orgID ≠ orgID) ∧
      (∀ a ∈ w.db.deliveryAttempts, ∀ m ∈ w.db.messages, m.id = a.messageID → m.orgID ≠ orgID) ∧
      ∀ inv ∈ w.db.invitations, inv.orgID ≠ orgID := by
  have hrefs := hs.references
  have hno {ρ : Type} {key : ρ → Uuid} {t : Table key} {ref : ρ → Uuid}
      (ht : t.Refers ref w.db.organizations) : ∀ x ∈ t, ref x ≠ orgID := by
    intro x hx
    obtain ⟨o, ho, he⟩ := ht x hx
    rw [← he]
    exact h.none o ho
  exact ⟨hno hrefs.memberships, hno hrefs.apiKeys, hno hrefs.messages,
    fun _ _ m hm _ ↦ hno hrefs.messages m hm, hno hrefs.invitations⟩

end Operation

end World

/-! ### Runs -/

section Run

variable {env : Platform} {S : System Proc World Op Op.Res} {c c' : Config Proc World Op Op.Res}

/-- What every operation keeps, a run keeps. -/
theorem World.keeps {P : World → Prop}
    (hexec : ∀ i o w r w', S.exec i o w r w' → World.Exec env (fun _ ↦ True) i o w r w')
    (hP : ∀ i o w r w', World.Exec env (fun _ ↦ True) i o w r w' → P w → P w')
    (h : ReflTransGen S.Step c c') (hc : P c.state) : P c'.state := by
  induction h with
  | refl => exact hc
  | tail _ hstep ih =>
    cases hstep with
    | act _ hx => exact hP _ _ _ _ _ (hexec _ _ _ _ _ hx) ih
    | again => exact ih

variable (hexec : ∀ i o w r w', S.exec i o w r w' → World.Exec env (fun _ ↦ True) i o w r w')

include hexec

/-- Users stay in a run. -/
theorem World.user_stays (h : ReflTransGen S.Step c c') {u : User} (hu : u ∈ c.state.db.users) :
    u ∈ c'.state.db.users :=
  World.keeps (P := fun w ↦ u ∈ w.db.users) hexec (fun _ _ _ _ _ hx ↦ hx.user) h hu

/-- An organization that is gone stays so in a run. -/
theorem World.gone_stays (h : ReflTransGen S.Step c c') {orgID : Uuid} (hg : c.state.Gone orgID) :
    c'.state.Gone orgID :=
  World.keeps (P := fun w ↦ w.Gone orgID) hexec (fun _ _ _ _ _ hx hg ↦ hg.exec hx) h hg

/-- In a run, a membership stays as long as its organization does. -/
theorem World.membership_stays (h : ReflTransGen S.Step c c') (hs : c.state.Sound) {m : Membership}
    (hm : m ∈ c.state.db.memberships) : m ∈ c'.state.db.memberships ∨ c'.state.Gone m.orgID := by
  refine (World.keeps (P := fun w ↦ w.Sound ∧ (m ∈ w.db.memberships ∨ w.Gone m.orgID)) hexec
    ?_ h ⟨hs, .inl hm⟩).2
  rintro i o w r w' hx ⟨hs, hm | hg⟩
  · exact ⟨hs.exec hx, hx.membership hs hm⟩
  · exact ⟨hs.exec hx, .inr (hg.exec hx)⟩

/-- In a run, an invitation keeps its terms. -/
theorem World.terms_stay (h : ReflTransGen S.Step c c') (hs : c.state.Sound) {inv inv' : Invitation}
    (hi : inv ∈ c.state.db.invitations) (hi' : inv' ∈ c'.state.db.invitations)
    (hid : inv'.id = inv.id) : inv'.terms = inv.terms := by
  have hissued := hs.generated.invitations inv hi
  refine (World.keeps (P := fun w ↦ inv.id ∈ w.issued ∧
    ∀ inv' ∈ w.db.invitations, inv'.id = inv.id → inv'.terms = inv.terms) hexec ?_ h
      ⟨hissued, fun inv' h' he ↦ ?_⟩).2 inv' hi' hid
  · rintro i o w r w' hx ⟨hissued, hterms⟩
    refine ⟨hx.issued_subset hissued, fun inv' h' he ↦ ?_⟩
    rcases hx.invitation h' with ⟨inv₀, h₀, hid₀, ht⟩ | hnew
    · rw [← ht]
      exact hterms inv₀ h₀ (hid₀.trans he)
    · rw [he] at hnew
      exact absurd hissued hnew
  · rw [c.state.db.invitations.eq_of_key h' hi he]

end Run

end Chis
