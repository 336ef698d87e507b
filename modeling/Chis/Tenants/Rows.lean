import Chis.System.World

/-!
# Whose rows a statement changes

Every row but those of users and accounts belongs to an organization, a delivery attempt to that of
its message. `SameRows P` compares two stores on the rows of the organizations in `P`; a statement
`within` an organization changes no row of another one.
-/

namespace Chis

/-- A stored attempt whose message belongs to an organization in `P`. -/
def AttemptIn (P : Uuid → Prop) (db : Db) (a : DeliveryAttempt) : Prop :=
  a ∈ db.deliveryAttempts ∧ ∃ m ∈ db.messages, m.id = a.messageID ∧ P m.orgID

/-- Two stores have the same rows of the organizations in `P`. -/
structure SameRows (P : Uuid → Prop) (db db' : Db) : Prop where
  organizations : ∀ o, P o.id → (o ∈ db'.organizations ↔ o ∈ db.organizations)
  memberships : ∀ m, P m.orgID → (m ∈ db'.memberships ↔ m ∈ db.memberships)
  apiKeys : ∀ k, P k.orgID → (k ∈ db'.apiKeys ↔ k ∈ db.apiKeys)
  messages : ∀ m, P m.orgID → (m ∈ db'.messages ↔ m ∈ db.messages)
  attempts : ∀ a, AttemptIn P db' a ↔ AttemptIn P db a
  invitations : ∀ i, P i.orgID → (i ∈ db'.invitations ↔ i ∈ db.invitations)

namespace SameRows

variable {P : Uuid → Prop} {db db' db'' : Db}

theorem refl (P : Uuid → Prop) (db : Db) : SameRows P db db :=
  ⟨fun _ _ ↦ Iff.rfl, fun _ _ ↦ Iff.rfl, fun _ _ ↦ Iff.rfl, fun _ _ ↦ Iff.rfl, fun _ ↦ Iff.rfl,
    fun _ _ ↦ Iff.rfl⟩

theorem trans (h : SameRows P db db') (h' : SameRows P db' db'') : SameRows P db db'' where
  organizations o ho := (h'.organizations o ho).trans (h.organizations o ho)
  memberships m hm := (h'.memberships m hm).trans (h.memberships m hm)
  apiKeys k hk := (h'.apiKeys k hk).trans (h.apiKeys k hk)
  messages m hm := (h'.messages m hm).trans (h.messages m hm)
  attempts a := (h'.attempts a).trans (h.attempts a)
  invitations i hi := (h'.invitations i hi).trans (h.invitations i hi)

/-- Stores that agree on messages and attempts agree on whose attempts they are. -/
private theorem attemptIn_congr (hm : ∀ m, P m.orgID → (m ∈ db'.messages ↔ m ∈ db.messages))
    (ha : db'.deliveryAttempts = db.deliveryAttempts) (a : DeliveryAttempt) :
    AttemptIn P db' a ↔ AttemptIn P db a := by
  unfold AttemptIn
  rw [ha]
  constructor
  · rintro ⟨h, m, hmem, hid, hp⟩
    exact ⟨h, m, (hm m hp).mp hmem, hid, hp⟩
  · rintro ⟨h, m, hmem, hid, hp⟩
    exact ⟨h, m, (hm m hp).mpr hmem, hid, hp⟩

/-- A change of the messages of other organizations. -/
private theorem of_messages (messages : Relational.Table Message.id)
    (hm : ∀ m, P m.orgID → (m ∈ messages ↔ m ∈ db.messages)) :
    SameRows P db { db with messages := messages } where
  organizations _ _ := Iff.rfl
  memberships _ _ := Iff.rfl
  apiKeys _ _ := Iff.rfl
  messages := hm
  attempts := attemptIn_congr hm rfl
  invitations _ _ := Iff.rfl

end SameRows

section Tables

variable {ρ : Type} {key : ρ → Uuid} (A : Uuid) (org : ρ → Uuid)

/-- A row added for `A`. -/
private theorem insert_same {t t' : Relational.Table key} {r : ρ} (h : t.insert? r = some t')
    (hr : org r = A) (r' : ρ) (hr' : org r' ≠ A) : r' ∈ t' ↔ r' ∈ t := by
  rw [Relational.Table.mem_of_insert? h]
  constructor
  · rintro (h | rfl)
    · exact h
    · exact absurd hr hr'
  · exact .inl

/-- Rows taken away from `A`. -/
private theorem filter_same {t : Relational.Table key} {p : ρ → Bool}
    (h : ∀ r ∈ t, p r = false → org r = A) (r : ρ) (hr : org r ≠ A) :
    r ∈ t.filter p ↔ r ∈ t := by
  rw [Relational.Table.mem_filter]
  refine ⟨And.left, fun hmem ↦ ⟨hmem, ?_⟩⟩
  by_contra hp
  exact hr (h r hmem (Bool.eq_false_iff.mpr hp))

/-- A row of `A` changed, which still belongs to it. -/
private theorem modify_same {t : Relational.Table key} {k : Uuid} {f : ρ → ρ}
    (hf : ∀ r, key (f r) = key r) (ho : ∀ r, org (f r) = org r)
    (h : ∀ r ∈ t, key r = k → org r = A) (r : ρ) (hr : org r ≠ A) :
    r ∈ t.modify k f hf ↔ r ∈ t := by
  rw [Relational.Table.mem_modify]
  constructor
  · rintro ⟨r₀, hr₀, rfl⟩
    split at hr
    · next hk =>
      rw [ho] at hr
      exact absurd (h r₀ hr₀ hk) hr
    · next hk =>
      rw [if_neg hk]
      exact hr₀
  · intro hmem
    refine ⟨r, hmem, ?_⟩
    rw [if_neg fun hk ↦ hr (h r hmem hk)]

end Tables

/-- The statement writes rows of organization `A` only, in a store `db`. -/
def Stmt.within (A : Uuid) (db : Db) : Stmt → Prop
  | .organizationCreate _ => False
  | .organizationDelete id | .rotateSigningSecret id _ => id = A
  | .membershipCreate m => m.orgID = A
  | .apiKeyCreate k => k.orgID = A
  | .apiKeyDelete id => ∀ k ∈ db.apiKeys, k.id = id → k.orgID = A
  | .messageCreate m => m.orgID = A
  | .messageUpdateStatus id _ => ∀ m ∈ db.messages, m.id = id → m.orgID = A
  | .messageUpdate msg => ∀ m ∈ db.messages, m.id = msg.id → m.orgID = A
  | .attemptCreate a => ∀ m ∈ db.messages, m.id = a.messageID → m.orgID = A
  | .invitationCreate i => i.orgID = A
  | .invitationUpdateStatus id _ | .invitationAccept id _ | .invitationDelete id =>
    ∀ i ∈ db.invitations, i.id = id → i.orgID = A
  | _ => True

/-- Deleting an organization takes its own rows away, by the cascades. -/
private theorem delete_same (A : Uuid) (db : Db) :
    SameRows (· ≠ A) db (OrganizationRepository.delete A db) where
  organizations := filter_same A Organization.id fun o _ ho ↦ by simpa using ho
  memberships := filter_same A Membership.orgID fun m _ hm ↦ by simpa using hm
  apiKeys := filter_same A APIKey.orgID fun k _ hk ↦ by simpa using hk
  messages := filter_same A Message.orgID fun m _ hm ↦ by simpa using hm
  attempts a := by
    simp only [AttemptIn, OrganizationRepository.delete, Relational.Table.mem_filter]
    constructor
    · rintro ⟨⟨ha, -⟩, m, ⟨hm, -⟩, hid, ho⟩
      exact ⟨ha, m, hm, hid, ho⟩
    · rintro ⟨ha, m, hm, hid, ho⟩
      have hf : db.messages.find? a.messageID = some m :=
        (db.messages.find?_eq_some_iff _ _).mpr ⟨hm, hid⟩
      refine ⟨⟨ha, ?_⟩, m, ⟨hm, ?_⟩, hid, ho⟩
      · rw [hf]
        simpa using ho
      · simpa using ho
  invitations := filter_same A Invitation.orgID fun i _ hi ↦ by simpa using hi

/-- A statement within an organization leaves all rows of the others as they are. -/
theorem Stmt.Change.sameRows {ch : Choice} {db db' : Db} {s : Stmt} {A : Uuid}
    (h : Stmt.Change ch db s db') (hs : s.within A db) : SameRows (· ≠ A) db db' := by
  cases h with
  | same => exact .refl _ _
  | userCreate hu => exact { SameRows.refl _ _ with }
  | accountCreate hu => exact { SameRows.refl _ _ with }
  | organizationCreate ho => exact hs.elim
  | organizationDelete =>
    cases hs
    exact delete_same _ db
  | rotateSigningSecret =>
    cases hs
    exact { SameRows.refl _ _ with
      organizations := modify_same _ Organization.id (by intro _; rfl) (by intro _; rfl) fun o _ hid ↦ hid }
  | membershipCreate hm =>
    exact { SameRows.refl _ _ with memberships := insert_same A Membership.orgID hm hs }
  | apiKeyCreate hk =>
    exact { SameRows.refl _ _ with apiKeys := insert_same A APIKey.orgID hk hs }
  | apiKeyDelete =>
    exact { SameRows.refl _ _ with
      apiKeys := filter_same A APIKey.orgID fun k hk hp ↦ hs k hk (by simpa using hp) }
  | messageCreate hm => exact SameRows.of_messages _ (insert_same A Message.orgID hm hs)
  | messageUpdateStatus hu =>
    unfold MessageRepository.updateStatus at hu
    split at hu
    · cases hu
    · cases hu
      exact SameRows.of_messages _ (modify_same A Message.orgID (by intro _; rfl) (by intro _; rfl) hs)
  | messageUpdate =>
    exact SameRows.of_messages _ (modify_same A Message.orgID (by intro _; rfl) (by intro _; rfl) hs)
  | attemptCreate ha =>
    refine { SameRows.refl (· ≠ A) db with attempts := fun a ↦ ?_ }
    unfold AttemptIn
    rw [Relational.Table.mem_of_insert? ha]
    constructor
    · rintro ⟨h | rfl, m, hm, hid, hne⟩
      · exact ⟨h, m, hm, hid, hne⟩
      · exact absurd (hs m hm hid) hne
    · rintro ⟨h, hm⟩
      exact ⟨.inl h, hm⟩
  | invitationCreate hi =>
    exact { SameRows.refl _ _ with invitations := insert_same A Invitation.orgID hi hs }
  | invitationUpdateStatus =>
    exact { SameRows.refl _ _ with
      invitations := modify_same A Invitation.orgID (by intro _; rfl) (by intro _; rfl) hs }
  | invitationAccept =>
    exact { SameRows.refl _ _ with
      invitations := modify_same A Invitation.orgID (by intro _; rfl) (by intro _; rfl) hs }
  | invitationDelete =>
    exact { SameRows.refl _ _ with
      invitations := filter_same A Invitation.orgID fun i hi hp ↦ hs i hi (by simpa using hp) }

end Chis
