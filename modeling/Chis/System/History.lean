import Chis.Api.System
import Chis.System.Permanence

/-!
# What is written once

Rows of users, accounts, memberships and delivery attempts are never updated, and neither is what an
organization is called or what a message says. Only the deletion of an organization removes any of
them, and then only those of that organization.
-/

namespace Chis

open Program Relational Relation

/-- What an organization is known by: no update changes it. -/
def Organization.identity (o : Organization) : Uuid × String × String × Time :=
  (o.id, o.name, o.slug, o.createdAt)

/-- What a message says: no update changes it. -/
def Message.content (m : Message) : Uuid × Uuid × String × String × String × Time :=
  (m.id, m.orgID, m.method, m.url, m.payload, m.createdAt)

theorem Message.content_id {m m' : Message} (h : m.content = m'.content) :
    m.id = m'.id ∧ m.orgID = m'.orgID :=
  ⟨congrArg Prod.fst h, congrArg (fun x ↦ x.2.1) h⟩

/-- What is there later of what was there before, if `gone` tells the organizations that were
removed. -/
structure Db.Kept (db : Db) (gone : Uuid → Prop) (db' : Db) : Prop where
  users : ∀ u ∈ db.users, u ∈ db'.users
  accounts : ∀ a ∈ db.accounts, a ∈ db'.accounts
  organizations : ∀ o ∈ db.organizations,
    (∃ o' ∈ db'.organizations, o'.identity = o.identity) ∨ gone o.id
  memberships : ∀ m ∈ db.memberships, m ∈ db'.memberships ∨ gone m.orgID
  messages : ∀ m ∈ db.messages, (∃ m' ∈ db'.messages, m'.content = m.content) ∨ gone m.orgID
  attempts : ∀ a ∈ db.deliveryAttempts, a ∈ db'.deliveryAttempts ∨
    ∃ m ∈ db.messages, m.id = a.messageID ∧ gone m.orgID

/-- The organization is gone because a request has deleted it. -/
structure World.Removed (w : World) (orgID : Uuid) : Prop where
  gone : w.Gone orgID
  deleted : ∃ i, ⟨.sql (.organizationDelete orgID), .ok ()⟩ ∈ w.past i

namespace Db.Kept

variable {db db' db'' : Db} {gone gone' : Uuid → Prop}

theorem refl : db.Kept gone db where
  users _ h := h
  accounts _ h := h
  organizations o h := .inl ⟨o, h, rfl⟩
  memberships _ h := .inl h
  messages m h := .inl ⟨m, h, rfl⟩
  attempts _ h := .inl h

/-- What is kept twice is kept, if what is gone stays gone. -/
theorem trans (hrefs : References db) (h : db.Kept gone db') (h' : db'.Kept gone' db'')
    (hgone : ∀ orgID, gone orgID → gone' orgID) : db.Kept gone' db'' where
  users u hu := h'.users u (h.users u hu)
  accounts a ha := h'.accounts a (h.accounts a ha)
  organizations o ho := by
    rcases h.organizations o ho with ⟨o₁, h₁, he⟩ | hg
    · rw [← he, show o.id = o₁.id from (congrArg Prod.fst he).symm]
      exact h'.organizations o₁ h₁
    · exact .inr (hgone _ hg)
  memberships m hm := by
    rcases h.memberships m hm with h₁ | hg
    · exact h'.memberships m h₁
    · exact .inr (hgone _ hg)
  messages m hm := by
    rcases h.messages m hm with ⟨m₁, h₁, he⟩ | hg
    · rw [← he, ← (Message.content_id he).2]
      exact h'.messages m₁ h₁
    · exact .inr (hgone _ hg)
  attempts a ha := by
    rcases h.attempts a ha with h₁ | ⟨m, hm, hid, hg⟩
    · rcases h'.attempts a h₁ with h₂ | ⟨m₁, hm₁, hid₁, hg⟩
      · exact .inl h₂
      -- The message of the attempt is the one that it had before.
      · obtain ⟨m, hm, hid⟩ := hrefs.deliveryAttempts a ha
        refine .inr ⟨m, hm, hid, ?_⟩
        rcases h.messages m hm with ⟨m₂, hm₂, he⟩ | hg'
        · have : m₂ = m₁ := by
            apply db'.messages.eq_of_key hm₂ hm₁
            rw [(Message.content_id he).1, hid, hid₁]
          rw [← (Message.content_id he).2, this]
          exact hg
        · exact hgone _ hg'
    · exact .inr ⟨m, hm, hid, hgone _ hg⟩

end Db.Kept

/-! ### One statement -/

section Statement

variable {ch : Choice} {db db' : Db} {s : Stmt}

private theorem kept_delete (id : Uuid) : db.Kept
    (fun orgID ↦ Stmt.organizationDelete id = .organizationDelete orgID)
    (OrganizationRepository.delete id db) where
  users _ h := h
  accounts _ h := h
  organizations o ho := by
    by_cases hid : o.id = id
    · exact .inr (by rw [hid])
    · exact .inl ⟨o, (Table.mem_filter _ _ _).mpr ⟨ho, by simpa using hid⟩, rfl⟩
  memberships m hm := by
    by_cases hid : m.orgID = id
    · exact .inr (by rw [hid])
    · exact .inl ((Table.mem_filter _ _ _).mpr ⟨hm, by simpa using hid⟩)
  messages m hm := by
    by_cases hid : m.orgID = id
    · exact .inr (by rw [hid])
    · exact .inl ⟨m, (Table.mem_filter _ _ _).mpr ⟨hm, by simpa using hid⟩, rfl⟩
  attempts a ha := by
    by_cases hany : (db.messages.find? a.messageID).any (fun m ↦ m.orgID = id) = true
    · obtain ⟨m, hm, hid⟩ := Option.any_eq_true _ _ |>.mp hany
      obtain ⟨hmem, hkey⟩ := (db.messages.find?_eq_some_iff _ _).mp hm
      exact .inr ⟨m, hmem, hkey, by rw [of_decide_eq_true hid]⟩
    · exact .inl ((Table.mem_filter _ _ _).mpr ⟨ha, by simpa using hany⟩)

/-- A statement keeps all that, but for what it deletes. -/
theorem Stmt.Change.kept (h : s.Change ch db db') :
    db.Kept (fun orgID ↦ s = .organizationDelete orgID) db' := by
  have hrefl : db.Kept (fun orgID ↦ s = .organizationDelete orgID) db := .refl
  cases h with
  | userCreate hins =>
    exact { hrefl with users := fun u hu ↦ (Table.mem_of_insert? hins u).mpr (.inl hu) }
  | accountCreate hins =>
    exact { hrefl with accounts := fun a ha ↦ (Table.mem_of_insert? hins a).mpr (.inl ha) }
  | organizationCreate hins =>
    exact { hrefl with
      organizations := fun o ho ↦ .inl ⟨o, (Table.mem_of_insert? hins o).mpr (.inl ho), rfl⟩ }
  | organizationDelete id => exact kept_delete id
  | rotateSigningSecret orgID secret =>
    have hmem (o : Organization) := Table.mem_modify db.organizations orgID
      (fun o ↦ { o with signingSecret := secret, updatedAt := ch.now }) (by intro _; rfl) o
    refine { hrefl with organizations := fun o ho ↦ .inl ⟨_, (hmem _).mpr ⟨o, ho, rfl⟩, ?_⟩ }
    split <;> rfl
  | membershipCreate hins =>
    exact { hrefl with
      memberships := fun m hm ↦ .inl ((Table.mem_of_insert? hins m).mpr (.inl hm)) }
  | messageCreate hins =>
    exact { hrefl with
      messages := fun m hm ↦ .inl ⟨m, (Table.mem_of_insert? hins m).mpr (.inl hm), rfl⟩ }
  | messageUpdateStatus hu =>
    have hmem := MessageRepository.mem_updateStatus hu
    obtain ⟨messages, rfl⟩ := MessageRepository.updateStatus_ok hu
    refine { hrefl with messages := fun m hm ↦ .inl ⟨_, (hmem _).mpr ⟨m, hm, rfl⟩, ?_⟩ }
    split <;> rfl
  | messageUpdate msg =>
    have hmem := MessageRepository.mem_update ch.now msg db
    refine { hrefl with messages := fun m hm ↦ .inl ⟨_, (hmem _).mpr ⟨m, hm, rfl⟩, ?_⟩ }
    split <;> rfl
  | attemptCreate hins =>
    exact { hrefl with
      attempts := fun a ha ↦ .inl ((Table.mem_of_insert? hins a).mpr (.inl ha)) }
  | _ => exact { hrefl with }

end Statement

/-! ### Runs -/

section Operation

variable {env : Platform} {allow : Choice → Prop} {i : Proc} {o : Op} {w w' : World} {r : o.Res}

theorem World.Removed.exec {orgID : Uuid} (h : w.Removed orgID)
    (hx : World.Exec env allow i o w r w') : w'.Removed orgID where
  gone := h.gone.exec hx
  deleted := by
    obtain ⟨j, hj⟩ := h.deleted
    obtain ⟨t, ht⟩ := hx.log_eq
    refine ⟨j, ?_⟩
    simp only [World.past, ht, List.filter_cons]
    split
    · exact List.mem_cons_of_mem _ hj
    · exact hj

/-- An operation keeps all that, but for the organization that it deletes. -/
theorem World.Exec.kept (hx : World.Exec env allow i o w r w') (hs : w.Sound) :
    w.db.Kept w'.Removed w'.db := by
  rcases hx.change with hd | ⟨s, ch, rfl, hc, -⟩
  · rw [hd]
    exact .refl
  · have hk := hc.kept
    cases r with
    | error e =>
      rw [hx.failed]
      exact .refl
    | ok a =>
      have hgone {orgID : Uuid} (horg : ∃ org ∈ w.db.organizations, org.id = orgID)
          (he : s = .organizationDelete orgID) : w'.Removed orgID := by
        subst he
        obtain ⟨org, horg, hid⟩ := horg
        refine ⟨hx.gone hs horg hid, i, ?_⟩
        obtain ⟨t, ht⟩ := hx.log_eq
        simp [World.past, ht]
      have hrefs := hs.references
      refine { hk with organizations := ?_, memberships := ?_, messages := ?_, attempts := ?_ }
      · exact fun o ho ↦ (hk.organizations o ho).imp_right (hgone ⟨o, ho, rfl⟩)
      · exact fun m hm ↦ (hk.memberships m hm).imp_right (hgone (hrefs.memberships m hm))
      · exact fun m hm ↦ (hk.messages m hm).imp_right (hgone (hrefs.messages m hm))
      · intro a ha
        rcases hk.attempts a ha with ha' | ⟨m, hm, hid, he⟩
        · exact .inl ha'
        · exact .inr ⟨m, hm, hid, hgone (hrefs.messages m hm) he⟩

end Operation

namespace Api

variable {env : Env} {sent : Nat → Route × Request} {G : World → Proc → Op → Prop} {now : Time}
  {c c' : Config Proc World Op Op.Res}

/-- Whatever happens between two points of a run, all that is kept, but for the organizations that
requests have deleted. -/
theorem history_kept (h : (system env sent G).Reachable (World.start now) c)
    (h' : ReflTransGen (system env sent G).Step c c') :
    c.state.db.Kept c'.state.Removed c'.state.db := by
  have hs := sound h
  have hexec : ∀ i o w r w', (system env sent G).exec i o w r w' →
      World.Exec env.toPlatform (fun _ ↦ True) i o w r w' := fun _ _ _ _ _ hx ↦ hx.2
  refine (World.keeps (P := fun w ↦ w.Sound ∧ c.state.db.Kept w.Removed w.db) hexec ?_ h'
    ⟨hs, .refl⟩).2
  rintro i o w r w' hx ⟨hw, hk⟩
  exact ⟨hw.exec hx, hk.trans hs.references (hx.kept hw) fun _ hg ↦ hg.exec hx⟩

/-- Who is a member of what. -/
def sampleMembers (c : Config Proc World Op Op.Res) : List (Uuid × Uuid) :=
  c.state.db.memberships.rows.map fun m ↦ (m.userID, m.orgID)

/-- While Bob registers, Ann stays what she is. -/
theorem history_kept_sample : ∃ c c', sampleMembers c = [(⟨1⟩, ⟨3⟩)] ∧
    sampleMembers c' = [(⟨1⟩, ⟨3⟩), (⟨5⟩, ⟨7⟩)] ∧
      c.state.db.Kept c'.state.Removed c'.state.db := by
  have hrun : (sampleRuns (fun _ _ _ ↦ true) (sampleTurns 0 [0, 1, 2, 0, 3, 4, 0])
      (sampleTurns 1 [0, 5, 6, 0, 7, 8, 0])).map (fun p ↦ (sampleMembers p.1, sampleMembers p.2)) =
      some ([(⟨1⟩, ⟨3⟩)], [(⟨1⟩, ⟨3⟩), (⟨5⟩, ⟨7⟩)]) := by
    decide +kernel
  obtain ⟨c, c', h, h', hc, hc'⟩ :=
    sample_seen_twice (G := anyStep) (fun _ _ _ _ ↦ trivial) hrun
  exact ⟨c, c', hc, hc', history_kept h h'⟩

end Api

end Chis
