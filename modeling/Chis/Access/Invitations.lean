import Chis.Access.Provenance

/-!
# The life of an invitation

A request reads an invitation, decides and writes its status in separate statements, and no `UPDATE`
looks at the status there is. What becomes of a row depends on what has been written to it since the
request was shown it.
-/

namespace Chis

open Program Api Relation

/-- The operation and its answer. -/
def Entry.event (e : Entry) : Event Op.Res := ⟨e.op, e.res⟩

namespace Access

/-! ### What a log tells -/

/-- What process `i` has done according to a log, newest first. -/
def history (log : List Entry) (i : Proc) : List (Event Op.Res) :=
  (log.filter fun e ↦ e.proc = i).map Entry.event

theorem history_log (w : World) (i : Proc) : history w.log i = w.past i := rfl

theorem history_append {newer older : List Entry} {i : Proc} :
    history (newer ++ older) i = history newer i ++ history older i := by
  simp [history]

theorem history_split {newer older : List Entry} {e : Entry} :
    history (newer ++ e :: older) e.proc =
      history newer e.proc ++ e.event :: history older e.proc := by
  simp [history]

theorem event_of_history {log : List Entry} {i : Proc} {x : Event Op.Res} (h : x ∈ history log i) :
    ∃ e ∈ log, e.proc = i ∧ e.event = x := by
  obtain ⟨e, he, rfl⟩ := List.mem_map.mp h
  obtain ⟨he, hi⟩ := List.mem_filter.mp he
  exact ⟨e, he, of_decide_eq_true hi, rfl⟩

/-- Status `st` has been written to invitation `id`, if there is one. -/
def Sets (e : Event Op.Res) (id : Uuid) (st : InvitationStatus) : Prop :=
  (∃ status, e = (Stmt.invitationUpdateStatus id status).returned () ∧
    InvitationStatus.ofLabel status = some st) ∨
  ∃ t, e = (Stmt.invitationAccept id t).returned () ∧ st = .accepted

/-- An invitation was read by itself or among those of an organization. -/
def Shown (past : List (Event Op.Res)) (inv : Invitation) : Prop :=
  Read past inv ∨ ∃ orgID, ∃ invs : List Invitation,
    (Stmt.invitationFindByOrgID orgID).returned invs ∈ past ∧ inv ∈ invs

/-- Since process `i` was shown the invitation, a status of which `P` holds has been written to
it. -/
def SetSince (w : World) (i : Proc) (id : Uuid) (P : InvitationStatus → Prop) : Prop :=
  ∃ newer e older inv st, w.log = newer ++ e :: older ∧ Sets e.event id st ∧ P st ∧
    Shown (history older i) inv ∧ inv.id = id

theorem shown_cons {e : Event Op.Res} {past : List (Event Op.Res)} {inv : Invitation} :
    Shown (e :: past) inv ↔ Shown [e] inv ∨ Shown past inv := by
  simp only [Shown, @read_cons past, List.mem_cons, List.not_mem_nil, or_false]
  constructor
  · rintro ((h | h) | ⟨orgID, invs, h | h, hi⟩)
    · exact .inl (.inl h)
    · exact .inr (.inl h)
    · exact .inl (.inr ⟨orgID, invs, h, hi⟩)
    · exact .inr (.inr ⟨orgID, invs, h, hi⟩)
  · rintro ((h | ⟨orgID, invs, h, hi⟩) | h | ⟨orgID, invs, h, hi⟩)
    · exact .inl (.inl h)
    · exact .inr ⟨orgID, invs, .inl h, hi⟩
    · exact .inl (.inr h)
    · exact .inr ⟨orgID, invs, .inr h, hi⟩

/-! ### One operation -/

/-- Where a row that is there after an operation comes from. -/
inductive Origin (w w' : World) (inv : Invitation) : Event Op.Res → Prop
  | kept {e : Event Op.Res} (inv₀ : Invitation) : inv₀ ∈ w.db.invitations → inv₀.id = inv.id →
    inv₀.status = inv.status → inv₀.acceptedAt = inv.acceptedAt → (∀ st, ¬ Sets e inv.id st) →
    Origin w w' inv e
  | created (inv₀ inv₁ : Invitation) : inv.id ∉ w.issued → inv.id ∈ w'.issued →
    inv.status = inv₀.status → inv.acceptedAt = none →
    Origin w w' inv ((Stmt.invitationCreate inv₀).returned inv₁)
  | updated (inv₀ : Invitation) (status : String) : inv₀ ∈ w.db.invitations → inv₀.id = inv.id →
    InvitationStatus.ofLabel status = some inv.status → inv₀.acceptedAt = inv.acceptedAt →
    Origin w w' inv ((Stmt.invitationUpdateStatus inv.id status).returned ())
  | accepted (inv₀ : Invitation) (t : Time) : inv₀ ∈ w.db.invitations → inv₀.id = inv.id →
    inv.status = .accepted → inv.acceptedAt = some t →
    Origin w w' inv ((Stmt.invitationAccept inv.id t).returned ())

section Step

variable {env : Env} {sent : Nat → Route × Request} {G : World → Proc → Op → Prop} {i : Proc}
  {o : Op} {w w' : World} {r : o.Res} {inv : Invitation}

theorem sets_update {id id' : Uuid} {status : String} {r : Except Err Unit} {st : InvitationStatus}
    (h : Sets ⟨.sql (.invitationUpdateStatus id' status), r⟩ id st) :
    id' = id ∧ r = .ok () ∧ InvitationStatus.ofLabel status = some st := by
  rcases h with ⟨_, he, hst⟩ | ⟨_, he, -⟩
  · cases he
    exact ⟨rfl, rfl, hst⟩
  · cases he

theorem sets_accept {id id' : Uuid} {t : Time} {r : Except Err Unit} {st : InvitationStatus}
    (h : Sets ⟨.sql (.invitationAccept id' t), r⟩ id st) :
    id' = id ∧ r = .ok () ∧ st = .accepted := by
  rcases h with ⟨_, he, -⟩ | ⟨_, he, hst⟩
  · cases he
  · cases he
    exact ⟨rfl, rfl, hst⟩

/-- A status is written by one of two statements. -/
theorem Sets.write {id : Uuid} {st : InvitationStatus} (h : Sets ⟨o, r⟩ id st) :
    (∃ status, o = .sql (.invitationUpdateStatus id status) ∧
      InvitationStatus.ofLabel status = some st) ∨
    ∃ t, o = .sql (.invitationAccept id t) ∧ st = .accepted := by
  rcases h with ⟨status, he, hst⟩ | ⟨t, he, hst⟩
  · cases he
    exact .inl ⟨status, rfl, hst⟩
  · cases he
    exact .inr ⟨t, rfl, hst⟩

theorem Sets.unique {id : Uuid} {st st' : InvitationStatus} (h : Sets ⟨o, r⟩ id st)
    (h' : Sets ⟨o, r⟩ id st') : st = st' := by
  rcases h.write with ⟨status, rfl, hst⟩ | ⟨t, rfl, hst⟩
  · exact Option.some.inj (hst.symm.trans (sets_update h').2.2)
  · exact hst.trans (sets_accept h').2.2.symm

private theorem kept (hi : inv ∈ w.db.invitations) (h : ∀ st, ¬ Sets ⟨o, r⟩ inv.id st) :
    Origin w w' inv ⟨o, r⟩ :=
  .kept inv hi rfl rfl rfl h

private theorem update_origin {ch : Choice} {id : Uuid} {status : String} {r : Except Err Unit}
    (hx : (Stmt.invitationUpdateStatus id status).exec env.toPlatform ch w.db = (r, w'.db))
    (hi : inv ∈ w'.db.invitations) :
    Origin w w' inv ⟨.sql (.invitationUpdateStatus id status), r⟩ := by
  rcases Stmt.writeUnit_inv hx with ⟨rfl, hc⟩ | ⟨e, rfl, -, hd⟩
  · obtain ⟨st, hst, hd⟩ := InvitationRepository.updateStatus_ok hc
    rw [hd] at hi
    rcases Relational.Table.mem_modify_cases (by intro _; rfl) hi with ⟨hi, hid⟩ | ⟨inv₀, h₀, rfl, rfl⟩
    · exact kept hi fun st h ↦ hid (sets_update h).1.symm
    · exact .updated inv₀ status h₀ rfl hst rfl
  · rw [hd] at hi
    exact kept hi fun st h ↦ nomatch (sets_update h).2.1

private theorem accept_origin {ch : Choice} {id : Uuid} {t : Time} {r : Except Err Unit}
    (hx : (Stmt.invitationAccept id t).exec env.toPlatform ch w.db = (r, w'.db))
    (hi : inv ∈ w'.db.invitations) : Origin w w' inv ⟨.sql (.invitationAccept id t), r⟩ := by
  obtain ⟨rfl, hd⟩ := Prod.mk.inj hx
  rw [← hd] at hi
  rcases Relational.Table.mem_modify_cases (by intro _; rfl) hi with ⟨hi, hid⟩ | ⟨inv₀, h₀, rfl, rfl⟩
  · exact kept hi fun st h ↦ hid (sets_accept h).1.symm
  · exact .accepted inv₀ t h₀ rfl rfl rfl

private theorem create_origin {ch : Choice} {inv₀ : Invitation} {r : Except Err Invitation}
    (hx : (Stmt.invitationCreate inv₀).exec env.toPlatform ch w.db = (r, w'.db))
    (hfresh : ch.id ∉ w.issued ∧ ch.id ∈ w'.issued) (hi : inv ∈ w'.db.invitations) :
    Origin w w' inv ⟨.sql (.invitationCreate inv₀), r⟩ := by
  have hsets : ∀ st, ¬ Sets ⟨.sql (.invitationCreate inv₀), r⟩ inv.id st := by
    intro st h
    rcases h.write with ⟨_, he, -⟩ | ⟨_, he, -⟩ <;> cases he
  rcases Stmt.write_inv hx with ⟨a, rfl, hc⟩ | ⟨e, -, -, hd⟩
  · obtain ⟨hrow, invitations, hinsert, hd⟩ := InvitationRepository.create_ok hc
    rw [hd] at hi
    rcases (Relational.Table.mem_of_insert? hinsert inv).mp hi with hi | rfl
    · exact kept hi hsets
    · have hid : inv.id = ch.id := by rw [hrow]
      refine .created inv₀ inv ?_ ?_ (by rw [hrow]) (by rw [hrow])
      · rw [hid]
        exact hfresh.1
      · rw [hid]
        exact hfresh.2
  · rw [hd] at hi
    exact kept hi hsets

/-- Every row has an origin. -/
theorem origin (hx : (system env sent G).exec i o w r w') (hi : inv ∈ w'.db.invitations) :
    Origin w w' inv ⟨o, r⟩ := by
  by_cases hs : ∃ s, o = .sql s
  · obtain ⟨s, rfl⟩ := hs
    rcases World.Exec.sql hx.2 with ⟨hr, hd⟩ | ⟨ch, -, hexec, hfresh⟩
    · rw [hd] at hi
      refine kept hi fun st h ↦ ?_
      rcases h with ⟨_, he, -⟩ | ⟨_, he, -⟩ <;> cases he <;> cases hr
    · by_cases hu : ∃ id status, s = .invitationUpdateStatus id status
      · obtain ⟨id, status, rfl⟩ := hu
        exact update_origin hexec hi
      by_cases ha : ∃ id t, s = .invitationAccept id t
      · obtain ⟨id, t, rfl⟩ := ha
        exact accept_origin hexec hi
      by_cases hc : ∃ inv₀, s = .invitationCreate inv₀
      · obtain ⟨inv₀, rfl⟩ := hc
        exact create_origin hexec (hfresh rfl) hi
      have hchange := Stmt.exec_change env.toPlatform ch w.db s
      rw [hexec] at hchange
      refine kept ?_ fun st h ↦ ?_
      · generalize w'.db = db' at hchange hi
        cases hchange with
        | invitationUpdateStatus => exact absurd ⟨_, _, rfl⟩ hu
        | invitationAccept => exact absurd ⟨_, _, rfl⟩ ha
        | invitationCreate => exact absurd ⟨_, rfl⟩ hc
        | organizationDelete => exact ((Relational.Table.mem_filter _ _ _).mp hi).1
        | invitationDelete => exact ((Relational.Table.mem_filter _ _ _).mp hi).1
        | messageUpdateStatus hm =>
          obtain ⟨_, rfl⟩ := MessageRepository.updateStatus_ok hm
          exact hi
        | _ => exact hi
      · rcases h.write with ⟨_, he, -⟩ | ⟨_, he, -⟩
        · cases he
          exact hu ⟨_, _, rfl⟩
        · cases he
          exact ha ⟨_, _, rfl⟩
  · rw [World.Exec.db_eq hx.2 fun s he ↦ hs ⟨s, he⟩] at hi
    refine kept hi fun st h ↦ hs ?_
    rcases h.write with ⟨_, he, -⟩ | ⟨_, he, -⟩
    · exact ⟨_, he⟩
    · exact ⟨_, he⟩

/-- What is shown is in the table. -/
theorem shown_exec (hx : (system env sent G).exec i o w r w') (h : Shown [⟨o, r⟩] inv) :
    inv ∈ w.db.invitations := by
  simp only [Shown, Read, List.mem_singleton] at h
  rcases h with (⟨token, he⟩ | ⟨id, he⟩) | ⟨orgID, invs, he, hi⟩
  · cases he
    obtain ⟨ch, hexec⟩ := exec_ok hx
    exact InvitationRepository.findByToken_ok (Prod.mk.inj hexec).1
  · cases he
    obtain ⟨ch, hexec⟩ := exec_ok hx
    exact (InvitationRepository.findByID_ok (Prod.mk.inj hexec).1).1
  · cases he
    obtain ⟨ch, hexec⟩ := exec_ok hx
    rw [← Except.ok.inj (Prod.mk.inj hexec).1] at hi
    exact (List.mem_filter.mp ((mem_orderBy _ _ _ _).mp hi)).1

end Step

/-! ### Runs -/

theorem SetSince.cons {w w' : World} {e : Entry} {i : Proc} {id : Uuid} {P : InvitationStatus → Prop}
    (hlog : w'.log = e :: w.log) (h : SetSince w i id P) : SetSince w' i id P := by
  obtain ⟨newer, e', older, inv, st, hw, hrest⟩ := h
  refine ⟨e :: newer, e', older, inv, st, ?_, hrest⟩
  rw [hlog, hw]
  rfl

section Run

variable {env : Env} {sent : Nat → Route × Request} {G : World → Proc → Op → Prop} {now : Time}
  {c c' : Config Proc World Op Op.Res}

/-- An operation about to be performed is as its process has promised. -/
theorem promised_next (h : (system env sent G).Reachable (World.start now) c) {i : Proc} {o : Op}
    {k : o.Res → Service Unit} {r : o.Res} {w' : World} (hp : c.procs i = .op o k)
    (hx : (system env sent G).exec i o c.state r w') : promise sent env i (c.state.past i) o := by
  have hv : Valid (promise sent env i) (w'.past i) := promised (h.tail (.act hp hx)) i
  rw [(system_records env sent G i o _ r w' hx).1] at hv
  exact hv.1

/-- A status is written to an invitation that the request was shown. -/
theorem sets_shown {i : Proc} {past : List (Event Op.Res)} {o : Op} {r : o.Res} {id : Uuid}
    {st : InvitationStatus} (hp : promise sent env i past o) (hs : Sets ⟨o, r⟩ id st) :
    ∃ inv, Shown past inv ∧ inv.id = id ∧
      (st = .cancelled ∨ Read past inv ∧ inv.status = .pending) := by
  cases i with
  | worker n => rcases hs.write with ⟨_, rfl, -⟩ | ⟨_, rfl, -⟩ <;> cases hp
  | scheduler => rcases hs.write with ⟨_, rfl, -⟩ | ⟨_, rfl, -⟩ <;> cases hp
  | client n =>
    rcases hs.write with ⟨status, rfl, hst⟩ | ⟨t, rfl, -⟩
    · rcases hp with ⟨rfl, orgID, invs, hmem, inv, hinv, hid⟩ | ⟨-, inv, hpending, hid⟩
      · exact ⟨inv, .inr ⟨orgID, invs, hmem, hinv⟩, hid, .inl (Option.some.inj hst).symm⟩
      · exact ⟨inv, .inl hpending.read, hid, .inr ⟨hpending.read, hpending.pending⟩⟩
    · obtain ⟨u, inv, htakes, hid⟩ := hp
      exact ⟨inv, .inl htakes.read, hid, .inr ⟨htakes.read, htakes.pending⟩⟩

/-- An invitation is created pending. -/
theorem created_pending {i : Proc} {past : List (Event Op.Res)} {inv : Invitation}
    (hp : promise sent env i past (.sql (.invitationCreate inv))) : inv.status = .pending := by
  cases i with
  | worker n => cases hp
  | scheduler => cases hp
  | client n => exact hp.status

theorem not_shown_of_sets {o : Op} {r : o.Res} {id : Uuid} {st : InvitationStatus}
    (hs : Sets ⟨o, r⟩ id st) (inv : Invitation) : ¬ Shown [⟨o, r⟩] inv := by
  rcases hs.write with ⟨_, rfl, -⟩ | ⟨_, rfl, -⟩ <;> simp [Shown, Read]

theorem issued_subset (h : ReflTransGen (system env sent G).Step c c') :
    c.state.issued ⊆ c'.state.issued := by
  induction h with
  | refl => exact List.Subset.refl _
  | tail _ hstep ih =>
    cases hstep with
    | act _ hx => exact List.Subset.trans ih hx.2.issued_subset
    | again => exact ih

/-- What has been logged stays in the log. -/
theorem log_suffix (h : ReflTransGen (system env sent G).Step c c') :
    ∃ later, c'.state.log = later ++ c.state.log := by
  induction h with
  | refl => exact ⟨[], rfl⟩
  | tail _ hstep ih =>
    obtain ⟨later, hlog⟩ := ih
    cases hstep with
    | act _ hx =>
      obtain ⟨t, ht⟩ := hx.2.log_eq
      exact ⟨_ :: later, ht.trans (by rw [hlog]; rfl)⟩
    | again => exact ⟨later, hlog⟩

/-- The ids that the services have met were generated. -/
structure Known (w : World) : Prop where
  rows : ∀ inv ∈ w.db.invitations, inv.id ∈ w.issued
  shown : ∀ i inv, Shown (w.past i) inv → inv.id ∈ w.issued
  set : ∀ e ∈ w.log, ∀ id st, Sets e.event id st → id ∈ w.issued

/-- What was shown after an operation was shown before, or is shown by it. -/
theorem shown_step {i : Proc} {o : Op} {w w' : World} {r : o.Res}
    (hx : (system env sent G).exec i o w r w') {j : Proc} {inv : Invitation}
    (h : Shown (w'.past j) inv) :
    Shown (w.past j) inv ∨ Shown [⟨o, r⟩] inv ∧ inv ∈ w.db.invitations := by
  obtain ⟨hi, hj⟩ := system_records env sent G i o w r w' hx
  by_cases hji : j = i
  · subst hji
    rw [hi, shown_cons] at h
    rcases h with h | h
    · exact .inr ⟨h, shown_exec hx h⟩
    · exact .inl h
  · rw [hj j hji] at h
    exact .inl h

theorem known (h : (system env sent G).Reachable (World.start now) c) : Known c.state := by
  refine h.induct (I := fun c ↦ Known c.state) ⟨?_, ?_, ?_⟩ fun c c' hreach ih hstep ↦ ?_
  · intro inv hinv
    cases hinv
  · rintro i inv ((⟨_, hmem⟩ | ⟨_, hmem⟩) | ⟨_, _, hmem, -⟩) <;> cases hmem
  · intro e he
    cases he
  · cases hstep with
    | @act i o k r w' hp hx =>
      have hsub := hx.2.issued_subset
      obtain ⟨t, hlog⟩ := hx.2.log_eq
      constructor
      · intro inv hinv
        cases origin hx hinv with
        | kept inv₀ h₀ hid => exact hsub (hid ▸ ih.rows inv₀ h₀)
        | created inv₀ inv₁ hfresh hissued => exact hissued
        | updated inv₀ status h₀ hid => exact hsub (hid ▸ ih.rows inv₀ h₀)
        | accepted inv₀ t h₀ hid => exact hsub (hid ▸ ih.rows inv₀ h₀)
      · intro j inv hshown
        rcases shown_step hx hshown with hshown | ⟨-, hinv⟩
        · exact hsub (ih.shown j inv hshown)
        · exact hsub (ih.rows inv hinv)
      · intro e he id st hset
        rw [hlog, List.mem_cons] at he
        rcases he with rfl | he
        · obtain ⟨inv, hshown, rfl, -⟩ := sets_shown (promised_next hreach hp hx) hset
          exact hsub (ih.shown i inv hshown)
        · exact hsub (ih.set e he id st hset)
    | again => exact ih

end Run

end Access

end Chis
