import Chis.Access.Invitations

/-!
# Final statuses and cancellation

No statement looks at the status it overwrites. A status is final, and a cancellation holds, in the
runs in which no request goes on with an invitation that has changed since the request was shown it.
-/

namespace Chis.Access

open Program Api Relation

variable {env : Env} {sent : Nat → Route × Request} {now : Time} {c c' : Config Proc World Op Op.Res}

/-! ### Final statuses -/

/-- `AcceptInvitation` of the repository has been run on the invitation. -/
def Entered (w : World) (id : Uuid) : Prop :=
  ∃ e ∈ w.log, ∃ t, e.event = (Stmt.invitationAccept id t).returned ()

/-- A status is written only to an invitation that was shown pending, or with that status, and to
which no other status has been written since; `accepted` alone, only after the invitation has been
accepted with its time. -/
def Orderly (w : World) (i : Proc) : Op → Prop
  | .sql (.invitationUpdateStatus id status) => ∀ st, InvitationStatus.ofLabel status = some st →
    if st = .accepted then Entered w id
    else ¬ SetSince w i id (· ≠ st) ∧
      ∀ inv, Shown (w.past i) inv → inv.id = id → inv.status = .pending ∨ inv.status = st
  | .sql (.invitationAccept id _) => ¬ SetSince w i id (· ≠ .accepted)
  | _ => True

/-- What a row tells in an orderly run. -/
structure Lawful (w : World) : Prop where
  accepted : ∀ inv ∈ w.db.invitations, inv.status = .accepted ↔ inv.acceptedAt ≠ none
  entered : ∀ inv ∈ w.db.invitations, Entered w inv.id → inv.acceptedAt ≠ none
  shown : ∀ i inv₀ st, Shown (w.past i) inv₀ → ¬ SetSince w i inv₀.id (· ≠ st) →
    ∀ inv ∈ w.db.invitations, inv.id = inv₀.id → inv.status = inv₀.status ∨ inv.status = st

/-- A status is written over `pending`, and then it is not `accepted` alone, or over itself. -/
private theorem Lawful.written {i : Proc} {o : Op} {w : World} {r : o.Res} {st : InvitationStatus}
    {inv : Invitation} (h : Lawful w) (hg : Orderly w i o) (hp : promise sent env i (w.past i) o)
    (hs : Sets ⟨o, r⟩ inv.id st) (hinv : inv ∈ w.db.invitations) :
    (inv.status = .pending ∧ ∀ status, o = .sql (.invitationUpdateStatus inv.id status) →
      st ≠ .accepted) ∨ inv.status = st := by
  obtain ⟨inv₀, hshown, hid, hpending⟩ := sets_shown hp hs
  rcases hs.write with ⟨status, rfl, hst⟩ | ⟨t, rfl, rfl⟩
  · have hg := hg st hst
    by_cases ha : st = .accepted
    · rw [if_pos ha] at hg
      right
      rw [ha]
      exact (h.accepted inv hinv).mpr (h.entered inv hinv hg)
    · rw [if_neg ha] at hg
      rcases h.shown i inv₀ st hshown (hid ▸ hg.1) inv hinv hid.symm with hsame | hsame
      · rcases hg.2 inv₀ hshown hid with h₀ | h₀
        · exact .inl ⟨hsame.trans h₀, fun _ _ ↦ ha⟩
        · exact .inr (hsame.trans h₀)
      · exact .inr hsame
  · have hpending := (hpending.resolve_left fun h ↦ nomatch h).2
    rcases h.shown i inv₀ .accepted hshown (hid ▸ hg) inv hinv hid.symm with hsame | hsame
    · exact .inl ⟨hsame.trans hpending, fun _ he ↦ nomatch he⟩
    · exact .inr hsame

private theorem Lawful.step {i : Proc} {o : Op} {w w' : World} {r : o.Res} (h : Lawful w)
    (hk : Known w) (hp : promise sent env i (w.past i) o)
    (hx : (system env sent Orderly).exec i o w r w') : Lawful w' := by
  obtain ⟨t, hlog⟩ := hx.2.log_eq
  constructor
  · intro inv hinv
    cases origin hx hinv with
    | kept inv₀ h₀ _ hs ha => rw [← hs, ← ha, h.accepted inv₀ h₀]
    | created inv₀ inv₁ _ _ hs ha =>
      have hpending := created_pending hp
      simp [hs, hpending, ha]
    | updated inv₀ status h₀ hid hst ha =>
      have hs : Sets (Stmt.returned (.invitationUpdateStatus inv.id status) ()) inv₀.id
          inv.status := .inl ⟨status, by rw [hid], hst⟩
      rw [← ha]
      rcases h.written hx.1 hp hs h₀ with ⟨hpending, hne⟩ | hsame
      · have hold := (h.accepted inv₀ h₀).not.mp (by simp [hpending])
        exact iff_of_false (hne status (by rw [hid])) hold
      · rw [← hsame]
        exact h.accepted inv₀ h₀
    | accepted inv₀ t h₀ hid hs ha => simp [hs, ha]
  · intro inv hinv hent
    have hold (hent : Entered w' inv.id) (hne : ¬ ∃ t, (⟨o, r⟩ : Event Op.Res) =
        (Stmt.invitationAccept inv.id t).returned ()) : Entered w inv.id := by
      obtain ⟨e, he, t', hacc⟩ := hent
      rw [hlog, List.mem_cons] at he
      rcases he with rfl | he
      · exact absurd ⟨t', hacc⟩ hne
      · exact ⟨e, he, t', hacc⟩
    cases origin hx hinv with
    | kept inv₀ h₀ hid hs ha hns =>
      rw [← ha]
      refine h.entered inv₀ h₀ (hid ▸ hold hent ?_)
      rintro ⟨t', he⟩
      exact hns .accepted (.inr ⟨t', he, rfl⟩)
    | created inv₀ inv₁ hfresh =>
      obtain ⟨e, he, t', hacc⟩ := hold hent (by rintro ⟨t', he⟩; cases he)
      exact absurd (hk.set e he _ _ (.inr ⟨t', hacc, rfl⟩)) hfresh
    | updated inv₀ status h₀ hid hst ha =>
      rw [← ha]
      exact h.entered inv₀ h₀ (hid ▸ hold hent (by rintro ⟨t', he⟩; cases he))
    | accepted inv₀ t h₀ hid hs ha => simp [ha]
  · intro j inv₀ st hshown hset inv hinv hid
    have hset' : ¬ SetSince w j inv₀.id (· ≠ st) := fun hw ↦ hset (hw.cons hlog)
    -- a status that is written now was written since the showing
    have hwrite (hs : Sets ⟨o, r⟩ inv.id inv.status) : inv.status = st := by
      by_contra hne
      rcases shown_step hx hshown with hshown | ⟨hnew, -⟩
      · refine hset ⟨[], _, w.log, inv₀, inv.status, hlog, ?_, hne, hshown, rfl⟩
        rw [← hid]
        exact hs
      · exact not_shown_of_sets hs inv₀ hnew
    cases origin hx hinv with
    | kept inv₁ h₁ hid₁ hs =>
      rw [← hs]
      rcases shown_step hx hshown with hshown | ⟨-, h₀⟩
      · exact h.shown j inv₀ st hshown hset' inv₁ h₁ (hid₁.trans hid)
      · left
        rw [w.db.invitations.eq_of_key h₁ h₀ (hid₁.trans hid)]
    | created inv₁ inv₂ hfresh =>
      rw [hid] at hfresh
      rcases shown_step hx hshown with hshown | ⟨-, h₀⟩
      · exact absurd (hk.shown j inv₀ hshown) hfresh
      · exact absurd (hk.rows inv₀ h₀) hfresh
    | updated inv₁ status _ _ hst => exact .inr (hwrite (.inl ⟨status, rfl, hst⟩))
    | accepted inv₁ t _ _ hs => exact .inr (hwrite (.inr ⟨t, rfl, hs⟩))

theorem lawful (h : (system env sent Orderly).Reachable (World.start now) c) : Lawful c.state := by
  refine h.induct (I := fun c ↦ Lawful c.state) ⟨?_, ?_, ?_⟩ fun c c' hreach ih hstep ↦ ?_
  · intro inv hinv
    cases hinv
  · intro inv hinv
    cases hinv
  · intro i inv₀ st _ _ inv hinv
    cases hinv
  · cases hstep with
    | act hp hx => exact ih.step (known hreach) (promised_next hreach hp hx) hx
    | again => exact ih

private theorem status_step (h : (system env sent Orderly).Reachable (World.start now) c)
    (hs : (system env sent Orderly).Step c c') {inv inv' : Invitation}
    (hinv : inv ∈ c.state.db.invitations) (hfinal : inv.status ≠ .pending)
    (hinv' : inv' ∈ c'.state.db.invitations) (hid : inv'.id = inv.id) :
    inv'.status = inv.status := by
  cases hs with
  | @act i o k r w' hp hx =>
    have hrow {inv₀ : Invitation} (h₀ : inv₀ ∈ c.state.db.invitations) (hid₀ : inv₀.id = inv'.id) :
        inv₀ = inv := c.state.db.invitations.eq_of_key h₀ hinv (hid₀.trans hid)
    have hwrite (hset : Sets ⟨o, r⟩ inv.id inv'.status) : inv'.status = inv.status := by
      rcases (lawful h).written hx.1 (promised_next h hp hx) hset hinv with ⟨hpending, -⟩ | hsame
      · exact absurd hpending hfinal
      · exact hsame.symm
    cases origin hx hinv' with
    | kept inv₀ h₀ hid₀ hs => rw [← hs, hrow h₀ hid₀]
    | created inv₀ inv₁ hfresh => exact absurd (hid ▸ (known h).rows inv hinv) hfresh
    | updated inv₀ status _ _ hst => exact hwrite (.inl ⟨status, by rw [hid], hst⟩)
    | accepted inv₀ t _ _ hs => exact hwrite (.inr ⟨t, by rw [hid], hs⟩)
  | again => rw [c.state.db.invitations.eq_of_key hinv' hinv hid]

/-- Every status but `pending` is the last one of its row, and an acceptance has its time exactly in
status `accepted`. -/
def LifeCycle (w w' : World) : Prop :=
  (∀ inv ∈ w'.db.invitations, inv.status = .accepted ↔ inv.acceptedAt ≠ none) ∧
    ∀ inv ∈ w.db.invitations, inv.status ≠ .pending → ∀ inv' ∈ w'.db.invitations,
      inv'.id = inv.id → inv'.status = inv.status

/-- Orderly runs keep to the life cycle. -/
theorem life_cycle (h : (system env sent Orderly).Reachable (World.start now) c)
    (hto : ReflTransGen (system env sent Orderly).Step c c') : LifeCycle c.state c'.state := by
  refine ⟨(lawful (h.trans hto)).accepted, fun inv hinv hfinal ↦ ?_⟩
  induction hto with
  | refl =>
    intro inv' hinv' hid
    rw [c.state.db.invitations.eq_of_key hinv' hinv hid]
  | @tail c₁ c₂ h₁ hstep ih =>
    have hreach := h.trans h₁
    intro inv' hinv' hid
    -- a row never comes back, so the row was there before the step
    have hrow : ∃ inv₁ ∈ c₁.state.db.invitations, inv₁.id = inv'.id := by
      cases hstep with
      | @act i o k r w' hp hx =>
        cases origin hx hinv' with
        | kept inv₁ h₁ hid₁ => exact ⟨inv₁, h₁, hid₁⟩
        | created inv₀ inv₁ hfresh =>
          refine absurd ?_ hfresh
          rw [hid]
          exact issued_subset h₁ ((known h).rows inv hinv)
        | updated inv₁ status h₁ hid₁ => exact ⟨inv₁, h₁, hid₁⟩
        | accepted inv₁ t h₁ hid₁ => exact ⟨inv₁, h₁, hid₁⟩
      | again => exact ⟨inv', hinv', rfl⟩
    obtain ⟨inv₁, hinv₁, hid₁⟩ := hrow
    have hsame := ih inv₁ hinv₁ (hid₁.trans hid)
    rw [← hsame]
    exact status_step hreach hstep hinv₁ (hsame ▸ hfinal) hinv' hid₁.symm

/-- The operations that write the status of an invitation. -/
def writesStatus : Op → Bool
  | .sql (.invitationUpdateStatus _ _) | .sql (.invitationAccept _ _) => true
  | _ => false

/-- No status has been written yet. -/
def sampleFirst (w : World) : Bool := w.log.all fun e ↦ !writesStatus e.op

theorem not_setSince_of_sampleFirst {w : World} (h : sampleFirst w = true) (i : Proc) (id : Uuid)
    (P : InvitationStatus → Prop) : ¬ SetSince w i id P := by
  rintro ⟨newer, e, older, inv, st, hlog, hs, -⟩
  have he : writesStatus e.op = false := by
    simpa using List.all_eq_true.mp h e (by simp [hlog])
  rcases hs.write with ⟨_, hop, -⟩ | ⟨_, hop, -⟩
  · rw [hop] at he
    cases he
  · rw [hop] at he
    cases he

/-- Ann's invitation of Bob. -/
def sampleInvitation (status : InvitationStatus) (acceptedAt : Option Time) : Invitation :=
  { id := ⟨9⟩
    orgID := ⟨3⟩
    email := "bob@b.io"
    role := .member
    token := "0a"
    status := status
    invitedBy := some ⟨1⟩
    expiresAt := 604800000000
    acceptedAt := acceptedAt
    createdAt := 0
    updatedAt := 0 }

/-- The invitations of a configuration. -/
def sampleRows (c : Config Proc World Op Op.Res) : List Invitation := c.state.db.invitations.rows

/-- Bob accepts an invitation of Ann. -/
def sampleAccepted : List (Proc × Choice) :=
  sampleInvited ++ sampleTurns 3 [0, 0, 0, 0, 0, 10, 0, 0, 0, 0]

/-- Bob accepts, and stays accepted while Ann looks at the invitation. -/
theorem life_cycle_sample :
    ∃ c c', sampleRows c = [sampleInvitation .accepted (some 0)] ∧
      sampleRows c' = [sampleInvitation .accepted (some 0)] ∧ LifeCycle c.state c'.state := by
  let g (w : World) (i : Proc) (o : Op) : Bool :=
    match o with
    | .sql (.invitationUpdateStatus _ _) => false
    | .sql (.invitationAccept _ _) => sampleFirst w
    | _ => true
  have hg (w : World) (i : Proc) (o : Op) (h : g w i o = true) : Orderly w i o := by
    unfold Orderly
    split
    · cases h
    · exact not_setSince_of_sampleFirst h _ _ _
    · trivial
  have hrun : (sampleRuns g sampleAccepted (sampleTurns 4 [0, 0, 0, 0])).map
      (fun p ↦ (sampleRows p.1, sampleRows p.2)) =
      some ([sampleInvitation .accepted (some 0)], [sampleInvitation .accepted (some 0)]) := by
    decide +kernel
  obtain ⟨c, c', h, hto, hc, hc'⟩ := sample_seen_twice hg hrun
  exact ⟨c, c', hc, hc', life_cycle h hto⟩

/-- Bob has accepted, and Ann cancels. -/
theorem accepted_then_cancelled :
    ∃ c c', (system sampleEnv sampleSent anyStep).Reachable (World.start 0) c ∧
      ReflTransGen (system sampleEnv sampleSent anyStep).Step c c' ∧
      sampleRows c = [sampleInvitation .accepted (some 0)] ∧
      sampleRows c' = [sampleInvitation .cancelled (some 0)] ∧ ¬ LifeCycle c.state c'.state := by
  have hrun : (sampleRuns (fun _ _ _ ↦ true) sampleAccepted (sampleTurns 4 [0, 0, 0, 0, 0, 0])).map
      (fun p ↦ (sampleRows p.1, sampleRows p.2)) =
      some ([sampleInvitation .accepted (some 0)], [sampleInvitation .cancelled (some 0)]) := by
    decide +kernel
  obtain ⟨c, c', h, hto, hc, hc'⟩ := sample_seen_twice (fun _ _ _ _ ↦ trivial) hrun
  refine ⟨c, c', h, hto, hc, hc', fun hl ↦ ?_⟩
  have hmem : sampleInvitation .cancelled (some 0) ∈ sampleRows c' := by
    rw [hc']
    exact List.mem_singleton.mpr rfl
  cases (hl.1 _ hmem).mpr (Option.some_ne_none 0)

/-! ### Cancellation -/

/-- The requests that take up invitations. -/
def Answers (route : Route) : Prop :=
  route = .acceptInvitation ∨ ∃ id, route = .respondToInvitation id

/-- A membership has been inserted from the invitation. -/
def Joined (sent : Nat → Route × Request) (id : Uuid) (log : List Entry) : Prop :=
  ∃ newer e older n, ∃ m a : Membership, ∃ inv, log = newer ++ e :: older ∧ e.proc = .client n ∧
    e.event = (Stmt.membershipCreate m).returned a ∧ Answers (sent n).1 ∧
    Read (history older (.client n)) inv ∧ inv.id = id

theorem Joined.append {id : Uuid} {log : List Entry} (h : Joined sent id log) (later : List Entry) :
    Joined sent id (later ++ log) := by
  obtain ⟨newer, e, older, n, m, a, inv, rfl, hrest⟩ := h
  exact ⟨later ++ newer, e, older, n, m, a, inv, by rw [List.append_assoc], hrest⟩

/-- Where `CancelInvitation` has set the status and answered 200 before a membership was inserted
from the invitation, none is inserted and the status stays. -/
def CancellationWins (sent : Nat → Route × Request) (w : World) : Prop :=
  ∀ n id newer e older res, w.log = newer ++ e :: older → e.proc = .client n →
    e.event = ⟨.respond res, ()⟩ → res.code = 200 →
    (Stmt.invitationUpdateStatus id "cancelled").returned () ∈ history older (.client n) →
    ¬ Joined sent id older →
    ¬ Joined sent id w.log ∧ ∀ inv ∈ w.db.invitations, inv.id = id → inv.status = .cancelled

/-- No request goes on with an invitation that was cancelled after the request had read it. -/
def Undisturbed (w : World) (i : Proc) : Op → Prop
  | .sql (.membershipCreate _) =>
    ∀ inv, Read (w.past i) inv → ¬ SetSince w i inv.id (· = .cancelled)
  | .sql (.invitationUpdateStatus id status) =>
    status = "cancelled" ∨ ¬ SetSince w i id (· = .cancelled)
  | .sql (.invitationAccept id _) => ¬ SetSince w i id (· = .cancelled)
  | _ => True

/-- What a cancellation leaves in an undisturbed run. -/
structure Cancelled (sent : Nat → Route × Request) (w : World) : Prop where
  rows : ∀ e ∈ w.log, ∀ id, Sets e.event id .cancelled → ∀ inv ∈ w.db.invitations, inv.id = id →
    inv.status = .cancelled
  shown : ∀ e ∈ w.log, ∀ i inv, Sets e.event inv.id .cancelled → Shown (w.past i) inv →
    inv.status ≠ .cancelled → SetSince w i inv.id (· = .cancelled)
  joined : ∀ newer e older id, w.log = newer ++ e :: older → Sets e.event id .cancelled →
    Joined sent id w.log → Joined sent id older

/-- Only `cancelled` is written to a cancelled invitation. -/
private theorem Cancelled.written {i : Proc} {o : Op} {w : World} {r : o.Res} {e : Entry} {id : Uuid}
    {st : InvitationStatus} (h : Cancelled sent w) (hg : Undisturbed w i o)
    (hp : promise sent env i (w.past i) o) (he : e ∈ w.log) (hc : Sets e.event id .cancelled)
    (hs : Sets ⟨o, r⟩ id st) : st = .cancelled := by
  obtain ⟨inv, hshown, rfl, hst | ⟨-, hpending⟩⟩ := sets_shown hp hs
  · exact hst
  · have hsince := h.shown e he i inv hc hshown (by simp [hpending])
    rcases hs.write with ⟨status, rfl, hst⟩ | ⟨t, rfl, -⟩
    · rcases hg with rfl | hg
      · exact (Option.some.inj hst).symm
      · exact absurd hsince hg
    · exact absurd hsince hg

/-- No membership is inserted from a cancelled invitation. -/
private theorem Cancelled.not_joining {n : Nat} {m : Membership} {w : World} {e : Entry}
    {inv : Invitation} (h : Cancelled sent w) (hg : Undisturbed w (.client n) (.sql (.membershipCreate m)))
    (hp : promise sent env (.client n) (w.past (.client n)) (.sql (.membershipCreate m)))
    (hroute : Answers (sent n).1) (hread : Read (w.past (.client n)) inv) (he : e ∈ w.log) :
    ¬ Sets e.event inv.id .cancelled := by
  intro hc
  rcases hp with hfounds | ⟨inv', htakes, -⟩
  · rcases hfounds.user with ⟨hr, -⟩ | ⟨hr, -⟩ <;> rcases hroute with hr' | ⟨_, hr'⟩ <;>
      rw [hr] at hr' <;> cases hr'
  · rw [← htakes.only inv hread] at htakes
    exact hg inv hread (h.shown e he _ inv hc (.inl hread) (by simp [htakes.pending]))

private theorem Cancelled.step {i : Proc} {o : Op} {w w' : World} {r : o.Res} (h : Cancelled sent w)
    (hk : Known w) (hp : promise sent env i (w.past i) o)
    (hx : (system env sent Undisturbed).exec i o w r w') : Cancelled sent w' := by
  obtain ⟨t, hlog⟩ := hx.2.log_eq
  constructor
  · intro e he id hc inv hinv hid
    subst hid
    have hset (hs : Sets ⟨o, r⟩ inv.id inv.status) : inv.status = .cancelled := by
      rw [hlog, List.mem_cons] at he
      rcases he with rfl | he
      · exact hs.unique hc
      · exact h.written hx.1 hp he hc hs
    have hissued : inv.id ∈ w.issued := by
      rw [hlog, List.mem_cons] at he
      rcases he with rfl | he
      · obtain ⟨inv₀, hshown, hid, -⟩ := sets_shown hp hc
        exact hid ▸ hk.shown i inv₀ hshown
      · exact hk.set e he _ _ hc
    cases origin hx hinv with
    | kept inv₀ h₀ hid hs _ hns =>
      rw [hlog, List.mem_cons] at he
      rcases he with rfl | he
      · exact absurd hc (hns _)
      · rw [← hs]
        exact h.rows e he _ hc inv₀ h₀ hid
    | created inv₀ inv₁ hfresh => exact absurd hissued hfresh
    | updated inv₀ status _ _ hst => exact hset (.inl ⟨status, rfl, hst⟩)
    | accepted inv₀ t _ _ hs => exact hset (.inr ⟨t, rfl, hs⟩)
  · intro e he j inv hc hshown hne
    rw [hlog, List.mem_cons] at he
    rcases shown_step hx hshown with hshown | ⟨hnew, hinv⟩
    · rcases he with rfl | he
      · exact ⟨[], _, w.log, inv, .cancelled, hlog, hc, rfl, hshown, rfl⟩
      · exact (h.shown e he j inv hc hshown hne).cons hlog
    · rcases he with rfl | he
      · exact absurd hnew (not_shown_of_sets hc inv)
      · exact absurd (h.rows e he _ hc inv hinv rfl) hne
  · intro newer e older id hsplit hc hjoined
    have hold (hjoined : Joined sent id w.log) : Joined sent id older := by
      rw [hlog, List.cons_eq_append_iff] at hsplit
      rcases hsplit with ⟨rfl, hsplit⟩ | ⟨newer', rfl, hsplit⟩
      · obtain ⟨rfl, rfl⟩ := List.cons.inj hsplit
        exact hjoined
      · exact h.joined newer' e older id hsplit hc hjoined
    obtain ⟨newer', e', older', n, m, a, inv, hsplit', hproc, hevent, hroute, hread, rfl⟩ := hjoined
    rw [hlog, List.cons_eq_append_iff] at hsplit'
    rcases hsplit' with ⟨rfl, hsplit'⟩ | ⟨newer'', rfl, hsplit'⟩
    · -- the membership is inserted now
      obtain ⟨rfl, rfl⟩ := List.cons.inj hsplit'
      cases hevent
      cases hproc
      rw [hlog, List.cons_eq_append_iff] at hsplit
      rcases hsplit with ⟨rfl, hsplit⟩ | ⟨newer'', rfl, hsplit⟩
      · obtain ⟨rfl, rfl⟩ := List.cons.inj hsplit
        rcases hc.write with ⟨_, he, -⟩ | ⟨_, he, -⟩ <;> cases he
      · refine absurd hc (h.not_joining hx.1 hp hroute hread ?_)
        rw [hsplit]
        exact List.mem_append_right _ List.mem_cons_self
    · exact hold ⟨newer'', e', older', n, m, a, inv, hsplit', hproc, hevent, hroute, hread, rfl⟩

theorem cancelled (h : (system env sent Undisturbed).Reachable (World.start now) c) :
    Cancelled sent c.state := by
  refine h.induct (I := fun c ↦ Cancelled sent c.state) ⟨?_, ?_, ?_⟩ fun c c' hreach ih hstep ↦ ?_
  · intro e he
    cases he
  · intro e he
    cases he
  · intro newer e older id hlog
    exact absurd hlog (by simp [System.init, World.start])
  · cases hstep with
    | act hp hx => exact ih.step (known hreach) (promised_next hreach hp hx) hx
    | again => exact ih

/-- In undisturbed runs, a cancellation wins once it has returned. -/
theorem cancellation_wins (h : (system env sent Undisturbed).Reachable (World.start now) c) :
    CancellationWins sent c.state := by
  intro n id newer e older res hlog _ _ _ hcancel hnone
  obtain ⟨e', he', hevent⟩ := List.mem_map.mp hcancel
  obtain ⟨between, before, rfl⟩ := List.append_of_mem (List.mem_filter.mp he').1
  have hc : Sets e'.event id .cancelled := .inl ⟨"cancelled", hevent, rfl⟩
  constructor
  · intro hjoined
    have hbefore := (cancelled h).joined (newer ++ e :: between) e' before id (by simp [hlog]) hc hjoined
    refine hnone ?_
    have hlater := hbefore.append (between ++ [e'])
    simpa using hlater
  · exact (cancelled h).rows e' (by simp [hlog]) id hc

/-- The schedules that disturb no cancellation. -/
private def sampleUndisturbed (w : World) (_ : Proc) : Op → Bool
  | .sql (.membershipCreate _) | .sql (.invitationAccept _ _) => sampleFirst w
  | .sql (.invitationUpdateStatus _ status) => status = "cancelled"
  | _ => true

/-- Ann cancels, and Bob's attempt to accept changes nothing. -/
theorem cancellation_wins_sample :
    ∃ c, sampleRows c = [sampleInvitation .cancelled none] ∧ CancellationWins sampleSent c.state := by
  have hg (w : World) (i : Proc) (o : Op) (h : sampleUndisturbed w i o = true) :
      Undisturbed w i o := by
    unfold Undisturbed
    split
    · exact fun _ _ ↦ not_setSince_of_sampleFirst h _ _ _
    · exact .inl (of_decide_eq_true h)
    · exact not_setSince_of_sampleFirst h _ _ _
    · trivial
  have hrun : (sampleRun sampleUndisturbed (sampleInvited ++ sampleTurns 4 [0, 0, 0, 0, 0, 0] ++
      sampleTurns 3 [0, 0, 0, 0])).map sampleRows = some [sampleInvitation .cancelled none] := by
    decide +kernel
  obtain ⟨c, h, hc⟩ := sample_seen hg hrun
  exact ⟨c, hc, cancellation_wins h⟩

/-- The status that an entry has written, and to which invitation. -/
def writtenStatus : Entry → Option (Uuid × String)
  | ⟨_, .sql (.invitationUpdateStatus id status), .ok (), _⟩ => some (id, status)
  | _ => none

theorem event_of_writtenStatus {e : Entry} {id : Uuid} {status : String}
    (h : writtenStatus e = some (id, status)) :
    e.event = (Stmt.invitationUpdateStatus id status).returned () := by
  unfold writtenStatus at h
  split at h
  · cases h
    rfl
  · cases h

/-- Ann's request has cancelled invitation 9 and answered 200, and only registrations have inserted
memberships. -/
def sampleCancelled (c : Config Proc World Op Op.Res) : Bool :=
  match c.state.log with
  | [] => false
  | e :: older =>
    e.proc = .client 4 && (match e.op with
      | .respond res => res.code = 200
      | _ => false) &&
    older.any (fun e ↦ e.proc = .client 4 && writtenStatus e = some (⟨9⟩, "cancelled")) &&
    older.all fun e ↦ match e.op with
      | .sql (.membershipCreate _) => e.proc = .client 0 || e.proc = .client 1
      | _ => true

private theorem sampleCancelled_spec {c : Config Proc World Op Op.Res} (h : sampleCancelled c = true) :
    ∃ e older res, c.state.log = e :: older ∧ e.proc = .client 4 ∧ e.event = ⟨.respond res, ()⟩ ∧
      res.code = 200 ∧
      (Stmt.invitationUpdateStatus ⟨9⟩ "cancelled").returned () ∈ history older (.client 4) ∧
      ¬ Joined sampleSent ⟨9⟩ older := by
  unfold sampleCancelled at h
  split at h
  · cases h
  · next e older hlog =>
    simp only [Bool.and_eq_true, decide_eq_true_eq] at h
    obtain ⟨⟨⟨hproc, hrespond⟩, hany⟩, hall⟩ := h
    have hres : ∃ res, e.event = ⟨.respond res, ()⟩ ∧ res.code = 200 := by
      obtain ⟨p, o, r, t⟩ := e
      cases o with
      | respond res => exact ⟨res, rfl, of_decide_eq_true hrespond⟩
      | _ => cases hrespond
    obtain ⟨res, hevent, hcode⟩ := hres
    refine ⟨e, older, res, hlog, hproc, hevent, hcode, ?_, ?_⟩
    · obtain ⟨e', he', hw⟩ := List.any_eq_true.mp hany
      simp only [Bool.and_eq_true, decide_eq_true_eq] at hw
      rw [← event_of_writtenStatus hw.2]
      exact List.mem_map_of_mem (List.mem_filter.mpr ⟨he', decide_eq_true hw.1⟩)
    · rintro ⟨newer, ⟨p, o, r, t⟩, _, n, m, a, inv, rfl, rfl, hjoin, hroute, -⟩
      cases hjoin
      have hn := List.all_eq_true.mp hall _ (List.mem_append_right _ List.mem_cons_self)
      have hn' : n = 0 ∨ n = 1 := by simpa using hn
      rcases hn' with rfl | rfl <;> rcases hroute with hr | ⟨_, hr⟩ <;> cases hr

/-- Bob has read the invitation, Ann cancels it with answer 200, and Bob's request goes on. -/
theorem cancelled_then_accepted :
    ∃ c, (system sampleEnv sampleSent anyStep).Reachable (World.start 0) c ∧
      sampleRows c = [sampleInvitation .accepted (some 0)] ∧ ¬ CancellationWins sampleSent c.state := by
  have hrun : (sampleRuns (fun _ _ _ ↦ true)
      (sampleInvited ++ sampleTurns 3 [0, 0, 0, 0, 0] ++ sampleTurns 4 [0, 0, 0, 0, 0, 0])
      (sampleTurns 3 [10, 0, 0, 0, 0])).map (fun p ↦
        ((sampleCancelled p.1, sampleRows p.1), (sampleCancelled p.2, sampleRows p.2))) =
      some ((true, [sampleInvitation .cancelled none]), (false, [sampleInvitation .accepted (some 0)])) := by
    decide +kernel
  obtain ⟨c, c', h, hto, hc, hc'⟩ :=
    sample_seen_twice (f := fun c ↦ (sampleCancelled c, sampleRows c)) (fun _ _ _ _ ↦ trivial) hrun
  have hrows : sampleRows c' = [sampleInvitation .accepted (some 0)] := (Prod.mk.inj hc').2
  refine ⟨c', h.trans hto, hrows, fun hw ↦ ?_⟩
  obtain ⟨e, older, res, hlog, hproc, hevent, hcode, hcancel, hnone⟩ :=
    sampleCancelled_spec (Prod.mk.inj hc).1
  obtain ⟨later, hlater⟩ := log_suffix hto
  rw [hlog] at hlater
  have hrow := (hw 4 ⟨9⟩ later e older res hlater hproc hevent hcode hcancel hnone).2
  have hmem : sampleInvitation .accepted (some 0) ∈ sampleRows c' := by
    rw [hrows]
    exact List.mem_singleton.mpr rfl
  cases hrow _ hmem rfl

end Chis.Access
