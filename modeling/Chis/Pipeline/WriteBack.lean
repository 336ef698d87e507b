import Chis.Pipeline.Soundness

/-!
# The scheduler's write-back

After pushing a message the scheduler writes back the whole row as it read it, whatever a worker
has written since. While no outcome falls between the two, no message is stranded and no final
status is undone; a run in which one does strands a message for good.
-/

namespace Chis.Pipeline

open Program Relation

/-- The message can still be picked up: its id is in the queue or with a worker, its call or the
scheduler's round has still to push it, or it waits for a retry. -/
def Recoverable (w : World) (row : Message) : Prop :=
  (∃ s ∈ w.queue, Uuid.parse s = some row.id) ∨
  (∃ n, hand (history w) n = some row.id) ∨
  (∃ c, owes (history w) c = some row.id) ∨
  (∃ msg ∈ (round (history w)).todo, msg.id = row.id) ∨
  (row.status = .retry ∧ row.nextRetryAt ≠ none)

variable {env : Platform} {jobs : Nat → Job} {w : World} {c c' : Config Proc World Op Op.Res}

/-- In every run in which no worker writes the outcome of a message between the scheduler's push of
it and the scheduler's write of its row, every message without a final status is recoverable. -/
theorem never_stranded (hw : Fresh w)
    (hc : (pipeline env jobs (Clear fun _ ↦ True)).Reachable w c) {row : Message}
    (hrow : row ∈ c.state.db.messages) (hs : row.status = .pending ∨ row.status = .retry) :
    Recoverable c.state row := by
  obtain ⟨hv, hl, hclear⟩ := pipeline_sound hw hc
  have hr := hl.rows row hrow
  have hnot := never_lost hv hclear row.id
  have hh := hand_iff hv
  have ho := owes_iff hv
  have hq := hl.queue row.id
  cases hlife : life (history c.state) row.id with
  | absent =>
    rw [hlife] at hr
    exact hr.elim
  | accepted c =>
    refine .inr (.inr (.inl ⟨c, (ho c row.id).mpr ?_⟩))
    rw [hlife]
    rfl
  | queued n due =>
    rw [hlife] at hq
    have hpos : 0 < c.state.queue.countP fun s ↦ Uuid.parse s = some row.id := by
      rw [hq]
      exact Nat.one_pos
    obtain ⟨s, hs, hp⟩ := List.countP_pos_iff.mp hpos
    exact .inl ⟨s, hs, of_decide_eq_true hp⟩
  | held n k due =>
    refine .inr (.inl ⟨n, (hh n row.id).mpr ?_⟩)
    rw [hlife]
    rfl
  | sent n k =>
    refine .inr (.inl ⟨n, (hh n row.id).mpr ?_⟩)
    rw [hlife]
    rfl
  | answered n k ok since =>
    refine .inr (.inl ⟨n, (hh n row.id).mpr ?_⟩)
    rw [hlife]
    rfl
  | parked n due =>
    rw [hlife] at hr
    refine .inr (.inr (.inr (.inr ⟨hr.1, ?_⟩)))
    rw [hr.2.2]
    simp
  | listed n due => exact .inr (.inr (.inr (.inl ((roundOk hv).todo row.id n due hlife))))
  | settled st =>
    rw [hlife] at hr
    have ht := told hv row.id
    rw [hlife] at ht
    have hst : row.status = st := hr
    rcases ht with ⟨rfl, -⟩ | ⟨n, d, t, ok, -, -, ⟨rfl, -⟩ | ⟨rfl, -⟩⟩ <;> rw [hst] at hs <;>
      simp at hs
  | lost => exact absurd hlife hnot
  | dropped =>
    rw [hlife] at hr
    exact hr.elim

/-- A lost message is a `pending` row that nothing will ever pick up. -/
theorem lost_stranded {G : History → Event → Prop} (hw : Fresh w)
    (hc : (pipeline env jobs G).Reachable w c) {row : Message}
    (hrow : row ∈ c.state.db.messages) (hlost : life (history c.state) row.id = .lost) :
    row.status = .pending ∧ ¬ Recoverable c.state row := by
  obtain ⟨hv, hl, -⟩ := pipeline_sound hw hc
  have hr := hl.rows row hrow
  have hq := hl.queue row.id
  rw [hlost] at hr hq
  have hs : row.status = .pending := hr
  refine ⟨hs, ?_⟩
  rintro (⟨s, hs, hp⟩ | ⟨n, hn⟩ | ⟨c, hc⟩ | ⟨msg, hm, hid⟩ | ⟨hretry, -⟩)
  · have hn := List.countP_eq_zero.mp hq s hs
    simp [hp] at hn
  · rw [hand_iff hv, hlost] at hn
    cases hn
  · rw [owes_iff hv, hlost] at hc
    cases hc
  · obtain ⟨n, due, hlisted, -⟩ := (roundOk hv).listed msg hm
    rw [hid, hlost] at hlisted
    cases hlisted
  · rw [hs] at hretry
    cases hretry

/-- Whether an event writes no outcome of the message the scheduler has pushed and not yet written
back. -/
def calm (h : History) (ev : Event) : Bool :=
  match (round h).current, ev.outcome with
  | some msg, some (id, _) => msg.id ≠ id
  | _, _ => true

theorem clear_of_calm (P : MessageStatus → Prop) (h : History) (ev : Event)
    (hc : calm h ev = true) : Clear P h ev := by
  intro msg st hcur ho
  simp [calm, hcur, ho] at hc

/-- A message is delivered and refused once, and the scheduler pushes it again and writes it back. -/
def onceRefused : List (Proc × Choice) :=
  steps (.client 0) 2 (sampleChoice 0 2 500) ++ steps (.worker 0) 12 (sampleChoice 0 3 500) ++
    steps .scheduler 3 (sampleChoice 100 0 500)

theorem never_stranded_sample :
    ∃ c, (pipeline samplePlatform sampleJobs (Clear fun _ ↦ True)).Reachable sampleWorld c ∧
      ∃ row ∈ c.state.db.messages, row.status = .pending ∧ Recoverable c.state row := by
  have hrun : (playSample calm onceRefused).map (fun c ↦
      c.state.db.messages.rows.map Message.status) = some [.pending] := by decide +kernel
  obtain ⟨c, hc, he⟩ := sample_reachable (clear_of_calm _) (by decide +kernel) hrun
  obtain ⟨row, hrow, hs⟩ := exists_of_map_eq he
  exact ⟨c, hc, row, hrow, hs, never_stranded sampleWorld_fresh hc hrow (.inl hs)⟩

/-- A message is delivered and refused once; the scheduler lists and pushes it, and a worker
delivers it and writes the outcome before the scheduler writes the row back. -/
def overtaking (code : Int) : List (Proc × Choice) :=
  steps (.client 0) 2 (sampleChoice 0 2 500) ++ steps (.worker 0) 12 (sampleChoice 0 3 500) ++
    steps .scheduler 2 (sampleChoice 100 0 500) ++
    steps (.worker 0) (if code = 200 then 10 else 11) (sampleChoice 101 4 code)

/-- When the outcome is a second refusal, the scheduler's write strands the message. -/
theorem stranded :
    ∃ c, (pipeline samplePlatform sampleJobs anyOrder).Reachable sampleWorld c ∧
      ∃ row ∈ c.state.db.messages, row.status = .pending ∧ ¬ Recoverable c.state row := by
  have hrun : (playSample (fun _ _ ↦ true) (overtaking 500 ++
      steps .scheduler 1 (sampleChoice 102 0 500))).map (fun c ↦
        (c.state.db.messages.rows.map Message.id, life (history c.state) ⟨2⟩)) =
          some ([⟨2⟩], .lost) := by decide +kernel
  obtain ⟨c, hc, he⟩ := sample_run (by decide +kernel) hrun
  obtain ⟨hrows, hlost⟩ := Prod.mk.inj he
  obtain ⟨row, hrow, hid⟩ := exists_of_map_eq hrows
  rw [← hid] at hlost
  exact ⟨c, hc, row, hrow, lost_stranded sampleWorld_fresh hc hrow hlost⟩

/-! ### Final statuses -/

theorem exec_history {i : Proc} {o : Op} {s s' : World} {r : o.Res}
    (hx : World.Exec env World.faultless i o s r s') :
    ∃ t, history s' = (Event.of i o r, t) :: history s := by
  obtain ⟨ch, s₁, -, hp, rfl⟩ := hx.faultless
  have hlog : s₁.log = s.log := by
    cases o with
    | sql q =>
      simp only [World.perform] at hp
      split at hp <;> cases hp
      rfl
    | pop =>
      simp only [World.perform] at hp
      split at hp <;> cases hp <;> rfl
    | panic => exact r.elim
    | _ =>
      cases hp
      rfl
  refine ⟨ch.now, ?_⟩
  simp only [history, List.map_cons, hlog]

/-- While no final status falls between the scheduler's push of a message and its write of the row,
a final status stands. -/
theorem settled_forever (hw : Fresh w)
    (hc : (pipeline env jobs (Clear (· ≠ .retry))).Reachable w c)
    (hc' : ReflTransGen (pipeline env jobs (Clear (· ≠ .retry))).Step c c') {m : Uuid}
    {st : MessageStatus} (hst : st ≠ .retry) (hs : life (history c.state) m = .settled st) :
    life (history c'.state) m = .settled st := by
  induction hc' with
  | refl => exact hs
  | @tail b b' hb hstep ih =>
    obtain ⟨hv, -, hp⟩ := pipeline_sound hw (hc.trans hb)
    have hv' := (pipeline_sound hw (hc.trans (hb.tail hstep))).1
    cases hstep with
    | again _ _ => exact ih
    | act _ hx =>
      obtain ⟨t, hh⟩ := exec_history hx.2
      change Valid (history _) at hv'
      rw [hh] at hv'
      change life (history _) m = _
      rw [hh, life_cons]
      exact settled_stays hv hp hst hv'.2 ih

/-- In every run in which no worker writes a final status of a message between the scheduler's push
of it and the scheduler's write of its row, a final status never changes. -/
theorem final_stands (hw : Fresh w)
    (hc : (pipeline env jobs (Clear (· ≠ .retry))).Reachable w c)
    (hc' : ReflTransGen (pipeline env jobs (Clear (· ≠ .retry))).Step c c') {row row' : Message}
    (hrow : row ∈ c.state.db.messages) (hrow' : row' ∈ c'.state.db.messages)
    (hid : row'.id = row.id) (hs : row.status = .success ∨ row.status = .failed) :
    row'.status = row.status := by
  have hsettled : life (history c.state) row.id = .settled row.status := by
    have hr := (pipeline_sound hw hc).2.1.rows row hrow
    cases hlife : life (history c.state) row.id <;> rw [hlife] at hr <;> grind [RowOk]
  have hst : row.status ≠ .retry := by
    rcases hs with hs | hs <;> rw [hs] <;> simp
  have hr := (pipeline_sound hw (hc.trans hc')).2.1.rows row' hrow'
  rw [hid, settled_forever hw hc hc' hst hsettled] at hr
  exact hr

/-- What two schedules in a row show of the sample. -/
private theorem sample_two {α : Type} {g : History → Event → Bool} {G : History → Event → Prop}
    (hg : ∀ h ev, g h ev = true → G h ev) {s u : List (Proc × Choice)}
    (h₁ : ∀ p ∈ s, World.faultless p.2) (h₂ : ∀ p ∈ u, World.faultless p.2)
    {f : Config Proc World Op Op.Res → α} {a b : α}
    (h : ((playSample g s).bind fun c ↦ (play samplePlatform g c u).map fun c' ↦ (f c, f c')) =
      some (a, b)) :
    ∃ c c', (pipeline samplePlatform sampleJobs G).Reachable sampleWorld c ∧
      ReflTransGen (pipeline samplePlatform sampleJobs G).Step c c' ∧ f c = a ∧ f c' = b := by
  obtain ⟨c, hc, hrun⟩ := Option.bind_eq_some_iff.mp h
  obtain ⟨c', hc', he⟩ := Option.map_eq_some_iff.mp hrun
  obtain ⟨ha, hb⟩ := Prod.mk.inj he
  exact ⟨c, c', play_reachable hg h₁ hc, play_reachable hg h₂ hc', ha, hb⟩

/-- The rows of the messages, as far as statuses go. -/
private def statuses (c : Config Proc World Op Op.Res) : List (Uuid × MessageStatus) :=
  c.state.db.messages.rows.map fun row ↦ (row.id, row.status)

theorem final_stands_sample :
    ∃ c c', (pipeline samplePlatform sampleJobs (Clear (· ≠ .retry))).Reachable sampleWorld c ∧
      ReflTransGen (pipeline samplePlatform sampleJobs (Clear (· ≠ .retry))).Step c c' ∧
      ∃ row ∈ c.state.db.messages, ∃ row' ∈ c'.state.db.messages, row.status = .success ∧
        row'.status = row.status := by
  obtain ⟨c, c', hc, hc', hs, hs'⟩ := sample_two (f := statuses) (G := Clear (· ≠ .retry))
    (s := onceRefused ++ steps (.worker 0) 10 (sampleChoice 101 4 200))
    (u := steps .scheduler 2 (sampleChoice 200 0 200)) (a := [(⟨2⟩, .success)])
    (b := [(⟨2⟩, .success)]) (clear_of_calm _) (by decide +kernel) (by decide +kernel)
    (by decide +kernel)
  obtain ⟨row, hrow, he⟩ := exists_of_map_eq hs
  obtain ⟨row', hrow', he'⟩ := exists_of_map_eq hs'
  obtain ⟨hid, hst⟩ := Prod.mk.inj he
  obtain ⟨hid', -⟩ := Prod.mk.inj he'
  exact ⟨c, c', hc, hc', row, hrow, row', hrow', hst,
    final_stands sampleWorld_fresh hc hc' hrow hrow' (hid'.trans hid.symm) (.inl hst)⟩

/-- When the outcome is `success`, the scheduler's write makes it `pending` again. -/
theorem success_undone :
    ∃ c c', (pipeline samplePlatform sampleJobs anyOrder).Reachable sampleWorld c ∧
      ReflTransGen (pipeline samplePlatform sampleJobs anyOrder).Step c c' ∧
      (∃ row ∈ c.state.db.messages, row.id = ⟨2⟩ ∧ row.status = .success) ∧
      ∃ row' ∈ c'.state.db.messages, row'.id = ⟨2⟩ ∧ row'.status = .pending := by
  obtain ⟨c, c', hc, hc', hs, hs'⟩ := sample_two (f := statuses) (G := anyOrder)
    (g := fun _ _ ↦ true) (s := overtaking 200)
    (u := steps .scheduler 1 (sampleChoice 102 0 500)) (a := [(⟨2⟩, .success)]) (b := [(⟨2⟩, .pending)]) (fun _ _ _ ↦ trivial) (by decide +kernel)
    (by decide +kernel) (by decide +kernel)
  obtain ⟨row, hrow, he⟩ := exists_of_map_eq hs
  obtain ⟨row', hrow', he'⟩ := exists_of_map_eq hs'
  exact ⟨c, c', hc, hc', ⟨row, hrow, Prod.mk.inj he⟩, row', hrow', Prod.mk.inj he'⟩

end Chis.Pipeline
