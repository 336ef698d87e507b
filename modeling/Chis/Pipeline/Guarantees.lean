import Chis.Pipeline.Soundness
import Mathlib.Data.Set.Card

/-!
# What the pipeline guarantees

Over all runs in which no operation fails, in any order of the operations: a message is with at
most one holder, it is not sent again once it was received, the backoff passes between two
deliveries, and there are at most six of them, one more than `MaxAttempts`.
-/

namespace Chis.Pipeline

open Program

/-! ### At most one holder -/

/-- Received, or written off: no delivery of the message can start any more. -/
def Life.over : Life → Bool
  | .answered _ _ ok _ => ok
  | .settled _ | .lost | .dropped => true
  | _ => false

theorem over_stays {h : History} {t : Time} {ev : Event} {m : Uuid} (ha : Allowed h t ev)
    (ho : (life h m).over = true) : ((life h m).next m t ev).over = true := by
  cases ev with
  | updated i msg =>
    cases hl : life h m <;> rw [hl] at ho <;> cases i <;>
      grind [Life.next, Life.write, Life.over, Allowed]
  | listed msgs =>
    simp only [Life.next]
    split
    · cases hl : life h m <;> rw [hl] at ho <;> exact ho
    · exact ho
  | _ =>
    cases hl : life h m <;> rw [hl] at ho <;>
      grind [Life.next, Life.enqueue, Life.take, Life.start, Life.answer, Life.over, Allowed]

/-- After a message was received no delivery of it starts. -/
theorem no_start_after {newer older : History} {w w' : Nat} {m : Uuid} {t t' : Time}
    (hv : Valid (newer ++ (.answered w m true, t) :: older)) : (.started w' m, t') ∉ newer := by
  have hover : ∀ newer, Valid (newer ++ (.answered w m true, t) :: older) →
      (life (newer ++ (.answered w m true, t) :: older) m).over = true ∧
        (.started w' m, t') ∉ newer := by
    intro newer
    induction newer with
    | nil =>
      rintro ⟨-, n, hl⟩
      rw [List.nil_append, life_cons, hl, Life.next, if_pos rfl]
      exact ⟨rfl, List.not_mem_nil⟩
    | cons e newer ih =>
      obtain ⟨ev, t₁⟩ := e
      rintro ⟨hv, ha⟩
      obtain ⟨ho, hn⟩ := ih hv
      constructor
      · exact over_stays ha ho
      · intro hm
        rcases List.mem_cons.mp hm with he | hm
        · cases he
          obtain ⟨n, due, hl, -⟩ := ha
          rw [show life (newer ++ _) m = _ from hl] at ho
          cases ho
        · exact hn hm
  exact (hover newer hv).2

/-- The id of a message is in the queue at most once, or with at most one worker; and a message
that was received is not sent again. -/
theorem one_holder {env : Platform} {jobs : Nat → Job} {w : World}
    {c : Config Proc World Op Op.Res} (hw : Fresh w)
    (hc : (pipeline env jobs anyOrder).Reachable w c) (m : Uuid) :
    ((c.state.queue.countP fun s ↦ Uuid.parse s = some m : ℕ) : ℕ∞) +
        {n | hand (history c.state) n = some m}.encard ≤ 1 ∧
      ∀ newer older n t, history c.state = newer ++ (.answered n m true, t) :: older →
        ∀ n' t', (.started n' m, t') ∉ newer := by
  obtain ⟨hv, hl, -⟩ := pipeline_sound hw hc
  constructor
  · rw [hl.queue]
    have hhold : {n | hand (history c.state) n = some m} =
        {n | (life (history c.state) m).holder = some n} := by
      ext n
      exact hand_iff hv n m
    rw [hhold]
    cases hlife : life (history c.state) m with
    | held w n due => simp [Life.isQueued, Life.holder]
    | sent w n => simp [Life.isQueued, Life.holder]
    | answered w n ok since => simp [Life.isQueued, Life.holder]
    | _ => simp [Life.isQueued, Life.holder]
  · intro newer older n t he n' t'
    rw [he] at hv
    exact no_start_after hv

theorem one_holder_sample :
    ∃ c, (pipeline samplePlatform sampleJobs anyOrder).Reachable sampleWorld c ∧
      hand (history c.state) 0 = some ⟨2⟩ ∧
      ((c.state.queue.countP fun s ↦ Uuid.parse s = some ⟨2⟩ : ℕ) : ℕ∞) +
        {n | hand (history c.state) n = some ⟨2⟩}.encard ≤ 1 := by
  let schedule := steps (.client 0) 2 (sampleChoice 0 2 500) ++
    steps (.worker 0) 1 (sampleChoice 0 3 500)
  have hrun : (playSample (fun _ _ ↦ true) schedule).map (fun c ↦ hand (history c.state) 0) =
      some (some ⟨2⟩) := by decide +kernel
  obtain ⟨c, hc, hh⟩ := sample_run (by decide +kernel) hrun
  exact ⟨c, hc, hh, (one_holder sampleWorld_fresh hc ⟨2⟩).1⟩

/-! ### The backoff and the bound -/

theorem Told.turns {ds : List Delivery} {ℓ : Life} (ht : Told ds ℓ) :
    (∃ n due, Waiting ds n due) ∨ ∃ n d, Turn ds n d := by
  cases ℓ with
  | absent =>
    cases (show ds = [] from ht)
    exact .inl ⟨0, 0, waiting_nil 0⟩
  | accepted c =>
    cases (show ds = [] from ht)
    exact .inl ⟨0, 0, waiting_nil 0⟩
  | sent w n =>
    obtain ⟨start, ht⟩ := ht
    exact .inr ⟨n, _, ht⟩
  | answered w n ok since =>
    obtain ⟨start, ht⟩ := ht
    exact .inr ⟨n, _, ht⟩
  | settled st =>
    rcases ht with ⟨-, rfl⟩ | ⟨n, d, t, ok, ht, -⟩
    · exact .inl ⟨0, 0, waiting_nil 0⟩
    · exact .inr ⟨n, d, ht⟩
  | lost =>
    rcases ht with ht | ⟨n, d, ht, -⟩
    · exact .inl ht
    · exact .inr ⟨n, d, ht⟩
  | dropped =>
    rcases ht with ht | ⟨n, d, ht, -⟩
    · exact .inl ht
    · exact .inr ⟨n, d, ht⟩
  | queued n due => exact .inl ⟨n, due, ht⟩
  | held w n due => exact .inl ⟨n, due, ht⟩
  | parked n due => exact .inl ⟨n, due, ht⟩
  | listed n due => exact .inl ⟨n, due, ht⟩

theorem Told.spaced {ds : List Delivery} {ℓ : Life} (ht : Told ds ℓ) : Spaced ds := by
  rcases ht.turns with ⟨n, due, ht⟩ | ⟨n, d, ht⟩
  · exact ht.spaced
  · exact ht.spaced

theorem Told.length_le {ds : List Delivery} {ℓ : Life} (ht : Told ds ℓ) : ds.length ≤ 6 := by
  rcases ht.turns with ⟨n, due, ht⟩ | ⟨n, d, ht⟩
  · have hb := ht.bound
    rw [ht.length]
    omega
  · have hb := ht.bound
    rw [ht.length]
    omega

/-- If the delivery after `k` others was refused and another is ever started, then that happens
after one of the first five and not before the exponential backoff has passed. -/
theorem backoff_respected {env : Platform} {jobs : Nat → Job} {w : World}
    {c : Config Proc World Op Op.Res} (hw : Fresh w)
    (hc : (pipeline env jobs anyOrder).Reachable w c) (m : Uuid) {k : Nat} {d d' : Delivery}
    {t : Time} (hk : (deliveries (history c.state) m)[k]? = some d)
    (hk' : (deliveries (history c.state) m)[k + 1]? = some d')
    (hd : d.answer = some (false, t)) :
    k + 1 ≤ 5 ∧ t + 2 ^ k * (Worker.baseBackoff / 1000) ≤ d'.start := by
  obtain ⟨hv, -, -⟩ := pipeline_sound hw hc
  have ht := told hv m
  constructor
  · have hlen := (List.getElem?_eq_some_iff.mp hk').1
    have hle := ht.length_le
    omega
  · exact ht.spaced k d d' t hk hk' hd

/-- A call queues message 2; then it is delivered `n` times, each answered 500. -/
def refusals (n : Nat) : List (Proc × Choice) :=
  steps (.client 0) 2 (sampleChoice 0 2 500) ++
    (List.range n).flatMap fun k : Nat ↦
      (if k = 0 then [] else steps .scheduler 4 (sampleChoice (100 * k) 0 500)) ++
        steps (.worker 0) (if k = 5 then 11 else 12) (sampleChoice (100 * k) (10 + k) 500)

theorem backoff_respected_sample :
    ∃ c, (pipeline samplePlatform sampleJobs anyOrder).Reachable sampleWorld c ∧
      ∃ d', (deliveries (history c.state) ⟨2⟩)[1]? = some ⟨0, 100000000, some (false, 100000000)⟩ ∧
        (deliveries (history c.state) ⟨2⟩)[2]? = some d' ∧
        1 + 1 ≤ 5 ∧ 100000000 + 2 ^ 1 * (Worker.baseBackoff / 1000) ≤ d'.start := by
  have hrun : (playSample (fun _ _ ↦ true) (refusals 3)).map (fun c ↦ ((deliveries (history c.state) ⟨2⟩)[1]?,
      (deliveries (history c.state) ⟨2⟩)[2]?)) = some (some ⟨0, 100000000, some (false, 100000000)⟩,
        some ⟨0, 200000000, some (false, 200000000)⟩) := by decide +kernel
  obtain ⟨c, hc, he⟩ := sample_run (by decide +kernel) hrun
  obtain ⟨h1, h2⟩ := Prod.mk.inj he
  exact ⟨c, hc, _, h1, h2, backoff_respected sampleWorld_fresh hc ⟨2⟩ h1 h2 rfl⟩

/-- There are never more than six deliveries. -/
theorem at_most_six {env : Platform} {jobs : Nat → Job} {w : World}
    {c : Config Proc World Op Op.Res} (hw : Fresh w)
    (hc : (pipeline env jobs anyOrder).Reachable w c) (m : Uuid) :
    (deliveries (history c.state) m).length ≤ 6 := by
  obtain ⟨hv, -, -⟩ := pipeline_sound hw hc
  exact (told hv m).length_le

/-- There can be six. -/
theorem at_most_six_sample :
    ∃ c, (pipeline samplePlatform sampleJobs anyOrder).Reachable sampleWorld c ∧
      5 < (deliveries (history c.state) ⟨2⟩).length ∧
      (deliveries (history c.state) ⟨2⟩).length ≤ 6 := by
  have hrun : (playSample (fun _ _ ↦ true) (refusals 6)).map
      (fun c ↦ (deliveries (history c.state) ⟨2⟩).length) = some 6 := by decide +kernel
  obtain ⟨c, hc, hlen⟩ := sample_run (by decide +kernel) hrun
  exact ⟨c, hc, by rw [hlen]; decide, at_most_six sampleWorld_fresh hc ⟨2⟩⟩

/-- The fifth delivery was answered without a 2xx status. -/
def FifthRefused (ds : List Delivery) : Prop := ∃ d, ds[4]? = some d ∧ d.Refused

/-- At most `MaxAttempts` deliveries, the last of them final. -/
def WithinMaxAttempts (ds : List Delivery) (row : Message) : Prop :=
  (ds.length : Int) ≤ Worker.maxAttempts ∧ (FifthRefused ds → row.status = .failed)

theorem Waiting.fifth {ds : List Delivery} {n : Nat} {due : Time} (hw : Waiting ds n due) :
    FifthRefused ds ↔ n = 5 := by
  have hb := hw.bound
  have hlen := hw.length
  constructor
  · rintro ⟨d, hd, -⟩
    have hlt := (List.getElem?_eq_some_iff.mp hd).1
    omega
  · rintro rfl
    have hlt : 4 < ds.length := by omega
    exact ⟨ds[4], List.getElem?_eq_getElem hlt, hw.refused _ (List.getElem_mem hlt)⟩

/-- A message that no worker has in hand has kept to `MaxAttempts` exactly when its fifth delivery
was not refused. -/
theorem within_iff {env : Platform} {jobs : Nat → Job} {w : World}
    {c : Config Proc World Op Op.Res} (hw : Fresh w)
    (hc : (pipeline env jobs anyOrder).Reachable w c) {row : Message}
    (hrow : row ∈ c.state.db.messages) (hfree : ∀ n, hand (history c.state) n ≠ some row.id) :
    WithinMaxAttempts (deliveries (history c.state) row.id) row ↔
      ¬ FifthRefused (deliveries (history c.state) row.id) := by
  obtain ⟨hv, hl, -⟩ := pipeline_sound hw hc
  have ht := told hv row.id
  have hr := hl.rows row hrow
  have hn : ∀ n, (life (history c.state) row.id).holder ≠ some n :=
    fun n hn ↦ hfree n ((hand_iff hv n row.id).mpr hn)
  generalize life (history c.state) row.id = ℓ at ht hr hn
  generalize deliveries (history c.state) row.id = ds at ht
  have hwaiting {n : Nat} {due : Time} (hs : row.status ≠ .failed) (hw : Waiting ds n due) :
      WithinMaxAttempts ds row ↔ ¬ FifthRefused ds := by
    have hb := hw.bound
    have hlen := hw.length
    constructor
    · exact fun h hf ↦ hs (h.2 hf)
    · refine fun h ↦ ⟨?_, fun hf ↦ absurd hf h⟩
      unfold Worker.maxAttempts
      omega
  have hsettled {n : Nat} {d : Delivery} (hs : row.status ≠ .failed ∨ n = 5) (ht : Turn ds n d) :
      WithinMaxAttempts ds row ↔ ¬ FifthRefused ds := by
    have hb := ht.bound
    have hlen := ht.length
    constructor
    · rintro ⟨hle, hfinal⟩ hf
      rcases hs with hs | hs
      · exact hs (hfinal hf)
      · unfold Worker.maxAttempts at hle
        omega
    · refine fun h ↦ ⟨?_, fun hf ↦ absurd hf h⟩
      unfold Worker.maxAttempts
      by_contra hle
      have hlt : 4 < ds.dropLast.length := by
        rw [List.length_dropLast]
        omega
      refine h ⟨ds.dropLast[4], ?_, ht.refused _ (List.getElem_mem hlt)⟩
      rw [List.getElem_dropLast]
      exact List.getElem?_eq_getElem (by omega)
  have hpending (hs : row.status = .pending) : row.status ≠ .failed := by
    rw [hs]
    simp
  have hretry (hs : row.status = .retry) : row.status ≠ .failed := by
    rw [hs]
    simp
  cases ℓ with
  | absent => exact hr.elim
  | dropped => exact hr.elim
  | accepted c =>
    cases (show ds = [] from ht)
    exact hwaiting (hpending hr.1) (waiting_nil 0)
  | queued n due =>
    rcases hr.2 with hs | ⟨hs, -⟩
    · exact hwaiting (hpending hs) ht
    · exact hwaiting (hretry hs) ht
  | parked n due => exact hwaiting (hretry hr.1) ht
  | listed n due => exact hwaiting (hretry hr.1) ht
  | held w n due => exact absurd rfl (hn w)
  | sent w n => exact absurd rfl (hn w)
  | answered w n ok since => exact absurd rfl (hn w)
  | lost =>
    rcases ht with ⟨n, due, ht⟩ | ⟨n, d, ht, -⟩
    · exact hwaiting (hpending hr) ht
    · exact hsettled (.inl (hpending hr)) ht
  | settled st =>
    rcases ht with ⟨-, rfl⟩ | ⟨n, d, t, ok, ht, -, ⟨hs, -⟩ | ⟨-, -, hn⟩⟩
    · simp [WithinMaxAttempts, FifthRefused, Worker.maxAttempts]
    · refine hsettled (.inl ?_) ht
      rw [show row.status = st from hr, hs]
      simp
    · exact hsettled (.inr hn) ht

theorem within_iff_sample :
    ∃ c, (pipeline samplePlatform sampleJobs anyOrder).Reachable sampleWorld c ∧
      ∃ row ∈ c.state.db.messages,
        WithinMaxAttempts (deliveries (history c.state) row.id) row ↔
          ¬ FifthRefused (deliveries (history c.state) row.id) := by
  have hrun : (playSample (fun _ _ ↦ true) (refusals 2)).map (fun c ↦ (c.state.db.messages.rows.map Message.id,
      life (history c.state) ⟨2⟩)) = some ([⟨2⟩], .parked 2 102000000) := by decide +kernel
  obtain ⟨c, hc, he⟩ := sample_run (by decide +kernel) hrun
  obtain ⟨hrows, hlife⟩ := Prod.mk.inj he
  obtain ⟨row, hrow, hid⟩ := exists_of_map_eq hrows
  refine ⟨c, hc, row, hrow, within_iff sampleWorld_fresh hc hrow fun n hn ↦ ?_⟩
  rw [hand_iff (pipeline_sound sampleWorld_fresh hc).1, hid, hlife] at hn
  cases hn

/-- A receiver that always answers 500 is sent the message six times before it is `failed`. -/
theorem six_refusals :
    ∃ c, (pipeline samplePlatform sampleJobs anyOrder).Reachable sampleWorld c ∧
      ∃ row ∈ c.state.db.messages, (∀ n, hand (history c.state) n ≠ some row.id) ∧
        (deliveries (history c.state) row.id).length = 6 ∧
        ¬ WithinMaxAttempts (deliveries (history c.state) row.id) row := by
  have hrun : (playSample (fun _ _ ↦ true) (refusals 6)).map (fun c ↦ (c.state.db.messages.rows.map Message.id,
      life (history c.state) ⟨2⟩, (deliveries (history c.state) ⟨2⟩).length)) =
        some ([⟨2⟩], .settled .failed, 6) := by decide +kernel
  obtain ⟨c, hc, he⟩ := sample_run (by decide +kernel) hrun
  obtain ⟨hrows, he⟩ := Prod.mk.inj he
  obtain ⟨hlife, hlen⟩ := Prod.mk.inj he
  obtain ⟨row, hrow, hid⟩ := exists_of_map_eq hrows
  rw [← hid] at hlen hlife
  refine ⟨c, hc, row, hrow, fun n hn ↦ ?_, hlen, fun hle ↦ ?_⟩
  · rw [hand_iff (pipeline_sound sampleWorld_fresh hc).1, hlife] at hn
    cases hn
  · have h5 := hle.1
    rw [hlen] at h5
    exact absurd h5 (by decide)

end Chis.Pipeline
