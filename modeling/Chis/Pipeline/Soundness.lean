import Chis.Pipeline.Refinement
import Mathlib.Tactic.IntervalCases

/-!
# The pipeline keeps to the protocol

Each process is safe under the contract: between two operations it knows of the message it owns and
of nothing else. So in every reachable state the history is valid and the world is as it tells.
-/

namespace Chis.Pipeline

open Program

variable {env : Platform} {jobs : Nat → Job} {G : History → Event → Prop} {i : Proc}
  {w w' : World} {ev : Event} {t : Time} {id : Uuid} {ℓ : Life} {msg : Message}

/-! ### What a process knows -/

/-- Process `i` owns no message. -/
def Free (i : Proc) (w : World) : Prop := ∀ m, (life (history w) m).owner ≠ some i

/-- Process `i` may own the message `id`, which stands at `ℓ`, and no other. -/
def Has (i : Proc) (id : Uuid) (ℓ : Life) (w : World) : Prop :=
  life (history w) id = ℓ ∧ ∀ m, (life (history w) m).owner = some i → m = id

/-- The row of `msg`, where it still exists, has the content of this copy. -/
def Copy (msg : Message) (w : World) : Prop :=
  ∀ row ∈ w.db.messages, row.id = msg.id → content row = content msg

theorem free_stable (hf : Free i w) (hr : (contract env G).rely i w w') : Free i w' := by
  intro m ho
  have hm := hr.2.2.1 m (.inr ho)
  rw [hm] at ho
  exact hf m ho

theorem has_stable (ho : ℓ.owner = some i) (hh : Has i id ℓ w)
    (hr : (contract env G).rely i w w') : Has i id ℓ w' := by
  obtain ⟨hl, honly⟩ := hh
  refine ⟨?_, fun m hm ↦ ?_⟩
  · rw [hr.2.2.1 id (.inl (by rw [hl]; exact ho)), hl]
  · have he := hr.2.2.1 m (.inr hm)
    rw [he] at hm
    exact honly m hm

theorem copy_stable (hne : life (history w) msg.id ≠ .absent) (hc : Copy msg w)
    (hs : SameContent w w') : Copy msg w' := by
  intro row' hr' he
  obtain ⟨row, hr, hid, hcont⟩ := hs row' hr' (by rw [he]; exact hne)
  rw [← hcont]
  exact hc row hr (hid.trans he)

/-- The message an event moves. -/
def Event.subject : Event → Option Uuid
  | .inserted _ m | .pushed _ m | .popped _ m | .missing _ m | .started _ m | .answered _ m _
  | .marked _ m _ => some m
  | .updated _ msg => some msg.id
  | .listed _ | .other => none

theorem next_of_ne {m : Uuid} (hs : ev.subject = some id) (hm : m ≠ id) :
    ℓ.next m t ev = ℓ := by
  cases ev with
  | listed msgs => cases hs
  | other => rfl
  | _ =>
    cases hs
    rw [Life.next, if_neg (Ne.symm hm)]

/-- The message moves on and stays with the process. -/
theorem Has.next (hh : Has i id ℓ w) (a : Advance env i w w' ev t) (hs : ev.subject = some id) :
    Has i id (ℓ.next id t ev) w' := by
  obtain ⟨hl, honly⟩ := hh
  refine ⟨?_, fun m hm ↦ ?_⟩
  · rw [a.log, life_cons, hl]
  · by_contra hne
    rw [a.log, life_cons, next_of_ne hs hne] at hm
    exact hne (honly m hm)

/-- The message moves on and leaves the process. -/
theorem Has.free (hh : Has i id ℓ w) (a : Advance env i w w' ev t) (hs : ev.subject = some id)
    (ho : (ℓ.next id t ev).owner ≠ some i) : Free i w' := by
  obtain ⟨hl, honly⟩ := hh.next a hs
  intro m hm
  rw [honly m hm, hl] at hm
  exact ho hm

/-- What means nothing for the messages changes nothing a process relies on. -/
theorem Advance.rely_other (a : Advance env i w w' .other t) :
    (contract env G).rely i w w' := by
  refine ⟨?_, a.same, fun m _ ↦ ?_, fun _ ↦ ?_⟩
  · rw [a.clock]
    exact a.le
  · rw [a.log]
    rfl
  · rw [a.log]
    rfl

/-! ### Rules for single operations -/

variable {α : Type} {Q : α → World → Prop} {o : Op} {k : o.Res → Service α}

/-- A harmless operation keeps what is stable. -/
theorem safe_other (P : World → Prop) (hp : P w)
    (stable : ∀ s s', P s → (contract env G).rely i s s' → P s') (ho : o.harmless = true)
    (he : ∀ s r s', P s → World.Exec env World.faultless i o s r s' → Event.of i o r = .other)
    (next : ∀ s r s', P s → (contract env G).inv s → World.Exec env World.faultless i o s r s' →
      P s' → Safe (pipeline env jobs G) (contract env G) i Q (k r) s') :
    Safe (pipeline env jobs G) (contract env G) i Q (.op o k) w := by
  refine Safe.op P hp (fun s s' hP hr _ ↦ stable s s' hP hr) ?_
  rintro s r s' hP hi ⟨hg, hx⟩
  have hev := he s r s' hP hx
  rw [hev] at hg
  obtain ⟨t, a⟩ := advance_other hi.1 hi.2.1 hx ho hev
  obtain ⟨hi', hj⟩ := a.keeps hi hg
  exact ⟨hi', hj, next s r s' hP hi hx (stable s s' hP a.rely_other)⟩

/-- An operation that is an event of the protocol. -/
theorem safe_event (P : World → Prop) (hp : P w)
    (stable : ∀ s s', P s → (contract env G).rely i s s' → P s')
    (next : ∀ s r s', P s → (contract env G).inv s → World.Exec env World.faultless i o s r s' →
      ∃ ev t, Event.of i o r = ev ∧ Advance env i s s' ev t ∧
        Safe (pipeline env jobs G) (contract env G) i Q (k r) s') :
    Safe (pipeline env jobs G) (contract env G) i Q (.op o k) w := by
  refine Safe.op P hp (fun s s' hP hr _ ↦ stable s s' hP hr) ?_
  rintro s r s' hP hi ⟨hg, hx⟩
  obtain ⟨ev, t, he, a, hs⟩ := next s r s' hP hi hx
  rw [he] at hg
  obtain ⟨hi', hj⟩ := a.keeps hi hg
  exact ⟨hi', hj, hs⟩

theorem safe_pure (P : World → Prop) (a : α) (hp : P w)
    (stable : ∀ s s', P s → (contract env G).rely i s s' → P s') :
    Safe (pipeline env jobs G) (contract env G) i (fun _ ↦ P) (.pure a) w :=
  Safe.done hp fun s s' hP hr _ ↦ stable s s' hP hr

/-! ### The worker -/

section Worker

variable {n : Nat}

/-- The worker has popped `msg`, which stands at `ℓ`, and read its row. -/
def Reading (n : Nat) (msg : Message) (ℓ : Life) (w : World) : Prop :=
  Has (.worker n) msg.id ℓ w ∧ Copy msg w

theorem reading_stable (ho : ℓ.owner = some (.worker n)) (s s' : World)
    (hh : Reading n msg ℓ s) (hr : (contract env G).rely (.worker n) s s') :
    Reading n msg ℓ s' := by
  refine ⟨has_stable ho hh.1 hr, copy_stable ?_ hh.2 hr.2.1⟩
  rw [hh.1.1]
  rintro rfl
  cases ho

theorem Reading.next (hh : Reading n msg ℓ w) (a : Advance env (.worker n) w w' ev t)
    (ho : ℓ.owner = some (.worker n)) (hs : ev.subject = some msg.id) :
    Reading n msg (ℓ.next msg.id t ev) w' := by
  refine ⟨hh.1.next a hs, copy_stable ?_ hh.2 a.same⟩
  rw [hh.1.1]
  rintro rfl
  cases ho

/-- The backoff of the attempts that are tried again fits in 64 bits. -/
theorem backoff_eq {k : Nat} (hk : k < 5) :
    Worker.backoff k = some (1000000000 * 2 ^ k) := by
  interval_cases k <;> decide

theorem addDuration_backoff (t : Time) (k : Nat) :
    Worker.addDuration t (1000000000 * 2 ^ k) = t + delay k := by
  unfold Worker.addDuration delay
  have hp : (1000000000 * 2 ^ k : Int) / 1000 = 2 ^ k * 1000000 := by omega
  rw [hp]

/-- `settle` writes the outcome and lets the message go. -/
theorem safe_settle {k : Nat} {ok : Bool} {since : Time}
    (hh : Reading n msg (.answered n k ok since) w) (hn : msg.attemptCount = k) :
    Safe (pipeline env jobs G) (contract env G) (.worker n) (fun _ ↦ Free (.worker n))
      (Worker.settle msg ok) w := by
  unfold Worker.settle
  split
  · next hok =>
    subst hok
    refine safe_event _ hh (reading_stable rfl) ?_
    intro s r s' hs hi hx
    have ha : ∀ t, Allowed (history s) t (.marked n msg.id .success) :=
      fun t ↦ .inr ⟨rfl, k, since, hs.1.1⟩
    have hm : ∀ t, Allowed (history s) t (.missing n msg.id) := fun t ↦ .inr ⟨k, since, hs.1.1⟩
    obtain ⟨ev, t, hev, he, a⟩ := advance_updateStatus hi.1 hi.2.1 hx ha hm
    refine ⟨ev, t, he.symm, a, safe_pure _ _ ?_ fun s s' ↦ free_stable⟩
    rcases hev with rfl | rfl
    · refine hs.1.free a rfl ?_
      rw [Life.next, if_pos rfl]
      simp [Life.owner]
    · refine hs.1.free a rfl ?_
      rw [Life.next, if_pos rfl]
      simp [Life.owner]
  · next hok =>
    rw [Bool.not_eq_true] at hok
    subst hok
    split
    · next hlt =>
      have hk : k < 5 := by
        rw [hn, Worker.maxAttempts] at hlt
        omega
      rw [hn, backoff_eq hk]
      refine safe_other _ hh (reading_stable rfl) rfl (fun _ _ _ _ _ ↦ rfl) ?_
      intro s (now : Time) s' hs hi hx hs'
      have hsince : since ≤ now :=
        le_trans (hi.2.1.passed msg.id since (by rw [hs.1.1]; rfl)) (exec_now hx)
      refine safe_event _ hs' (reading_stable rfl) ?_
      intro u r u' hu hi hx
      have ha : ∀ t, u.clock ≤ t → Allowed (history u) t (.updated (.worker n)
          (Worker.retryData msg (Worker.addDuration now (1000000000 * 2 ^ k)))) := by
        intro t _
        refine ⟨k, since, hu.1.1, .inl ⟨rfl, by rwa [← hn], by rw [← hn]; rfl, _, rfl, ?_⟩⟩
        rw [addDuration_backoff]
        exact Int.add_le_add_right hsince (delay k)
      obtain ⟨t, he, a⟩ := advance_update hi.1 hi.2.1 hx ha
      refine ⟨_, t, he, a, safe_pure _ _ (hu.1.free a rfl ?_) fun s s' ↦ free_stable⟩
      simp [Life.next, Life.write, Worker.retryData, Life.owner]
    · next hlt =>
      refine safe_event _ hh (reading_stable rfl) ?_
      intro s r s' hs hi hx
      have ha : ∀ t, s.clock ≤ t →
          Allowed (history s) t (.updated (.worker n) { msg with status := .failed }) := by
        intro t _
        refine ⟨k, since, hs.1.1, .inr ⟨rfl, ?_⟩⟩
        rw [← hn]
        exact Int.not_lt.mp hlt
      obtain ⟨t, he, a⟩ := advance_update hi.1 hi.2.1 hx ha
      refine ⟨_, t, he, a, safe_pure _ _ (hs.1.free a rfl ?_) fun s s' ↦ free_stable⟩
      rw [Life.next, if_pos rfl]
      simp [Life.write, Life.owner]

/-- A delivery, from its start to its outcome. -/
theorem safe_attempt {k : Nat} {due : Time} {req : HttpRequest}
    (hh : Reading n msg (.held n k due) w) (hn : msg.attemptCount = k)
    (hreq : (Worker.newRequest env msg.method msg.url msg.payload).isSome) :
    Safe (pipeline env jobs G) (contract env G) (.worker n) (fun _ ↦ Free (.worker n))
      (Worker.attempt msg req) w := by
  refine safe_other _ hh (reading_stable rfl) rfl (fun _ _ _ _ _ ↦ rfl) ?_
  intro _ start w hh hi hx hh
  refine safe_event _ hh (reading_stable rfl) ?_
  intro s r s' hs hi hx
  have hstart : ∀ t, s.clock ≤ t → Allowed (history s) t (.started n msg.id) := fun t ht ↦
    ⟨k, due, hs.1.1, le_trans (hi.2.1.passed msg.id due (by rw [hs.1.1]; rfl)) ht⟩
  have hev : Event.of (.worker n) (.send msg.id req) r = .started n msg.id := rfl
  obtain ⟨t, a⟩ := advance_http hi.1 hi.2.1 hx (.inl ⟨_, _, rfl⟩) hev hstart (by
    rintro _ _ ⟨⟩ row hrow hid
    have hc := hs.2 row hrow hid
    simp only [content, Prod.mk.injEq] at hc
    rw [hc.2.1, hc.2.2.1, hc.2.2.2]
    exact hreq)
  refine ⟨_, t, rfl, a, ?_⟩
  have hs' := hs.next a rfl rfl
  rw [Life.next, if_pos rfl, Life.start] at hs'
  refine safe_event _ hs' (reading_stable rfl) ?_
  intro u (answer : Answer) u' hu hi hx
  have hanswer : ∀ t, u.clock ≤ t → Allowed (history u) t (.answered n msg.id answer.ok) :=
    fun t _ ↦ ⟨k, hu.1.1⟩
  have hev : Event.of (.worker n) (.answer msg.id) answer = .answered n msg.id answer.ok := rfl
  obtain ⟨t, a⟩ := advance_http hi.1 hi.2.1 hx (.inr ⟨_, rfl⟩) hev hanswer (by simp)
  refine ⟨_, t, rfl, a, ?_⟩
  have hu' := hu.next a rfl rfl
  rw [Life.next, if_pos rfl, Life.answer] at hu'
  refine safe_other _ hu' (reading_stable rfl) rfl (fun _ _ _ _ _ ↦ rfl) ?_
  intro _ finish v _ _ _ hv
  refine safe_other _ hv (reading_stable rfl) rfl (fun _ _ _ _ _ ↦ rfl) ?_
  intro _ _ v _ _ _ hv
  exact safe_settle hv hn

/-- A request goes out with or without its signature. -/
theorem safe_sign {k : Nat} {due : Time} {req : HttpRequest}
    (hh : Reading n msg (.held n k due) w) :
    Safe (pipeline env jobs G) (contract env G) (.worker n)
      (fun _ ↦ Reading n msg (.held n k due)) (Worker.sign env msg req) w := by
  refine safe_other _ hh (reading_stable rfl) rfl (fun _ _ _ _ _ ↦ rfl) ?_
  intro _ r _ _ _ _ hh
  cases r with
  | error e => exact safe_pure _ _ hh (reading_stable rfl)
  | ok secret =>
    refine safe_other _ hh (reading_stable rfl) rfl (fun _ _ _ _ _ ↦ rfl) ?_
    intro _ now _ _ _ _ hh
    exact safe_pure _ _ hh (reading_stable rfl)

/-- A message that has been popped and read is delivered and let go. -/
theorem safe_deliver {k : Nat} {due : Time} (hh : Reading n msg (.held n k due) w)
    (hn : msg.attemptCount = k)
    (hreq : k ≠ 0 → (Worker.newRequest env msg.method msg.url msg.payload).isSome) :
    Safe (pipeline env jobs G) (contract env G) (.worker n) (fun _ ↦ Free (.worker n))
      (Worker.deliver env msg) w := by
  unfold Worker.deliver
  cases hnew : Worker.newRequest env msg.method msg.url msg.payload with
  | none =>
    have hk : k = 0 := by
      by_contra hk
      have hs := hreq hk
      rw [hnew] at hs
      cases hs
    subst hk
    refine safe_event _ hh (reading_stable rfl) ?_
    intro s r s' hs hi hx
    have ha : ∀ t, Allowed (history s) t (.marked n msg.id .failed) :=
      fun t ↦ .inl ⟨rfl, due, hs.1.1⟩
    have hm : ∀ t, Allowed (history s) t (.missing n msg.id) := fun t ↦ .inl ⟨0, due, hs.1.1⟩
    obtain ⟨ev, t, hev, he, a⟩ := advance_updateStatus hi.1 hi.2.1 hx ha hm
    refine ⟨ev, t, he.symm, a, safe_pure _ _ ?_ fun s s' ↦ free_stable⟩
    rcases hev with rfl | rfl
    · refine hs.1.free a rfl ?_
      rw [Life.next, if_pos rfl]
      simp [Life.owner]
    · refine hs.1.free a rfl ?_
      rw [Life.next, if_pos rfl]
      simp [Life.owner]
  | some req =>
    refine (safe_sign hh).bind fun req s hs ↦ safe_attempt hs hn ?_
    rw [hnew]
    rfl

/-- What the loop does with a popped id. -/
theorem safe_handle {k : Nat} {due : Time} {messageID : String}
    (hp : Uuid.parse messageID = some id) (hh : Has (.worker n) id (.held n k due) w) :
    Safe (pipeline env jobs G) (contract env G) (.worker n) (fun _ ↦ Free (.worker n))
      (Worker.handle env messageID) w := by
  unfold Worker.handle
  rw [hp]
  refine Safe.op _ hh (fun s s' hs hr _ ↦ has_stable rfl hs hr) ?_
  rintro s (r : Except Err Message) s' hs hi ⟨hg, hx⟩
  obtain ⟨ch, -, -, hex, -⟩ := exec_sql hx
  have hr : r = MessageRepository.findById id s.db := (congrArg Prod.fst hex).symm
  have hdb : s'.db = s.db := (congrArg Prod.snd hex).symm
  cases r with
  | error e =>
    have ha : ∀ t, Allowed (history s) t (.missing n id) := fun t ↦ .inl ⟨k, due, hs.1⟩
    obtain ⟨t, a⟩ := advance_missing hi.1 hi.2.1 hx rfl hdb
      (MessageRepository.findById_error hr.symm) ha
    obtain ⟨hi', hj⟩ := a.keeps hi hg
    refine ⟨hi', hj, safe_pure _ _ (hs.free a rfl ?_) fun s s' ↦ free_stable⟩
    rw [Life.next, if_pos rfl]
    simp [Life.owner]
  | ok message =>
    obtain ⟨hrow, rfl⟩ := MessageRepository.findById_ok hr.symm
    obtain ⟨t, a⟩ := advance_other hi.1 hi.2.1 hx rfl rfl
    obtain ⟨hi', hj⟩ := a.keeps hi hg
    have hok := hi.2.1.rows message hrow
    have hreq := hi.2.1.requests message hrow
    rw [hs.1] at hok hreq
    refine ⟨hi', hj, safe_deliver ⟨has_stable rfl hs (a.rely_other (G := G)), ?_⟩ hok.1 fun hk ↦ ?_⟩
    · intro row hr he
      rw [hdb] at hr
      rw [s.db.messages.eq_of_key hr hrow he]
    · exact hreq (by simpa [Life.tried] using hk)

/-- One turn of the worker's loop. -/
theorem safe_iteration (hf : Free (.worker n) w) :
    Safe (pipeline env jobs G) (contract env G) (.worker n) (fun _ ↦ Free (.worker n))
      (Worker.iteration env) w := by
  refine Safe.op _ hf (fun s s' hs hr _ ↦ free_stable hs hr) ?_
  rintro s (r : Except Err String) s' hs hi ⟨hg, hx⟩
  have hhand : hand (history s) n = none := by
    by_contra hne
    obtain ⟨m, hm⟩ := Option.ne_none_iff_exists'.mp hne
    have ho := (hand_iff hi.1 n m).mp hm
    refine hs m ?_
    cases hl : life (history s) m <;> rw [hl] at ho <;> cases ho <;> rfl
  rcases advance_pop hi.1 hi.2.1 hx hhand with ⟨t, a, hp⟩ | ⟨x, m, k, due, t, rfl, hp, hl, a⟩
  · have he : Event.of (.worker n) .pop r = .other := by
      cases r with
      | error e => rfl
      | ok x => simp only [Event.of, hp x rfl]
    obtain ⟨hi', hj⟩ := a.keeps hi (he ▸ hg)
    have hf' : Free (.worker n) s' := free_stable hs (a.rely_other (G := G))
    refine ⟨hi', hj, ?_⟩
    cases r with
    | error e => exact safe_pure _ _ hf' fun s s' ↦ free_stable
    | ok x =>
      change Safe _ _ _ _ (Worker.handle env x) s'
      unfold Worker.handle
      rw [hp x rfl]
      exact safe_pure _ _ hf' fun s s' ↦ free_stable
  · have he : Event.of (.worker n) .pop (.ok x) = .popped n m := by
      simp only [Event.of, hp]
    obtain ⟨hi', hj⟩ := a.keeps hi (he ▸ hg)
    have hhas : Has (.worker n) m (.queued k due) s := ⟨hl, fun m' hm ↦ absurd hm (hs m')⟩
    have hh := hhas.next a rfl
    rw [Life.next, if_pos rfl, Life.take] at hh
    exact ⟨hi', hj, safe_handle hp hh⟩

end Worker

/-! ### The scheduler -/

section Scheduler

variable {todo : List Message}

theorem round_stable {r : Round} (s s' : World) (hh : round (history s) = r)
    (hr : (contract env G).rely .scheduler s s') : round (history s') = r := by
  rw [hr.2.2.2 rfl, hh]

/-- One message is pushed and written back. -/
theorem safe_requeue (hh : round (history w) = .idle (msg :: todo)) :
    Safe (pipeline env jobs G) (contract env G) .scheduler
      (fun _ w ↦ round (history w) = .idle todo) (Scheduler.requeue msg) w := by
  refine safe_event _ hh round_stable ?_
  intro s r s' hs hi hx
  have ha : ∀ t, Allowed (history s) t (.pushed .scheduler msg.id) := fun t ↦ ⟨msg, todo, hs, rfl⟩
  obtain ⟨t, a⟩ := advance_push hi.1 hi.2.1 hx ha
  have he : Event.of .scheduler (.push msg.id.toString) r = .pushed .scheduler msg.id := by
    obtain ⟨-, -, rfl, -⟩ := exec_push hx
    simp only [Event.of, Uuid.parse_toString]
  refine ⟨_, t, he, a, ?_⟩
  have hs' : round (history s') = .pushed msg todo := by
    rw [a.log, round_cons, hs, Round.next]
  refine safe_event _ hs' round_stable ?_
  intro u r u' hu hi hx
  have ha : ∀ t, u.clock ≤ t →
      Allowed (history u) t (.updated .scheduler { msg with status := .pending }) :=
    fun t _ ↦ ⟨msg, todo, hu, rfl⟩
  obtain ⟨t, he, a⟩ := advance_update hi.1 hi.2.1 hx ha
  refine ⟨_, t, he, a, safe_pure _ _ ?_ round_stable⟩
  rw [a.log, round_cons, hu, Round.next]

/-- One round of the scheduler. -/
theorem safe_processRetries (hh : round (history w) = .idle []) :
    Safe (pipeline env jobs G) (contract env G) .scheduler
      (fun _ w ↦ round (history w) = .idle []) Scheduler.processRetries w := by
  refine Safe.op _ hh (fun s s' hs hr _ ↦ round_stable s s' hs hr) ?_
  rintro s (r : Except Err (List Message)) s' hs hi ⟨hg, hx⟩
  obtain ⟨msgs, t, rfl, a⟩ := advance_listed hi.1 hi.2.1 hx hs
  obtain ⟨hi', hj⟩ := a.keeps hi hg
  refine ⟨hi', hj, ?_⟩
  refine Safe.forEach (P := fun todo w ↦ round (history w) = .idle todo) ?_ ?_ msgs ?_
  · exact fun msg rest u hu ↦ safe_requeue hu
  · exact fun u u' hu hr _ ↦ round_stable u u' hu hr
  · rw [a.log, round_cons, Round.next]

end Scheduler

/-! ### The calls -/

section Client

variable {c : Nat}

/-- One call of `QueueMessage`. -/
theorem safe_queueMessage {req : Delivery.QueueMessageRequest} (hf : Free (.client c) w) :
    Safe (pipeline env jobs G) (contract env G) (.client c) (fun _ _ ↦ True)
      (Delivery.queueMessage req) w := by
  have done {α : Type} (a : α) (w : World) :
      Safe (pipeline env jobs G) (contract env G) (.client c) (fun _ _ ↦ True) (.pure a) w :=
    safe_pure _ _ trivial fun _ _ _ _ ↦ trivial
  unfold Delivery.queueMessage
  split
  · exact done _ w
  · refine Safe.op _ hf (fun s s' hs hr _ ↦ free_stable hs hr) ?_
    rintro s (r : Except Err Message) s' hs hi ⟨hg, hx⟩
    have howes : owes (history s) c = none := by
      by_contra hne
      obtain ⟨m, hm⟩ := Option.ne_none_iff_exists'.mp hne
      have ho := (owes_iff hi.1 c m).mp hm
      refine hs m ?_
      cases hl : life (history s) m <;> rw [hl] at ho <;> cases ho
      rfl
    rcases advance_create hi.1 hi.2.1 hx howes with ⟨e, t, rfl, a⟩ | ⟨message, t, rfl, hl, a⟩
    · obtain ⟨hi', hj⟩ := a.keeps hi hg
      exact ⟨hi', hj, done _ s'⟩
    · obtain ⟨hi', hj⟩ := a.keeps hi hg
      refine ⟨hi', hj, ?_⟩
      have hhas : Has (.client c) message.id .absent s := ⟨hl, fun m hm ↦ absurd hm (hs m)⟩
      have hh := hhas.next a rfl
      rw [Life.next, if_pos rfl] at hh
      refine safe_event _ hh (fun u u' hu hr ↦ has_stable rfl hu hr) ?_
      intro u r u' hu hi hx
      have ha : ∀ t, Allowed (history u) t (.pushed (.client c) message.id) := fun t ↦ hu.1
      obtain ⟨t, a⟩ := advance_push hi.1 hi.2.1 hx ha
      have he : Event.of (.client c) (.push message.id.toString) r =
          .pushed (.client c) message.id := by
        obtain ⟨-, -, rfl, -⟩ := exec_push hx
        simp only [Event.of, Uuid.parse_toString]
      exact ⟨_, t, he, a, done _ u'⟩

/-- For a client a harmless operation means nothing for the messages. -/
theorem event_of_harmless {o : Op} (ho : o.harmless = true) (r : o.Res) :
    Event.of (.client c) o r = .other := by
  cases o with
  | sql s =>
    cases s <;> cases r <;> first
      | rfl
      | cases ho
  | push s => cases ho
  | pop => cases ho
  | send id req => cases ho
  | answer id => cases ho
  | _ => rfl

/-- Any job of a client. -/
theorem safe_job {job : Job} (hf : Free (.client c) w) :
    Safe (pipeline env jobs G) (contract env G) (.client c) (fun _ _ ↦ True) job.program w := by
  cases job with
  | queueMessage req =>
    refine (safe_queueMessage hf).bind fun _ s _ ↦ ?_
    exact safe_pure _ _ trivial fun _ _ _ _ ↦ trivial
  | other p hp =>
    refine Safe.of_uses hp ?_ (fun _ _ ↦ trivial) w
    rintro o s r s' ho hi ⟨hg, hx⟩
    have he : Event.of (.client c) o r = .other := event_of_harmless ho r
    rw [he] at hg
    obtain ⟨t, a⟩ := advance_other hi.1 hi.2.1 hx ho he
    exact a.keeps hi hg

end Client

/-! ### The pipeline -/

theorem inv_fresh (hw : Fresh w) : (contract env G).inv w := by
  have hh : history w = [] := by
    rw [history, hw.log]
    rfl
  have hm : ∀ row, row ∉ w.db.messages := by
    intro row hrow
    rw [Relational.Table.mem_def, hw.messages] at hrow
    cases hrow
  refine ⟨?_, ?_, ?_⟩
  · rw [hh]
    trivial
  · constructor
    · rw [hh, hw.queue]
      exact fun m ↦ rfl
    · exact fun row hr ↦ absurd hr (hm row)
    · exact fun row hr ↦ absurd hr (hm row)
    · rw [hh]
      exact fun m hne ↦ absurd rfl hne
    · rw [hh]
      exact fun m t hp ↦ by cases hp
  · rw [hh]
    trivial

/-- What each process has settled when it ends a turn of its loop. -/
def Resting : Proc → World → Prop
  | .worker n, w => Free (.worker n) w
  | .scheduler, w => round (history w) = .idle []
  | .client _, _ => True

/-- In every reachable state the history is valid, and the queue, the rows and the clock are as it
tells. -/
theorem pipeline_sound {c : Config Proc World Op Op.Res} (hw : Fresh w)
    (hc : (pipeline env jobs G).Reachable w c) :
    Valid (history c.state) ∧ Linked env c.state ∧ Throughout G (history c.state) := by
  have hh : history w = [] := by
    rw [history, hw.log]
    rfl
  have hfree : ∀ i, Free i w := by
    intro i m
    rw [hh, life_nil]
    simp [Life.owner]
  have hstart : ∀ i, Safe (pipeline env jobs G) (contract env G) i (fun _ ↦ Resting i)
      ((pipeline env jobs G).body i) w := by
    intro i
    cases i with
    | worker n => exact safe_iteration (hfree _)
    | scheduler =>
      refine safe_processRetries ?_
      rw [hh]
      rfl
    | client c => exact safe_job (hfree _)
  have hagain : ∀ i, (pipeline env jobs G).loops i → ∀ s, Resting i s → (contract env G).inv s →
      Safe (pipeline env jobs G) (contract env G) i (fun _ ↦ Resting i)
        ((pipeline env jobs G).body i) s := by
    intro i hl s hs _
    cases i with
    | worker n => exact safe_iteration hs
    | scheduler => exact safe_processRetries hs
    | client c => exact absurd rfl (hl c)
  exact (System.sound (inv_fresh hw) hstart hagain hc).1

end Chis.Pipeline
