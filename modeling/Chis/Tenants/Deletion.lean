import Chis.Access.Authentication
import Chis.Signature.Delivery

/-!
# What is left of a deleted organization

Whatever requests, calls, workers and the scheduler are in the middle of when the `DELETE` takes
effect, and whatever comes later, no row of the organization is left or comes back, none of its keys
is accepted, and no worker that looks a message of it up sends it.
-/

namespace Chis.Tenants

open Program Api Access Relation

/-! ### The services -/

/-- What a client does: a request of the API, or a call of `QueueMessage`. -/
inductive Call
  | request (route : Route) (r : Request)
  | queueMessage (req : Delivery.QueueMessageRequest)

/-- The program of a call. -/
def Call.program (env : Env) : Call → Service Unit
  | .request route r => serve env route r
  | .queueMessage req => (Delivery.queueMessage req).bind fun _ ↦ .pure ()

/-- Any number of calls and workers and the scheduler, interleaved operation by operation, any of
which may fail. -/
def services (env : Env) (calls : Nat → Call) : System Proc World Op Op.Res where
  exec i o w r w' := World.Exec env.toPlatform (fun _ ↦ True) i o w r w'
  body
    | .worker _ => Worker.iteration env.toPlatform
    | .scheduler => Scheduler.processRetries
    | .client n => (calls n).program env
  loops i := ∀ n, i ≠ .client n

/-- In the step from `c₀` to `c₁`, a `DELETE` of the organization takes effect. -/
structure Deletes (env : Env) (calls : Nat → Call) (orgID : Uuid)
    (c₀ c₁ : Config Proc World Op Op.Res) : Prop where
  step : (services env calls).Step c₀ c₁
  deleted : ∃ i t, c₁.state.log = ⟨i, .sql (.organizationDelete orgID), .ok (), t⟩ :: c₀.state.log
  there : ∃ org ∈ c₀.state.db.organizations, org.id = orgID

/-- Since the log `older`, worker `w` has sent no request for message `id` after a lookup. -/
def SendsNone (w : Nat) (id : Uuid) (older log : List Entry) : Prop :=
  ∀ a e b req, log = a ++ e :: b ++ older → e.proc = .worker w → e.op = .send id req →
    ∀ e' ∈ b, e'.proc = .worker w → ∀ id', e'.op ≠ .sql (.messageFindById id')

/-- Nothing of the organization is left in `c`, after its `DELETE` has led from `c₀` to `c₁`. -/
structure Final (env : Env) (orgID : Uuid) (c₀ c₁ c : Config Proc World Op Op.Res) : Prop where
  memberships : ∀ m ∈ c.state.db.memberships, m.orgID ≠ orgID
  apiKeys : ∀ k ∈ c.state.db.apiKeys, k.orgID ≠ orgID
  messages : ∀ m ∈ c.state.db.messages, m.orgID ≠ orgID
  deliveryAttempts : ∀ a ∈ c.state.db.deliveryAttempts, ∃ m ∈ c.state.db.messages,
    m.id = a.messageID ∧ m.orgID ≠ orgID
  invitations : ∀ inv ∈ c.state.db.invitations, inv.orgID ≠ orgID
  keys : ∀ i r, ¬ Authenticates env (World.Exec env.toPlatform (fun _ ↦ True) i) r c.state orgID
  sends : ∀ m ∈ c₀.state.db.messages, m.orgID = orgID →
    ∀ w, SendsNone w m.id c₁.state.log c.state.log

/-! ### Workers -/

/-- A worker sends a request for the message that its last lookup has found. -/
def LooksUp (past : List (Event Op.Res)) : Op → Prop
  | .send id _ => ∃ recent msg id₀ older,
    past = recent ++ (Stmt.messageFindById id₀).returned msg :: older ∧ msg.id = id ∧
      ∀ e ∈ recent, ∀ id', e.1 ≠ .sql (.messageFindById id')
  | _ => True

theorem iteration_looksUp (env : Platform) (past : List (Event Op.Res)) :
    (Worker.iteration env).Traces LooksUp (fun _ _ ↦ True) past := by
  refine ⟨trivial, fun (x : Except Err String) ↦ ?_⟩
  cases x with
  | error e => trivial
  | ok messageID =>
    change (Worker.handle env messageID).Traces _ _ _
    unfold Worker.handle
    split
    · trivial
    · next id₀ hid =>
      refine ⟨trivial, fun (x : Except Err Message) ↦ ?_⟩
      cases x with
      | error e => trivial
      | ok msg =>
        refine Prog.Traces.mono (fun past' o hd ↦ ?_) (fun _ _ _ ↦ trivial)
          (Worker.deliver_delivers env msg _)
        cases o with
        | send id req =>
          obtain ⟨rfl, recent, rfl, hsends⟩ := hd
          refine ⟨recent, msg, id₀, _, rfl, rfl, fun e he id' ↦ ?_⟩
          cases hsends with
          | signed =>
            simp only [List.mem_cons, List.not_mem_nil, or_false] at he
            rcases he with rfl | rfl | rfl <;> simp
          | unsigned =>
            simp only [List.mem_cons, List.not_mem_nil, or_false] at he
            rcases he with rfl | rfl <;> simp
        | _ => trivial

/-! ### Runs -/

section Run

variable {env : Env} {calls : Nat → Call} {now : Time} {c₀ c₁ c : Config Proc World Op Op.Res}
  {orgID : Uuid}

theorem services_exec (i : Proc) (o : Op) (w : World) (r : o.Res) (w' : World)
    (h : (services env calls).exec i o w r w') :
    World.Exec env.toPlatform (fun _ ↦ True) i o w r w' := h

theorem services_sound (h : (services env calls).Reachable (World.start now) c) : c.state.Sound :=
  (sound_empty [] now [] []).reachable services_exec h

/-- What a worker sends, it has looked up. -/
private theorem worker_looksUp (h : (services env calls).Reachable (World.start now) c) (w : Nat) :
    Valid LooksUp (c.state.past (.worker w)) := by
  have hv := (World.records services_exec).valid
    (P := fun i ↦ if i = .worker w then LooksUp else fun _ _ ↦ True) (fun _ ↦ rfl) ?_ h (.worker w)
  · simpa using hv
  · intro i p _
    by_cases hi : i = .worker w
    · rw [hi, if_pos rfl]
      exact iteration_looksUp _ p
    · rw [if_neg hi]
      exact Prog.Traces.of_uses (U := fun _ ↦ True) (fun _ _ _ ↦ trivial) (fun _ _ ↦ trivial)
        (Prog.uses_anything _) p

/-- What has been logged since a configuration was done since. -/
theorem logged_since (h : ReflTransGen (services env calls).Step c₁ c) :
    ∃ newer, c.state.log = newer ++ c₁.state.log ∧ ∀ e ∈ newer, ∃ c₂ w',
      ReflTransGen (services env calls).Step c₁ c₂ ∧
      World.Exec env.toPlatform (fun _ ↦ True) e.proc e.op c₂.state e.res w' := by
  induction h with
  | refl => exact ⟨[], rfl, fun e he ↦ nomatch he⟩
  | @tail c₂ c₃ hto hstep ih =>
    obtain ⟨newer, hlog, hdone⟩ := ih
    cases hstep with
    | @act i o k r w' hp hx =>
      obtain ⟨t, ht⟩ := World.Exec.log_eq hx
      refine ⟨⟨i, o, r, t⟩ :: newer, ?_, fun e he ↦ ?_⟩
      · rw [ht, hlog]
        rfl
      · rcases List.mem_cons.mp he with rfl | he
        · exact ⟨c₂, w', hto, hx⟩
        · exact hdone e he
    | again => exact ⟨newer, hlog, hdone⟩

/-- The `DELETE` is performed in the step. -/
private theorem Deletes.exec (hd : Deletes env calls orgID c₀ c₁) : ∃ i,
    World.Exec env.toPlatform (fun _ ↦ True) i (.sql (.organizationDelete orgID)) c₀.state (.ok ())
      c₁.state := by
  obtain ⟨i, t, hlog⟩ := hd.deleted
  cases hd.step with
  | @act j o k r w' hp hx =>
    obtain ⟨t', hlog'⟩ := World.Exec.log_eq hx
    cases hlog.symm.trans hlog'
    exact ⟨i, hx⟩
  | again => simp at hlog

/-- What was found since is not dead. -/
private theorem found_alive {id id₀ : Uuid} {msg : Message} {e : Entry} {w' : World}
    (hdead : c.state.Dead id)
    (hx : World.Exec env.toPlatform (fun _ ↦ True) e.proc e.op c.state e.res w')
    (he : e.event = (Stmt.messageFindById id₀).returned msg) : msg.id ≠ id := by
  obtain ⟨i, o, r, t⟩ := e
  cases he
  rcases World.Exec.sql hx with ⟨hr, -⟩ | ⟨ch, -, hexec, -⟩
  · cases hr
  · exact hdead.none msg (MessageRepository.findById_ok (Prod.mk.inj hexec).1).1

private theorem sends_none (h₀ : (services env calls).Reachable (World.start now) c₀)
    (hd : Deletes env calls orgID c₀ c₁) (h : ReflTransGen (services env calls).Step c₁ c)
    {m : Message} (hm : m ∈ c₀.state.db.messages) (horg : m.orgID = orgID) (w : Nat) :
    SendsNone w m.id c₁.state.log c.state.log := by
  intro a e b req hlog hproc hop e' he' hproc' id' hlookup
  obtain ⟨i, hx⟩ := hd.exec
  have hdead := hx.dead (services_sound h₀) hm horg
  obtain ⟨newer, hnewer, hdone⟩ := logged_since h
  have hsplit : newer = a ++ e :: b := List.append_cancel_right (hnewer.symm.trans hlog)
  have hv := worker_looksUp ((h₀.tail hd.step).trans h) w
  rw [← history_log, hlog, List.append_assoc, List.cons_append, ← hproc, history_split] at hv
  have hduty := hv.split
  have hlooks : LooksUp (history (b ++ c₁.state.log) e.proc) e.op := hduty
  rw [hop, hproc, history_append] at hlooks
  obtain ⟨recent, msg, id₀, older, hpast, hid, hrecent⟩ := hlooks
  have hmem : e'.event ∈ history b (.worker w) :=
    List.mem_map.mpr ⟨e', List.mem_filter.mpr ⟨he', decide_eq_true hproc'⟩, rfl⟩
  rcases List.append_eq_append_iff.mp hpast with ⟨rest, hb, -⟩ | ⟨rest, hb, hrest⟩
  · rw [hb] at hrecent
    exact hrecent e'.event (List.mem_append_left _ hmem) id' hlookup
  · cases rest with
    | nil =>
      rw [hb, List.append_nil] at hmem
      exact hrecent e'.event hmem id' hlookup
    | cons x rest =>
      -- so the lookup before the request was made after the deletion, and has found the message
      have hfound : (Stmt.messageFindById id₀).returned msg ∈ history b (.worker w) := by
        rw [hb, (List.cons.inj hrest).1]
        exact List.mem_append_right _ List.mem_cons_self
      obtain ⟨e₂, he₂, -, hevent⟩ := event_of_history hfound
      have hnew : e₂ ∈ newer := by
        rw [hsplit]
        exact List.mem_append_right _ (List.mem_cons_of_mem _ he₂)
      obtain ⟨c₂, w', hto, hx₂⟩ := hdone e₂ hnew
      have hdead₂ : c₂.state.Dead m.id :=
        World.keeps (P := fun w ↦ w.Dead m.id) services_exec
          (fun _ _ _ _ _ hx hdead ↦ hdead.exec hx) hto hdead
      exact found_alive hdead₂ hx₂ hevent hid

/-- After its `DELETE`, an organization leaves nothing behind. -/
theorem deletion_final (h₀ : (services env calls).Reachable (World.start now) c₀)
    (hd : Deletes env calls orgID c₀ c₁) (h : ReflTransGen (services env calls).Step c₁ c) :
    Final env orgID c₀ c₁ c := by
  obtain ⟨i, hx⟩ := hd.exec
  obtain ⟨org, horg, hid⟩ := hd.there
  have hgone := World.gone_stays services_exec h (hx.gone (services_sound h₀) horg hid)
  have hsound := services_sound ((h₀.tail hd.step).trans h)
  obtain ⟨hmemberships, hkeys, hmessages, -, hinvitations⟩ := hsound.nothing_left hgone
  exact
    { memberships := hmemberships
      apiKeys := hkeys
      messages := hmessages
      deliveryAttempts := fun a ha ↦ by
        obtain ⟨m, hm, he⟩ := hsound.references.deliveryAttempts a ha
        exact ⟨m, hm, he, hmessages m hm⟩
      invitations := hinvitations
      keys := fun j r hauth ↦ by
        obtain ⟨k, w₁, hk, hlookup, -⟩ := (authenticates_iff (authenticates_header hauth)).mp hauth
        rcases hlookup.sql with ⟨hr, -⟩ | ⟨ch, -, hexec, -⟩
        · cases hr
        · have hfind := elim_ok.mp (Prod.mk.inj hexec).1
          exact hkeys k (List.mem_of_find?_eq_some hfind) hk
      sends := fun m hm hmorg w ↦ sends_none h₀ hd h hm hmorg w }

end Run

/-! ### A sample -/

/-- Ann registers, and deletes her workspace. -/
def sampleCalls : Nat → Call
  | 0 => .request .register (sampleRequestOf .nil .nil
      "\x7b\"email\":\"ann@a.io\",\"password\":\"password\",\"firstName\":\"Ann\"\x7d")
  | _ => .request (.org (.admin .deleteOrg))
      (sampleRequestOf ⟨1⟩ ⟨3⟩ "\x7b\"name\":\"Ann's Workspace\"\x7d")

/-- The organization whose `DELETE` was logged last. -/
def lastDeleted (w : World) : Option Uuid :=
  match w.log with
  | ⟨_, .sql (.organizationDelete orgID), .ok (), _⟩ :: _ => some orgID
  | _ => none

private theorem lastDeleted_log {w : World} {orgID : Uuid} (h : lastDeleted w = some orgID) :
    ∃ i t older, w.log = ⟨i, .sql (.organizationDelete orgID), .ok (), t⟩ :: older := by
  unfold lastDeleted at h
  split at h
  · next i o t older hlog =>
    cases h
    exact ⟨i, t, older, hlog⟩
  · cases h

/-- Her membership goes with it. -/
theorem deletion_final_sample : ∃ c₀ c₁,
    (services sampleEnv sampleCalls).Reachable (World.start 0) c₀ ∧
      (c₀.state.db.memberships.rows.map fun m ↦ (m.userID, m.orgID)) = [(⟨1⟩, ⟨3⟩)] ∧
      Deletes sampleEnv sampleCalls ⟨3⟩ c₀ c₁ ∧ Final sampleEnv ⟨3⟩ c₀ c₁ c₁ := by
  have hexec : ∀ i ch o w r w', World.step sampleEnv.toPlatform i ch o w = some (r, w') →
      (services sampleEnv sampleCalls).exec i o w r w' := fun i ch o w r w' hs ↦ ⟨ch, trivial, hs⟩
  have hrun : ((System.play (World.step sampleEnv.toPlatform)
      ((services sampleEnv sampleCalls).init (World.start 0))
      (sampleTurns 0 [0, 1, 2, 0, 3, 4, 0] ++ sampleTurns 1 [0, 0, 0, 0])).bind fun c ↦
        (System.turn (World.step sampleEnv.toPlatform) c (.client 1)
          ⟨false, 0, .nil, fun _ ↦ 0, .failed "", []⟩).map fun c' ↦ (c, c')).map (fun p ↦
        ((p.1.state.db.memberships.rows.map fun m ↦ (m.userID, m.orgID),
          p.1.state.db.organizations.rows.map Organization.id), lastDeleted p.2.state)) =
      some (([(⟨1⟩, ⟨3⟩)], [⟨3⟩]), some ⟨3⟩) := by
    decide +kernel
  obtain ⟨⟨c₀, c₁⟩, hp, hseen⟩ := Option.map_eq_some_iff.mp hrun
  obtain ⟨c, hc, hp⟩ := Option.bind_eq_some_iff.mp hp
  obtain ⟨c', hturn, hp⟩ := Option.map_eq_some_iff.mp hp
  cases hp
  obtain ⟨hbefore, hlast⟩ := Prod.mk.inj hseen
  obtain ⟨hmemberships, horganizations⟩ := Prod.mk.inj hbefore
  have h₀ := System.play_steps hexec hc
  obtain ⟨o, k, r, w', hproc, hs, rfl⟩ := System.turn_inv hturn
  have hstep := System.Step.act hproc (hexec _ _ _ _ _ _ hs)
  obtain ⟨i, t, older, hlog⟩ := lastDeleted_log hlast
  obtain ⟨t', hlog'⟩ := World.Exec.log_eq (hexec _ _ _ _ _ _ hs)
  have hthere : (⟨3⟩ : Uuid) ∈ c₀.state.db.organizations.rows.map Organization.id := by
    rw [horganizations]
    exact List.mem_singleton_self _
  obtain ⟨org, horg, hid⟩ := List.mem_map.mp hthere
  have hd : Deletes sampleEnv sampleCalls ⟨3⟩ c₀ ⟨w', Function.update c₀.procs (.client 1) (k r)⟩ :=
    { step := hstep
      deleted := by
        have hold := hlog.symm.trans hlog'
        exact ⟨i, t, hlog.trans (congrArg _ (List.cons.inj hold).2)⟩
      there := ⟨org, horg, hid⟩ }
  exact ⟨c₀, _, h₀, hmemberships, hd, deletion_final h₀ hd .refl⟩

end Chis.Tenants
