import Chis.Api.System
import Chis.Pipeline.System
import Chis.Signature.Delivery

/-!
# Which deliveries are signed

Workers run among the scheduler and anything else, such as rotations of secrets and deletions of
organizations. A request is signed with a secret that the organization had when the delivery looked it
up, unless the lookup has failed: then it is sent without a signature.
-/

namespace Chis

open Program Relation

namespace Worker

/-! ### The requests of a worker -/

/-- A request is sent by the delivery of a message that has been read before. -/
def Posts (env : Platform) (past : List (Event Op.Res)) : Op → Prop
  | .send id req => ∃ id' msg recent older, id = msg.id ∧
      past = recent ++ ⟨.sql (.messageFindById id'), .ok msg⟩ :: older ∧ Sends env msg recent req
  | _ => True

private theorem posts_of_delivers {env : Platform} {id : Uuid} {msg : Message}
    {older past : List (Event Op.Res)} {o : Op}
    (h : Delivers env msg (⟨.sql (.messageFindById id), .ok msg⟩ :: older) past o) :
    Posts env past o := by
  cases o with
  | send id' req =>
    obtain ⟨hid, recent, hpast, hsends⟩ := h
    exact ⟨id, msg, recent, older, hid, hpast, hsends⟩
  | _ => trivial

/-- A worker sends no other request. -/
theorem iteration_posts (env : Platform) (past : List (Event Op.Res)) :
    (iteration env).Traces (Posts env) (fun _ _ ↦ True) past := by
  refine ⟨trivial, fun (r : Except Err String) ↦ ?_⟩
  cases r with
  | error e => trivial
  | ok messageID =>
    change (handle env messageID).Traces _ _ _
    unfold handle
    cases Uuid.parse messageID with
    | none => trivial
    | some id =>
      refine ⟨trivial, fun (r : Except Err Message) ↦ ?_⟩
      cases r with
      | error e => trivial
      | ok msg =>
        apply (deliver_delivers env msg _).mono
        · exact fun past o ↦ posts_of_delivers
        · exact fun _ _ _ ↦ trivial

/-- What is known of the operations of a process: the workers keep to `Posts`. -/
def Posting (env : Platform) : Proc → List (Event Op.Res) → Op → Prop
  | .worker _ => Posts env
  | _ => fun _ _ ↦ True

/-! ### Runs -/

/-- Any number of workers, the scheduler and any other programs, in the runs in which `G` allows every
operation with the choices made for it. -/
def deliveries (env : Platform) (jobs : Nat → Service Unit) (G : World → Proc → Op → Choice → Prop) :
    System Proc World Op Op.Res where
  exec i o w r w' := World.Exec env (G w i o) i o w r w'
  body
    | .worker _ => iteration env
    | .scheduler => Scheduler.processRetries
    | .client n => jobs n
  loops i := ∀ n, i ≠ .client n

/-- Every lookup of a secret by a worker finds the organization and does not fail. -/
def lookupWorks (w : World) : Proc → Op → Choice → Prop
  | .worker _, .sql (.getSigningSecret orgID), ch =>
    ch.fail = false ∧ ∃ o ∈ w.db.organizations, o.id = orgID
  | _, _, _ => True

/-- `req` carries the three headers of message `id`, signed by process `i` with the secret that the
message's organization had when it was looked up, from `c₀` to `c₁`. -/
def SignedBy (env : Platform) (S : System Proc World Op Op.Res) (w₀ : World)
    (c : Config Proc World Op Op.Res) (i : Proc) (id : Uuid) (req : HttpRequest) : Prop :=
  ∃ (msg : Message) (secret : String) (start now : Time) (older : List (Event Op.Res))
    (c₀ c₁ : Config Proc World Op Op.Res),
    msg.id = id ∧ Receiver.receive req = some (webhookOf env msg secret now) ∧
    S.Reachable w₀ c₀ ∧ S.Step c₀ c₁ ∧ ReflTransGen S.Step c₁ c ∧
    c₀.state.past i = ⟨.sql (.messageFindById id), .ok msg⟩ :: older ∧
    c₁.state.past i = ⟨.sql (.getSigningSecret msg.orgID), .ok secret⟩ :: c₀.state.past i ∧
    c.state.past i = ⟨.now, start⟩ :: ⟨.now, now⟩ :: c₁.state.past i ∧
    ∃ o ∈ c₀.state.db.organizations, o.id = msg.orgID ∧ o.signingSecret = secret

/-- Every request that a worker is about to send is signed like that. -/
def AllSigned (env : Platform) (S : System Proc World Op Op.Res) (w₀ : World) : Prop :=
  ∀ c n id req k, S.Reachable w₀ c → c.procs (.worker n) = .op (.send id req) k →
    SignedBy env S w₀ c (.worker n) id req

section Run

variable {env : Platform} {jobs : Nat → Service Unit} {G : World → Proc → Op → Choice → Prop}
  {w₀ : World} {c : Config Proc World Op Op.Res} {n : Nat}

theorem deliveries_records : (deliveries env jobs G).Records World.past := by
  apply World.records
  rintro i o w r w' ⟨ch, -, hs⟩
  exact ⟨ch, trivial, hs⟩

private theorem past_nil (hlog : w₀.log = []) (i : Proc) : w₀.past i = [] := by
  rw [World.past, hlog]
  rfl

/-- A worker that is about to send a request keeps to `Posts`. -/
theorem posts (hlog : w₀.log = []) (h : (deliveries env jobs G).Reachable w₀ c) {o : Op}
    {k : o.Res → Service Unit} (hp : c.procs (.worker n) = .op o k) :
    Posts env (c.state.past (.worker n)) o := by
  have ht := (deliveries_records.traces (P := Posting env) (Q := fun _ _ _ ↦ True) (past_nil hlog) ?_
    h (.worker n)).1
  · rw [hp] at ht
    exact ht.1
  · rintro (n | _ | n) past -
    · exact iteration_posts env past
    · exact Prog.Traces.of_uses (fun _ _ h ↦ h) (fun _ _ ↦ trivial) (Prog.uses_anything _) past
    · exact Prog.Traces.of_uses (fun _ _ h ↦ h) (fun _ _ ↦ trivial) (Prog.uses_anything _) past

/-- A statement of a worker's past was run in a step of the run. -/
theorem ran (hlog : w₀.log = []) (h : (deliveries env jobs G).Reachable w₀ c) {s : Stmt}
    {r : Except Err s.Ok} {newer older : List (Event Op.Res)}
    (hpast : c.state.past (.worker n) = newer ++ ⟨.sql s, r⟩ :: older) :
    ∃ c₀ c₁, (deliveries env jobs G).Reachable w₀ c₀ ∧ (deliveries env jobs G).Step c₀ c₁ ∧
      ReflTransGen (deliveries env jobs G).Step c₁ c ∧ c₀.state.past (.worker n) = older ∧
      c₁.state.past (.worker n) = ⟨.sql s, r⟩ :: older ∧
      ∃ ch, G c₀.state (.worker n) (.sql s) ch ∧
        (ch.fail = true ∧ r = .error .unavailable ∨
          ch.fail = false ∧ (s.exec env ch c₀.state.db).1 = r) := by
  obtain ⟨c₀, c₁, h₀, hp₀, hx, hstep, h₁⟩ :=
    deliveries_records.happened_after (past_nil hlog) h hpast
  have hp₁ := (deliveries_records _ _ _ _ _ hx).1
  rw [hp₀] at hp₁
  obtain ⟨ch, hG, hs⟩ := hx
  refine ⟨c₀, c₁, h₀, hstep, h₁, hp₀, hp₁, ch, hG, ?_⟩
  rcases World.step_sql hs with ⟨hf, hr, -⟩ | ⟨hf, hexec, -⟩
  · exact .inl ⟨hf, hr⟩
  · exact .inr ⟨hf, congrArg Prod.fst hexec⟩

/-- The message of a delivery is the one that was looked for. -/
private theorem read_id (hlog : w₀.log = []) (h : (deliveries env jobs G).Reachable w₀ c) {id : Uuid}
    {msg : Message} {newer older : List (Event Op.Res)}
    (hpast : c.state.past (.worker n) =
      newer ++ ⟨.sql (.messageFindById id), .ok msg⟩ :: older) : id = msg.id := by
  obtain ⟨c₀, -, -, -, -, -, -, ch, -, ⟨-, hr⟩ | ⟨-, hr⟩⟩ := ran hlog h hpast
  · cases hr
  · exact (MessageRepository.findById_ok hr).2.symm

/-- Where every lookup works, every request is signed. -/
theorem all_signed (hlog : w₀.log = []) : AllSigned env (deliveries env jobs lookupWorks) w₀ := by
  intro c n id req k h hp
  obtain ⟨id', msg, recent, older, rfl, hpast, hsends⟩ := posts hlog h hp
  obtain rfl : id' = msg.id := read_id hlog h hpast
  cases hsends with
  | @signed req₀ secret now start hreq =>
    have hlookup : c.state.past (.worker n) = [⟨.now, start⟩, ⟨.now, now⟩] ++
        ⟨.sql (.getSigningSecret msg.orgID), .ok secret⟩ ::
          ⟨.sql (.messageFindById msg.id), .ok msg⟩ :: older := hpast
    obtain ⟨c₀, c₁, h₀, hstep, h₁, hp₀, hp₁, ch, -, ⟨-, hr⟩ | ⟨-, hr⟩⟩ := ran hlog h hlookup
    · cases hr
    · obtain ⟨o, ho, hsecret⟩ := OrganizationRepository.getSigningSecret_ok hr
      refine ⟨msg, secret, start, now, older, c₀, c₁, rfl, ?_, h₀, hstep, h₁, hp₀, ?_, ?_, ?_⟩
      · exact (signs_iff.mpr ⟨req₀, hreq, rfl⟩).receive
      · rw [hp₁, hp₀]
      · rw [hpast, hp₁]
        rfl
      · exact ⟨o, ho, hsecret⟩
  | @unsigned req₀ e start hreq =>
    have hlookup : c.state.past (.worker n) = [⟨.now, start⟩] ++
        ⟨.sql (.getSigningSecret msg.orgID), .error e⟩ ::
          ⟨.sql (.messageFindById msg.id), .ok msg⟩ :: older := hpast
    obtain ⟨c₀, c₁, -, -, -, -, -, ch, hG, hr⟩ := ran hlog h hlookup
    obtain ⟨hf, o, ho, hid⟩ := hG
    rcases hr with ⟨hf', -⟩ | ⟨-, hr⟩
    · rw [hf] at hf'
      cases hf'
    · exact absurd hid (OrganizationRepository.getSigningSecret_error hr o ho)

end Run

/-! ### Samples -/

/-- A message of organization 1 is in the queue. -/
private def queuedWorld : World :=
  { Pipeline.sampleWorld with
    db := { Pipeline.sampleWorld.db with
      messages := ⟨[{ Message.zero with
        id := ⟨2⟩, orgID := ⟨1⟩, method := "POST", url := "http://a.io", payload := "\x7b\x7d" }],
        List.nodup_singleton _⟩ }
    queue := [Uuid.toString ⟨2⟩] }

private def idle (_ : Nat) : Service Unit := .pure ()

/-- What worker 0 is about to send. -/
private def sending (c : Config Proc World Op Op.Res) : Option (Uuid × HttpRequest) :=
  match c.procs (.worker 0) with
  | .op (.send id req) _ => some (id, req)
  | _ => none

private theorem sending_eq {c : Config Proc World Op Op.Res} {id : Uuid} {req : HttpRequest}
    (h : sending c = some (id, req)) : ∃ k, c.procs (.worker 0) = .op (.send id req) k := by
  unfold sending at h
  split at h
  · next hp =>
    cases h
    exact ⟨_, hp⟩
  · cases h

private def sampleLookup (w : World) : Proc → Op → Choice → Bool
  | .worker _, .sql (.getSigningSecret orgID), ch =>
    !ch.fail && (w.db.organizations.find? orgID).isSome
  | _, _, _ => true

private theorem lookupWorks_of_sample {w : World} {i : Proc} {o : Op} {ch : Choice}
    (h : sampleLookup w i o ch = true) : lookupWorks w i o ch := by
  unfold lookupWorks
  split
  · next orgID =>
    rw [sampleLookup, Bool.and_eq_true, Bool.not_eq_true', Option.isSome_iff_exists] at h
    obtain ⟨hf, org, ho⟩ := h
    exact ⟨hf, org, (w.db.organizations.find?_eq_some_iff orgID org).mp ho⟩
  · trivial

/-- Worker 0 takes as many steps as there are choices, whose operations fail or not. -/
private def sampleSchedule (fails : List Bool) : List (Proc × Choice) :=
  fails.map fun fail ↦ (.worker 0, ⟨fail, 1600000000000000, .nil, fun _ ↦ 0, .failed "", []⟩)

private def sampleSending (g : World → Proc → Op → Choice → Bool) (fails : List Bool) :
    Option (Uuid × HttpRequest) :=
  (System.play (fun i ch o w ↦
    if g w i o ch then World.step Pipeline.samplePlatform i ch o w else none)
    ((deliveries Pipeline.samplePlatform idle lookupWorks).init queuedWorld)
    (sampleSchedule fails)).bind sending

/-- What worker 0 is about to send after a schedule, it is about to send in a run. -/
private theorem sending_seen {g : World → Proc → Op → Choice → Bool}
    {G : World → Proc → Op → Choice → Prop} (hg : ∀ w i o ch, g w i o ch = true → G w i o ch)
    {fails : List Bool} {id : Uuid} {req : HttpRequest} (h : sampleSending g fails = some (id, req)) :
    ∃ c k, (deliveries Pipeline.samplePlatform idle G).Reachable queuedWorld c ∧
      c.procs (.worker 0) = .op (.send id req) k := by
  obtain ⟨c, hc, hs⟩ := Option.bind_eq_some_iff.mp h
  obtain ⟨k, hk⟩ := sending_eq hs
  refine ⟨c, k, System.play_steps (fun i ch o w r w' hstep ↦ ?_) hc, hk⟩
  by_cases hgo : g w i o ch = true
  · rw [if_pos hgo] at hstep
    exact ⟨ch, hg w i o ch hgo, hstep⟩
  · rw [if_neg hgo] at hstep
    cases hstep

/-- The message of the sample is signed. -/
theorem sample_signed : ∃ c req,
    (deliveries Pipeline.samplePlatform idle lookupWorks).Reachable queuedWorld c ∧
      SignedBy Pipeline.samplePlatform (deliveries Pipeline.samplePlatform idle lookupWorks)
        queuedWorld c (.worker 0) ⟨2⟩ req := by
  have hsend : (sampleSending sampleLookup [false, false, false, false, false]).map Prod.fst =
      some ⟨2⟩ := by decide +kernel
  obtain ⟨⟨id, req⟩, hreq, rfl⟩ := Option.map_eq_some_iff.mp hsend
  obtain ⟨c, k, h, hk⟩ := sending_seen (fun _ _ _ _ ↦ lookupWorks_of_sample) hreq
  exact ⟨c, req, h, all_signed rfl c 0 _ req k h hk⟩

private def unsigned : HttpRequest :=
  ⟨"POST", "http://a.io", "\x7b\x7d", [("Content-Type", "application/json")]⟩

/-- After one failed lookup, it is sent without a signature. -/
theorem unsigned_request : queuedWorld.log = [] ∧
    ¬ AllSigned Pipeline.samplePlatform
      (deliveries Pipeline.samplePlatform idle fun _ _ _ _ ↦ True) queuedWorld := by
  refine ⟨rfl, fun hall ↦ ?_⟩
  have hsend : sampleSending (fun _ _ _ _ ↦ true) [false, false, true, false] =
      some (⟨2⟩, unsigned) := by decide +kernel
  obtain ⟨c, k, h, hk⟩ := sending_seen (fun _ _ _ _ _ ↦ trivial) hsend
  obtain ⟨_, _, _, _, _, _, _, _, hreceive, -⟩ := hall c 0 _ _ k h hk
  have hnone : Receiver.receive unsigned = none := by decide
  rw [hnone] at hreceive
  cases hreceive

end Worker

end Chis
