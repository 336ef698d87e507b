import Chis.Pipeline.Protocol
import Chis.Service.Delivery

/-!
# The delivery pipeline

Any number of workers, one scheduler and any number of calls, interleaved at the granularity of
their operations on one world, and the history of events that the log of that world tells.
-/

namespace Chis

open Program

/-- The statements that leave the rows of messages alone, but for the deletion of whole
organizations. -/
def Stmt.harmless : Stmt → Bool
  | .messageCreate _ | .messageUpdateStatus _ _ | .messageUpdate _ => false
  | _ => true

/-- The operations the pipeline leaves to anybody: no message is written, queued or sent. -/
def Op.harmless : Op → Bool
  | .sql s => s.harmless
  | .now | .rand | .respond _ | .panic => true
  | _ => false

namespace Pipeline

/-- What a statement of process `i` means for the messages. A worker that finds no row of its
message is done with it. -/
def Event.ofStmt (i : Proc) : (s : Stmt) → Except Err s.Ok → Event
  | .messageCreate _, .ok (message : Message) =>
    match i with
    | .client c => .inserted c message.id
    | _ => .other
  | .messageFindById id, .error _ =>
    match i with
    | .worker w => .missing w id
    | _ => .other
  | .messageUpdateStatus id status, .ok _ =>
    match i with
    | .worker w => .marked w id status
    | _ => .other
  | .messageUpdateStatus id _, .error _ =>
    match i with
    | .worker w => .missing w id
    | _ => .other
  | .messageUpdate msg, .ok _ => .updated i msg
  | .findRetryReady _, .ok (msgs : List Message) =>
    match i with
    | .scheduler => .listed msgs
    | _ => .other
  | _, _ => .other

/-- What an operation of process `i`, answered with `r`, means for the messages. -/
def Event.of (i : Proc) : (o : Op) → (r : o.Res) → Event
  | .sql s, r => .ofStmt i s r
  | .push messageID, .ok _ =>
    match Uuid.parse messageID with
    | some id => .pushed i id
    | none => .other
  | .pop, .ok (messageID : String) =>
    match i, Uuid.parse messageID with
    | .worker w, some id => .popped w id
    | _, _ => .other
  | .send id _, _ =>
    match i with
    | .worker w => .started w id
    | _ => .other
  | .answer id, (a : Answer) =>
    match i with
    | .worker w => .answered w id a.ok
    | _ => .other
  | _, _ => .other

/-- The history that the log of a world tells. -/
def history (w : World) : History := w.log.map fun e ↦ (Event.of e.proc e.op e.res, e.time)

/-- What a client does: one call of `QueueMessage`, or anything that leaves messages alone. -/
inductive Job
  | queueMessage (req : Delivery.QueueMessageRequest)
  | other (p : Service Unit) (harmless : p.Uses fun o ↦ o.harmless = true)

/-- The program of a job. -/
def Job.program : Job → Service Unit
  | .queueMessage req => (Delivery.queueMessage req).bind fun _ ↦ .pure ()
  | .other p _ => p

/-- The runs of the pipeline in which no operation fails and every event satisfies `G` when it
happens. -/
def pipeline (env : Platform) (jobs : Nat → Job) (G : History → Event → Prop) :
    System Proc World Op Op.Res where
  exec i o w r w' := G (history w) (Event.of i o r) ∧ World.Exec env World.faultless i o w r w'
  body
    | .worker _ => Worker.iteration env
    | .scheduler => Scheduler.processRetries
    | .client n => (jobs n).program
  loops i := ∀ n, i ≠ .client n

/-! ### Runs by schedule -/

/-- The next step of process `i`, which is determined by a choice: its next operation, if its event
satisfies `g`, or the start of another turn. -/
def turn (env : Platform) (g : History → Event → Bool) (c : Config Proc World Op Op.Res) (i : Proc)
    (ch : Choice) : Option (Config Proc World Op Op.Res) :=
  match c.procs i with
  | .op o k => do
    let (r, w) ← World.step env i ch o c.state
    if g (history c.state) (Event.of i o r) then
      some ⟨w, Function.update c.procs i (k r)⟩
    else none
  | .pure () =>
    match i with
    | .worker n => some ⟨c.state, Function.update c.procs (.worker n) (Worker.iteration env)⟩
    | .scheduler => some ⟨c.state, Function.update c.procs .scheduler Scheduler.processRetries⟩
    | .client _ => none

/-- A run, given by who takes each step and what the world decides about it. -/
def play (env : Platform) (g : History → Event → Bool) (c : Config Proc World Op Op.Res) :
    List (Proc × Choice) → Option (Config Proc World Op Op.Res)
  | [] => some c
  | (i, ch) :: rest => (turn env g c i ch).bind fun c' ↦ play env g c' rest

/-- Any order of events. -/
def anyOrder (_ : History) (_ : Event) : Prop := True

section Play

variable {env : Platform} {jobs : Nat → Job} {g : History → Event → Bool}
  {G : History → Event → Prop} {c c' : Config Proc World Op Op.Res}

theorem turn_step {i : Proc} {ch : Choice} (hg : ∀ h ev, g h ev = true → G h ev)
    (hf : World.faultless ch) (h : turn env g c i ch = some c') :
    (pipeline env jobs G).Step c c' := by
  unfold turn at h
  split at h
  · next o k hp =>
    obtain ⟨⟨r, w⟩, hs, h⟩ := Option.bind_eq_some_iff.mp h
    simp only at h
    split at h
    · next hev =>
      cases h
      exact .act hp ⟨hg _ _ hev, ch, hf, hs⟩
    · cases h
  · next hp =>
    split at h
    · cases h
      exact .again (fun _ ↦ by simp) hp
    · cases h
      exact .again (fun _ ↦ by simp) hp
    · cases h

/-- What a schedule without failures reaches is reachable. -/
theorem play_reachable {schedule : List (Proc × Choice)} (hg : ∀ h ev, g h ev = true → G h ev)
    (hf : ∀ p ∈ schedule, World.faultless p.2) (h : play env g c schedule = some c') :
    Relation.ReflTransGen (pipeline env jobs G).Step c c' := by
  induction schedule generalizing c with
  | nil =>
    cases h
    exact .refl
  | cons p rest ih =>
    obtain ⟨i, ch⟩ := p
    obtain ⟨c₁, h₁, h⟩ := Option.bind_eq_some_iff.mp h
    exact .head (turn_step hg (hf _ List.mem_cons_self) h₁)
      (ih (fun p hp ↦ hf p (List.mem_cons_of_mem _ hp)) h)

end Play

/-! ### A sample -/

/-- A platform on which every request is accepted. -/
def samplePlatform : Platform := ⟨some, fun _ ↦ true, fun _ _ ↦ [], id⟩

/-- One organization and nothing else. -/
def sampleWorld : World :=
  { db := { Db.empty with
      organizations := ⟨[⟨⟨1⟩, "Acme", "acme", "secret", 0, 0⟩], List.nodup_singleton _⟩ }
    queue := []
    clock := 0
    issued := [⟨1⟩]
    log := [] }

/-- Every client queues one message for that organization. -/
def sampleJobs (_ : Nat) : Job :=
  .queueMessage ⟨"https://example.com", 2, "{}", Uuid.toString ⟨1⟩⟩

/-- A choice at `now` seconds, with `id` for a new row and `code` for the receiver's answer. -/
def sampleChoice (now : Int) (id : Nat) (code : Int) : Choice :=
  ⟨false, now * 1000000, ⟨Fin.ofNat _ id⟩, fun _ ↦ 0, .response code [], []⟩

/-- Process `i` takes `n` steps. -/
def steps (i : Proc) (n : Nat) (ch : Choice) : List (Proc × Choice) := List.replicate n (i, ch)

/-- What a schedule makes of the sample, if every event satisfies `g`. -/
def playSample (g : History → Event → Bool) (schedule : List (Proc × Choice)) :
    Option (Config Proc World Op Op.Res) :=
  play samplePlatform g ⟨sampleWorld, fun
    | .worker _ => Worker.iteration samplePlatform
    | .scheduler => Scheduler.processRetries
    | .client n => (sampleJobs n).program⟩ schedule

/-- What is seen of a configuration that a schedule makes of the sample is seen in a run. -/
theorem sample_reachable {α : Type} {g : History → Event → Bool} {G : History → Event → Prop}
    (hg : ∀ h ev, g h ev = true → G h ev) {f : Config Proc World Op Op.Res → α} {a : α}
    {schedule : List (Proc × Choice)} (hf : ∀ p ∈ schedule, World.faultless p.2)
    (h : (playSample g schedule).map f = some a) :
    ∃ c, (pipeline samplePlatform sampleJobs G).Reachable sampleWorld c ∧ f c = a := by
  obtain ⟨c, hc, rfl⟩ := Option.map_eq_some_iff.mp h
  exact ⟨c, play_reachable hg hf hc, rfl⟩

/-- What a schedule of the sample shows in any order of events is seen in a run. -/
theorem sample_run {α : Type} {f : Config Proc World Op Op.Res → α} {a : α}
    {schedule : List (Proc × Choice)} (hf : ∀ p ∈ schedule, World.faultless p.2)
    (h : (playSample (fun _ _ ↦ true) schedule).map f = some a) :
    ∃ c, (pipeline samplePlatform sampleJobs anyOrder).Reachable sampleWorld c ∧ f c = a :=
  sample_reachable (fun _ _ _ ↦ trivial) hf h

theorem exists_of_map_eq {α ρ : Type} {f : ρ → α} {a : α} {rows : List ρ} (h : rows.map f = [a]) :
    ∃ row ∈ rows, f row = a := by
  rw [← List.mem_map, h]
  exact List.mem_singleton.mpr rfl

/-- A world with no message, before anything has happened. -/
structure Fresh (w : World) : Prop where
  messages : w.db.messages.rows = []
  queue : w.queue = []
  log : w.log = []

theorem sampleWorld_fresh : Fresh sampleWorld := ⟨rfl, rfl, rfl⟩

end Pipeline

end Chis
