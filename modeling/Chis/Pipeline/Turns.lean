import Chis.Base.Trace
import Chis.Pipeline.System

/-!
# The turns of a worker

What a worker has done tells which message it is delivering, and which answer it has still to log.
Everything it writes is made of these.
-/

namespace Chis.Pipeline

open Program

/-- The operations of everybody else: no request is sent, answered or logged. -/
def unworked : Op → Bool
  | .sql (.attemptCreate _) | .send _ _ | .answer _ | .pop => false
  | _ => true

/-- The message of the delivery under way, as it was read. -/
def underway : List (Program.Event Op.Res) → Option Message
  | [] => none
  | ⟨.sql (.messageFindById _), .ok msg⟩ :: _ => some msg
  | ⟨.sql (.messageFindById _), .error _⟩ :: _ | ⟨.sql (.messageUpdateStatus _ _), _⟩ :: _
  | ⟨.sql (.messageUpdate _), _⟩ :: _ | ⟨.pop, _⟩ :: _ => none
  | _ :: past => underway past

/-- The answer that has come and has not been logged yet, and whose message it is about. -/
def unlogged : List (Program.Event Op.Res) → Option (Uuid × Answer)
  | [] => none
  | ⟨.answer id, a⟩ :: _ => some (id, a)
  | ⟨.sql (.attemptCreate _), _⟩ :: _ | ⟨.pop, _⟩ :: _ => none
  | _ :: past => unlogged past

/-- What a worker's next operation is about. -/
def Works (past : List (Program.Event Op.Res)) : Op → Prop
  | .pop | .sql (.messageUpdateStatus _ _) => unlogged past = none
  | .sql (.messageFindById id) =>
    ∃ s older, past = ⟨.pop, .ok s⟩ :: older ∧ Uuid.parse s = some id
  | .sql (.attemptCreate x) => ∃ msg answer ms, underway past = some msg ∧
    unlogged past = some (msg.id, answer) ∧ x = Worker.attemptOf msg answer ms
  | .sql (.messageUpdate x) => unlogged past = none ∧ ∃ msg, underway past = some msg ∧
    ((∃ next, x = Worker.retryData msg next) ∨ x = { msg with status := .failed })
  | _ => True

section Worker

variable {env : Platform} {msg : Message} {past : List (Program.Event Op.Res)}

/-- The end of a turn. -/
def Logged (past : List (Program.Event Op.Res)) (_ : Unit) : Prop := unlogged past = none

private theorem settle_works {ok : Bool} (hu : underway past = some msg)
    (hl : unlogged past = none) : (Worker.settle msg ok).Traces Works Logged past := by
  unfold Worker.settle
  split
  · exact ⟨hl, fun _ ↦ hl⟩
  · split
    · split
      · exact ⟨trivial, fun e ↦ (e : Empty).elim⟩
      · exact ⟨trivial, fun now ↦ ⟨⟨hl, msg, hu, .inl ⟨_, rfl⟩⟩, fun _ ↦ hl⟩⟩
    · exact ⟨⟨hl, msg, hu, .inr rfl⟩, fun _ ↦ hl⟩

private theorem attempt_works {req : HttpRequest} (hu : underway past = some msg) :
    (Worker.attempt msg req).Traces Works Logged past := by
  refine ⟨trivial, fun start ↦ ⟨trivial, fun _ ↦ ⟨trivial, fun answer ↦ ⟨trivial, fun finish ↦
    ⟨⟨msg, answer, _, hu, rfl, rfl⟩, fun _ ↦ ?_⟩⟩⟩⟩⟩
  exact settle_works hu rfl

private theorem deliver_works (hu : underway past = some msg) (hl : unlogged past = none) :
    (Worker.deliver env msg).Traces Works Logged past := by
  unfold Worker.deliver
  split
  · exact ⟨hl, fun _ ↦ hl⟩
  · refine ⟨trivial, fun (r : Except Err String) ↦ ?_⟩
    cases r with
    | error e => exact attempt_works hu
    | ok secret => exact ⟨trivial, fun now ↦ attempt_works hu⟩

/-- A worker keeps to that, turn by turn. -/
theorem iteration_works (hl : unlogged past = none) :
    (Worker.iteration env).Traces Works Logged past := by
  refine ⟨hl, fun (r : Except Err String) ↦ ?_⟩
  cases r with
  | error e => rfl
  | ok s =>
    change (Worker.handle env s).Traces Works Logged (⟨.pop, .ok s⟩ :: past)
    unfold Worker.handle
    cases hparse : Uuid.parse s with
    | none => rfl
    | some id =>
      refine ⟨⟨s, past, rfl, hparse⟩, fun (r : Except Err Message) ↦ ?_⟩
      cases r with
      | error e => rfl
      | ok msg => exact deliver_works rfl rfl

end Worker

/-! ### Everybody else -/

theorem processRetries_unworked : Scheduler.processRetries.Uses fun o ↦ unworked o = true := by
  have hloop (msgs : List Message) :
      (Prog.forEach Scheduler.requeue msgs).Uses fun o ↦ unworked o = true := by
    induction msgs with
    | nil => trivial
    | cons msg rest ih =>
      exact Prog.Uses.bind ⟨rfl, fun _ ↦ ⟨rfl, fun _ ↦ trivial⟩⟩ fun _ ↦ ih
  refine ⟨rfl, fun (r : Except Err (List Message)) ↦ ?_⟩
  cases r with
  | error e => trivial
  | ok msgs => exact hloop msgs

/-- A client that logs no attempts: it queues a message, or leaves messages alone. -/
structure Caller where
  job : Job
  unworked : job.program.Uses fun o ↦ unworked o = true

private theorem queueMessage_unworked (req : Delivery.QueueMessageRequest) :
    (Job.queueMessage req).program.Uses fun o ↦ unworked o = true := by
  refine Prog.Uses.bind ?_ fun _ ↦ trivial
  unfold Delivery.queueMessage
  split
  · trivial
  · refine ⟨rfl, fun (r : Except Err Message) ↦ ?_⟩
    cases r with
    | error e => trivial
    | ok message => exact ⟨rfl, fun _ ↦ trivial⟩

/-- A call of `QueueMessage`. -/
def Caller.queueMessage (req : Delivery.QueueMessageRequest) : Caller :=
  ⟨.queueMessage req, queueMessage_unworked req⟩

end Chis.Pipeline
