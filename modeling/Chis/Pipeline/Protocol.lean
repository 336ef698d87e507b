import Chis.Service.Worker

/-!
# The life of a message

The delivery pipeline seen as a protocol. A history lists what the services have done to messages,
newest first; `life` is where one message stands after it, `round` what the scheduler is busy with,
and `Allowed` says which event may come next. Nothing here mentions programs or tables: that the
services keep to the protocol is proved in `Chis.Pipeline.Refinement`.
-/

namespace Chis.Pipeline

/-- What an operation means for the messages. -/
inductive Event
  /-- Call `c` of `QueueMessage` inserted message `m`. -/
  | inserted (c : Nat) (m : Uuid)
  /-- The id of `m` was pushed. -/
  | pushed (i : Proc) (m : Uuid)
  /-- Worker `w` popped the id of `m`. -/
  | popped (w : Nat) (m : Uuid)
  /-- Worker `w` did not find the row of the message it had popped. -/
  | missing (w : Nat) (m : Uuid)
  /-- Worker `w` started a delivery of `m`. -/
  | started (w : Nat) (m : Uuid)
  /-- The delivery of `m` by worker `w` was answered, with a 2xx status or not. -/
  | answered (w : Nat) (m : Uuid) (ok : Bool)
  /-- Worker `w` wrote a final status with `UpdateStatus`. -/
  | marked (w : Nat) (m : Uuid) (status : MessageStatus)
  /-- Process `i` wrote a row with `Update`. -/
  | updated (i : Proc) (msg : Message)
  /-- The scheduler read the messages that are due. -/
  | listed (msgs : List Message)
  | other

/-- The events so far with their times, newest first. -/
abbrev History := List (Event × Time)

/-! ### Where a message stands -/

/-- The stages of a message. `n` counts the deliveries completed before the current turn, `due` is
the earliest time of the next one. -/
inductive Life
  | absent
  /-- Inserted by call `c`, not yet pushed. -/
  | accepted (c : Nat)
  /-- Its id is in the queue. -/
  | queued (n : Nat) (due : Time)
  /-- Worker `w` has its id and has sent nothing yet. -/
  | held (w n : Nat) (due : Time)
  /-- Worker `w` has sent it and waits for the answer. -/
  | sent (w n : Nat)
  /-- Worker `w` has the answer and has not written the outcome. -/
  | answered (w n : Nat) (ok : Bool) (since : Time)
  /-- A `retry` row that waits for the scheduler. -/
  | parked (n : Nat) (due : Time)
  /-- Read by the current round of the scheduler, not yet pushed. -/
  | listed (n : Nat) (due : Time)
  /-- A final status has been written. -/
  | settled (status : MessageStatus)
  /-- A `pending` row whose id is nowhere. -/
  | lost
  /-- Its organization was deleted while a worker had its id. -/
  | dropped
deriving DecidableEq

namespace Life

/-- The worker that has popped the message and not yet written the outcome. -/
def holder : Life → Option Nat
  | .held w _ _ | .sent w _ | .answered w _ _ _ => some w
  | _ => none

/-- The call that has inserted the message and not yet pushed it. -/
def caller : Life → Option Nat
  | .accepted c => some c
  | _ => none

/-- The deliveries completed before the turn the message is in, while a turn is due or under way
and the row has not been written since it was enqueued. -/
def inFlight : Life → Option Nat
  | .queued n _ | .held _ n _ | .sent _ n | .answered _ n _ _ => some n
  | _ => none

/-- Its id enters the queue. -/
def enqueue (t : Time) : Life → Life
  | .accepted _ => .queued 0 t
  | .listed n due => .queued n due
  | ℓ => ℓ

/-- Worker `w` takes its id from the queue. -/
def take (w : Nat) : Life → Life
  | .queued n due => .held w n due
  | ℓ => ℓ

/-- A delivery starts. -/
def start : Life → Life
  | .held w n _ => .sent w n
  | ℓ => ℓ

/-- The delivery is answered. -/
def answer (ok : Bool) (t : Time) : Life → Life
  | .sent w n => .answered w n ok t
  | ℓ => ℓ

/-- A whole row is written: by a worker as the outcome of its delivery, or by the scheduler, whose
copy of the row is as old as the round. -/
def write (msg : Message) : Proc → Life → Life
  | .worker _, .answered _ n _ _ =>
    if msg.status = .retry then .parked (n + 1) (msg.nextRetryAt.getD 0) else .settled msg.status
  | .scheduler, .parked _ _ => .lost
  | .scheduler, .settled _ => .lost
  | _, ℓ => ℓ

/-- The scheduler reads it. -/
def list : Life → Life
  | .parked n due => .listed n due
  | ℓ => ℓ

/-- What an event at time `t` does to the life of `m`. -/
def next (m : Uuid) (t : Time) (ℓ : Life) : Event → Life
  | .inserted c id => if id = m then .accepted c else ℓ
  | .pushed _ id => if id = m then ℓ.enqueue t else ℓ
  | .popped w id => if id = m then ℓ.take w else ℓ
  | .missing _ id => if id = m then .dropped else ℓ
  | .started _ id => if id = m then ℓ.start else ℓ
  | .answered _ id ok => if id = m then ℓ.answer ok t else ℓ
  | .marked _ id status => if id = m then .settled status else ℓ
  | .updated i msg => if msg.id = m then ℓ.write msg i else ℓ
  | .listed msgs => if ∃ msg ∈ msgs, msg.id = m then ℓ.list else ℓ
  | .other => ℓ

end Life

/-- The life of message `m` after a history. -/
def life : History → Uuid → Life
  | [], _ => .absent
  | (ev, t) :: h, m => (life h m).next m t ev

/-! ### What each process is busy with -/

/-- What the scheduler is busy with: the messages it has still to push, and the one it has pushed
and not yet written back. -/
inductive Round
  | idle (todo : List Message)
  | pushed (msg : Message) (todo : List Message)

/-- The messages a round has still to push. -/
def Round.todo : Round → List Message
  | .idle todo | .pushed _ todo => todo

/-- The message a round has pushed and not yet written back. -/
def Round.current : Round → Option Message
  | .idle _ => none
  | .pushed msg _ => some msg

/-- What an event does to the round. -/
def Round.next : Event → Round → Round
  | .listed msgs, _ => .idle msgs
  | .pushed .scheduler _, .idle (msg :: todo) => .pushed msg todo
  | .updated .scheduler _, .pushed _ todo => .idle todo
  | _, r => r

/-- The scheduler's round after a history. -/
def round : History → Round
  | [] => .idle []
  | (ev, _) :: h => (round h).next ev

/-- What an event does to what worker `w` has in hand: it takes what it pops and lets go when it
has written an outcome or found no message. -/
def handNext (w : Nat) (hand : Option Uuid) : Event → Option Uuid
  | .popped w' m => if w' = w then some m else hand
  | .missing w' _ | .marked w' _ _ | .updated (.worker w') _ => if w' = w then none else hand
  | _ => hand

/-- The message worker `w` has popped and not yet written the outcome of. -/
def hand : History → Nat → Option Uuid
  | [], _ => none
  | (ev, _) :: h, w => handNext w (hand h w) ev

/-- What an event does to what call `c` has still to push. -/
def owesNext (c : Nat) (owes : Option Uuid) : Event → Option Uuid
  | .inserted c' m => if c' = c then some m else owes
  | .pushed (.client c') _ => if c' = c then none else owes
  | _ => owes

/-- The message call `c` has inserted and not yet pushed. -/
def owes : History → Nat → Option Uuid
  | [], _ => none
  | (ev, _) :: h, c => owesNext c (owes h c) ev

/-! ### Deliveries -/

/-- One delivery: who made it, when it started, and its answer once there is one: whether it had a
2xx status, and when it came. -/
structure Delivery where
  worker : Nat
  start : Time
  answer : Option (Bool × Time)
deriving DecidableEq

/-- Worker `w` gets the answer it is waiting for. -/
def Delivery.answeredBy (w : Nat) (ok : Bool) (t : Time) (d : Delivery) : Delivery :=
  if d.worker = w ∧ d.answer = none then { d with answer := some (ok, t) } else d

/-- What an event at time `t` does to the deliveries of `m`. -/
def deliveriesNext (m : Uuid) (t : Time) (ds : List Delivery) : Event → List Delivery
  | .started w id => if id = m then ds ++ [⟨w, t, none⟩] else ds
  | .answered w id ok => if id = m then ds.map (Delivery.answeredBy w ok t) else ds
  | _ => ds

/-- The deliveries of message `m`, in the order in which they started. -/
def deliveries : History → Uuid → List Delivery
  | [], _ => []
  | (ev, t) :: h, m => deliveriesNext m t (deliveries h m) ev

/-! ### The protocol -/

/-- The exponential backoff after the delivery with `n` before it, in microseconds. -/
def delay (n : Nat) : Int := 2 ^ n * 1000000

/-- What a worker may write after a delivery that was not answered with a 2xx status: another
attempt, due after the backoff, or final failure once the attempts are used up. -/
def Refusal (n : Nat) (since : Time) (msg : Message) : Prop :=
  (msg.status = .retry ∧ (n : Int) < Worker.maxAttempts ∧ msg.attemptCount = n + 1 ∧
    ∃ due, msg.nextRetryAt = some due ∧ since + delay n ≤ due) ∨
  (msg.status = .failed ∧ Worker.maxAttempts ≤ (n : Int))

/-- The event that may come next, at time `t`. -/
def Allowed (h : History) (t : Time) : Event → Prop
  | .inserted c m => life h m = .absent ∧ owes h c = none
  | .pushed (.client c) m => life h m = .accepted c
  | .pushed .scheduler m => ∃ msg todo, round h = .idle (msg :: todo) ∧ msg.id = m
  | .pushed (.worker _) _ => False
  | .popped w m => hand h w = none ∧ ∃ n due, life h m = .queued n due
  | .missing w m =>
    (∃ n due, life h m = .held w n due) ∨ ∃ n since, life h m = .answered w n true since
  | .started w m => ∃ n due, life h m = .held w n due ∧ due ≤ t
  | .answered w m _ => ∃ n, life h m = .sent w n
  | .marked w m status =>
    (status = .failed ∧ ∃ due, life h m = .held w 0 due) ∨
      (status = .success ∧ ∃ n since, life h m = .answered w n true since)
  | .updated (.worker w) msg =>
    ∃ n since, life h msg.id = .answered w n false since ∧ Refusal n since msg
  | .updated .scheduler msg =>
    ∃ m₀ todo, round h = .pushed m₀ todo ∧ msg = { m₀ with status := .pending }
  | .updated (.client _) _ => False
  | .listed msgs => round h = .idle [] ∧ (msgs.map Message.id).Nodup ∧
    ∀ msg ∈ msgs, ∃ n due, life h msg.id = .parked n due ∧ due ≤ t ∧ msg.attemptCount = n ∧
      msg.nextRetryAt = some due
  | .other => True

/-- Every event was allowed when it happened. -/
def Valid : History → Prop
  | [] => True
  | (ev, t) :: h => Valid h ∧ Allowed h t ev

@[simp] theorem life_nil (m : Uuid) : life [] m = .absent := rfl

@[simp] theorem life_cons (ev : Event) (t : Time) (h : History) (m : Uuid) :
    life ((ev, t) :: h) m = (life h m).next m t ev := rfl

@[simp] theorem deliveries_cons (ev : Event) (t : Time) (h : History) (m : Uuid) :
    deliveries ((ev, t) :: h) m = deliveriesNext m t (deliveries h m) ev := rfl

@[simp] theorem round_cons (ev : Event) (t : Time) (h : History) :
    round ((ev, t) :: h) = (round h).next ev := rfl

@[simp] theorem hand_cons (ev : Event) (t : Time) (h : History) (w : Nat) :
    hand ((ev, t) :: h) w = handNext w (hand h w) ev := rfl

@[simp] theorem owes_cons (ev : Event) (t : Time) (h : History) (c : Nat) :
    owes ((ev, t) :: h) c = owesNext c (owes h c) ev := rfl

end Chis.Pipeline
