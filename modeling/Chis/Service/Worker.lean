import Chis.System.World

/-!
# The worker

`internal/worker/worker.go`. `iteration` is one turn of the loop of `Worker.Start`; the worker of a
run repeats it. Log lines and metrics are left out.
-/

namespace Chis.Worker

open Program

/-- `MaxAttempts`; `worker.go:21`. -/
def maxAttempts : Int := 5

/-- `BaseBackoff` in nanoseconds; `worker.go:22`. -/
def baseBackoff : Int := 1000000000

/-- Arithmetic of Go's 64-bit integers. -/
def wrap64 (n : Int) : Int := Int.bmod n (2 ^ 64)

/-- `BaseBackoff * time.Duration(1<<attemptCount)` in nanoseconds; `worker.go:157`. A shift by a
negative count panics. -/
def backoff (attemptCount : Int) : Option Int :=
  if attemptCount < 0 then none
  else some (wrap64 (baseBackoff * wrap64 (2 ^ attemptCount.toNat)))

/-- `time.Time.Add`, at the resolution Postgres stores. -/
def addDuration (t : Time) (nanoseconds : Int) : Time := t + nanoseconds / 1000

/-- `net/http.validMethod`: a nonempty token. -/
def validMethod (method : String) : Bool :=
  !method.isEmpty && method.toList.all fun c ↦
    c.isAlphanum || [33, 35, 36, 37, 38, 39, 42, 43, 45, 46, 94, 95, 96, 124, 126].contains c.toNat

/-- `http.NewRequestWithContext`; an empty method means `GET`. -/
def newRequest (env : Platform) (method url body : String) : Option HttpRequest :=
  let method := if method = "" then "GET" else method
  if validMethod method && env.urlParses url then some ⟨method, url, body, []⟩ else none

/-- Look up the signing secret and set the signature headers; `worker.go:87`. Without a secret the
request goes out as it is. -/
def sign (env : Platform) (msg : Message) (req : HttpRequest) : Service HttpRequest := do
  let msgID := "msg_" ++ msg.id.toString
  match ← Service.sql (.getSigningSecret msg.orgID) with
  | .error _ => return req
  | .ok secret =>
    let now ← timeNow
    let sig := Helper.signWebhookPayloadWithTimestamp env.hmac msgID secret msg.payload
      (now / 1000000)
    return ((req.set "X-Webhook-ID" sig.messageID).set "X-Webhook-Timestamp"
      (toString sig.timestamp)).set "X-Webhook-Signature" sig.signature

/-- The row that logs one attempt; `worker.go:134`. -/
def attemptOf (msg : Message) (answer : Answer) (durationMS : Int) : DeliveryAttempt :=
  { id := .nil
    messageID := msg.id
    attemptNumber := msg.attemptCount + 1
    statusCode := match answer with
      | .response code _ => some code
      | .failed _ => none
    responseBody := match answer with
      | .response _ body => if body.isEmpty then none else some body
      | .failed _ => none
    errorMessage := match answer with
      | .response _ _ => none
      | .failed message => some message
    durationMS := some durationMS
    attemptedAt := 0 }

/-- `&model.Message{...}` of a failed delivery that is tried again; `worker.go:159`. -/
def retryData (msg : Message) (nextRetry : Time) : Message :=
  { Message.zero with
    id := msg.id
    attemptCount := msg.attemptCount + 1
    nextRetryAt := some nextRetry
    status := .retry }

/-- Write the outcome of a delivery; `worker.go:145`. -/
def settle (msg : Message) (success : Bool) : Service Unit := do
  if success then
    let _ ← Service.sql (.messageUpdateStatus msg.id .success)
  else if msg.attemptCount < maxAttempts then
    match backoff msg.attemptCount with
    | none =>
      let e ← Prog.call Op.panic
      nomatch e
    | some backoff =>
      let now ← timeNow
      let _ ← Service.sql (.messageUpdate (retryData msg (addDuration now backoff)))
  else
    let _ ← Service.sql (.messageUpdate { msg with status := .failed })

/-- Send the request, log the attempt, write the outcome; `worker.go:103`. -/
def attempt (msg : Message) (req : HttpRequest) : Service Unit := do
  let start ← timeNow
  let answer ← httpDo msg.id req
  let finish ← timeNow
  let _ ← Service.sql (.attemptCreate (attemptOf msg answer ((finish - start) / 1000)))
  settle msg answer.ok

/-- `Worker.deliver`; `worker.go:73`. -/
def deliver (env : Platform) (msg : Message) : Service Unit := do
  match newRequest env msg.method msg.url msg.payload with
  | none =>
    let _ ← Service.sql (.messageUpdateStatus msg.id .failed)
  | some req =>
    let req ← sign env msg (req.set "Content-Type" "application/json")
    attempt msg req

/-- What the loop does with a popped message id; `worker.go:57`. -/
def handle (env : Platform) (messageID : String) : Service Unit := do
  match Uuid.parse messageID with
  | none => return ()
  | some id =>
    match ← Service.sql (.messageFindById id) with
    | .error _ => return ()
    | .ok message => deliver env message

/-- One turn of the loop of `Worker.Start`; `worker.go:47`. -/
def iteration (env : Platform) : Service Unit := do
  match ← Queue.pop with
  | .error _ => return ()
  | .ok messageID => handle env messageID

end Chis.Worker
