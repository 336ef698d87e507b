import Chis.Api.Request

/-!
# The dashboard

`internal/handler/dashboard.go` with the functions of `internal/repository/message.go` that run more
than a statement for it. The percentage and the number of pages are computed in doubles.
-/

namespace Chis.Api

/-! ### Statistics -/

/-- A magnitude as a double; no statistic is out of range. -/
def toDouble (q : ℚ) : ℚ := ((Double.round false q).map Double.magnitude).getD 0

/-- `math.Round` of a number that is not negative. -/
def roundHalfUp (q : ℚ) : ℤ := ⌊q + 1 / 2⌋

/-- The success rate of `GetStatsByOrgID` in percent; `message.go:205`. -/
def successRate (total sent : Nat) : Decimal :=
  if total = 0 then ⟨false, 0, 0⟩
  else
    let share := toDouble (toDouble (sent / total) * 10000)
    ((Double.round false (roundHalfUp share / 100)).map Double.shortest).getD ⟨false, 0, 0⟩

/-- `DashboardHandler.Stats`; `dashboard.go:30`. -/
def stats (orgID : Uuid) : Handler Response := do
  let c : MessageRepository.StatusCounts ← query (.countByStatus orgID)
    fun _ ↦ .app (.internal "failed to fetch dashboard stats")
  return writeJSON 200 (.obj [("totalWebhooksSent", int c.sent),
    ("totalWebhooksFailed", int c.failed), ("totalWebhooksQueued", int c.queued),
    ("successRate", .num (successRate c.total c.sent))])

/-! ### The log -/

/-- `strconv.Atoi` on a 64-bit `int`. -/
def atoi (s : String) : Option Int :=
  let (neg, ds) := Json.sign s.toList
  if ds = [] ∨ !ds.all Char.isDigit then none
  else
    let n : Int := Nat.ofDigitChars 10 ds 0
    let v := if neg then -n else n
    if -2 ^ 63 ≤ v ∧ v < 2 ^ 63 then some v else none

/-- The page asked for; `dashboard.go:55`. -/
def pageOf (v : String) : Int :=
  match atoi v with
  | some p => if 0 < p then p else 1
  | none => 1

/-- The number of rows asked for; `dashboard.go:62`. -/
def limitOf (v : String) : Int :=
  match atoi v with
  | some l => if 0 < l ∧ l ≤ 100 then l else 20
  | none => 20

/-- The `WHERE` clause of `FindWebhookLogs` with its arguments, numbered as they are added;
`message.go:227`. -/
def whereClause (orgID : Uuid) (status search : String) :
    List MessageRepository.Cond × List MessageRepository.Arg :=
  let conds := [.orgID 1]
  let args := [.uuid orgID]
  let (conds, args) :=
    if status ≠ "" then (conds ++ [.status (args.length + 1)], args ++ [.text status])
    else (conds, args)
  if search ≠ "" then
    (conds ++ [.urlILike (args.length + 1)], args ++ [.text ("%" ++ search ++ "%")])
  else (conds, args)

/-- `WebhookLogsResult`, with the rows as the query gives them. -/
structure WebhookLogsResult where
  data : List MessageRepository.WebhookLogRow
  total : Nat
  page : Int
  limit : Int
  totalPages : Int
deriving DecidableEq

/-- `int(math.Ceil(float64(total) / float64(limit)))`; `message.go:250`. -/
def totalPages (total : Nat) (limit : Int) : Int :=
  if total = 0 then 0 else ⌈toDouble (toDouble total / toDouble limit)⌉

/-- `FindWebhookLogs`; `message.go:218`. Products of Go's `int` wrap around. -/
def findWebhookLogs (orgID : Uuid) (status search : String) (page limit : Int) :
    Service (Except Err WebhookLogsResult) := do
  let page := if page < 1 then 1 else page
  let limit := if limit < 1 then 20 else limit
  let offset := Int.bmod ((page - 1) * limit) (2 ^ 64)
  let (conds, args) := whereClause orgID status search
  match ← Service.sql (.countWebhookLogs conds args) with
  | .error e => return .error e
  | .ok (total : Nat) =>
    match ← Service.sql (.pageWebhookLogs conds (args.length + 1) (args.length + 2)
      (args ++ [.int limit, .int offset])) with
    | .error e => return .error e
    | .ok (rows : List MessageRepository.WebhookLogRow) =>
      return .ok ⟨rows, total, page, limit, totalPages total limit⟩

/-- `WebhookLogEntry`; `interfaces.go:78`. -/
def webhookLogJSON (env : Env) (row : MessageRepository.WebhookLogRow) : Json Decimal :=
  .obj [("id", .str row.id.toString), ("endpoint", .str row.url),
    ("status", .str row.status.label), ("statusCode", int row.statusCode),
    ("eventType", .str row.method),
    ("attemptedAt", .str (Calendar.rfc3339 (env.zone row.attemptedAt) row.attemptedAt)),
    ("responseTimeMs", int row.durationMs)]

/-- `DashboardHandler.WebhookLogs`; `dashboard.go:45`. -/
def webhookLogs (env : Env) (orgID : Uuid) (r : Request) : Handler Response := do
  let found ← (ExceptT.lift (findWebhookLogs orgID (r.get "status") (r.get "search")
    (pageOf (r.get "page")) (limitOf (r.get "limit"))) : Handler (Except Err WebhookLogsResult))
  match found with
  | .error _ => fail (.internal "failed to fetch webhook logs")
  | .ok res =>
    return writeJSON 200 (.obj [("data", .arr (res.data.map (webhookLogJSON env))),
      ("total", int res.total), ("page", int res.page), ("limit", int res.limit),
      ("totalPages", int res.totalPages)])

/-- The text of bytes that Postgres stored as text. -/
def storedText (bytes : List UInt8) : String := (String.fromUTF8? ⟨bytes.toArray⟩).getD ""

/-- `DeliveryAttemptDetail`; `interfaces.go:35`. -/
def attemptJSON (env : Env) (a : DeliveryAttempt) : Json Decimal :=
  .obj [("id", .str a.id.toString), ("attemptNumber", int a.attemptNumber),
    ("statusCode", nullable int a.statusCode),
    ("responseBody", nullable (fun b ↦ .str (storedText b)) a.responseBody),
    ("errorMessage", nullable .str a.errorMessage), ("durationMs", nullable int a.durationMS),
    ("attemptedAt", .str (Calendar.clockZ (env.zone a.attemptedAt) a.attemptedAt))]

/-- `WebhookLogDetail`; `interfaces.go:45`. The payload goes in as the JSON document it is; without
one the encoder fails, and nothing follows the status line. -/
def detailJSON (env : Env) (msg : Message) (attempts : List DeliveryAttempt) :
    Option (Json Decimal) :=
  let text (t : Time) : Json Decimal := .str (Calendar.clockZ (env.zone t) t)
  (Json.parse msg.payload).map fun payload ↦
    .obj [("id", .str msg.id.toString), ("method", .str msg.method), ("url", .str msg.url),
      ("status", .str msg.status.label), ("payload", payload),
      ("attemptCount", int msg.attemptCount), ("createdAt", text msg.createdAt),
      ("updatedAt", text msg.updatedAt), ("nextRetryAt", nullable text msg.nextRetryAt),
      ("deliveryAttempts", .arr (attempts.map (attemptJSON env)))]

/-- `DashboardHandler.WebhookLogDetail`; `dashboard.go:78`. The message is fetched by its id alone;
one of another organization is answered like a missing one. -/
def webhookLogDetail (env : Env) (orgID : Uuid) (idParam : String) : Handler Response := do
  let some msgID := Uuid.parse idParam | fail (.badRequest "invalid log ID")
  let msg : Message ← query (.messageFindById msgID)
    fun _ ↦ .app (.notFound "webhook log not found")
  if msg.orgID ≠ orgID then fail (.notFound "webhook log not found")
  let attempts : List DeliveryAttempt ← query (.attemptFindByMessageID msgID)
    fun _ ↦ .app (.internal "failed to fetch delivery attempts")
  return ⟨200, detailJSON env msg attempts⟩

end Chis.Api
