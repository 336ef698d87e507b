import Chis.Base.Calendar
import Chis.System.World

/-!
# Requests, responses and errors of the API

`pkg/apperror`, `pkg/response` and what a handler sees of a request. A handler ends with a response
or with an error, which `wrap` turns into a response.
-/

namespace Chis.Api

open Program

/-- What the API takes from outside this repository, beside what all services take. -/
structure Env extends Platform where
  /-- `jwt.Parse` at a time: the `sub` claim of a token that is valid then, if it is a string. -/
  jwtSubject : Time → String → Option String
  /-- A signed token for a `sub` claim that expires at a Unix time. -/
  jwtSign : String → Int → Option String
  /-- `bcrypt.GenerateFromPassword` with a salt; passwords above 72 bytes are refused. -/
  bcryptHash : List UInt8 → String → Option String
  /-- `bcrypt.CompareHashAndPassword`, of a hash and a password. -/
  bcryptMatches : String → String → Bool
  /-- SHA-256. -/
  sha256 : String → List UInt8
  /-- The rule `email` of the validator. -/
  isEmail : String → Bool
  /-- The rule `url` of the validator. -/
  isUrl : String → Bool
  /-- `time.Time.UnmarshalJSON` of a text; the inner `none` is the zero time. -/
  parseTime : String → Option (Option Time)
  /-- `unicode.ToLower`. -/
  toLower : Char → Char
  /-- How far the server's zone is ahead of UTC at a time, in seconds. -/
  zone : Time → Int

/-- What the handlers and middlewares read of an `http.Request`. A header that is absent reads as
the empty text. The body is a text: the decoder has replaced bytes that are not UTF-8. -/
structure Request where
  /-- `r.URL.Path`. -/
  path : String
  /-- The header `Authorization`. -/
  authorization : String
  /-- The header `X-Org-ID`. -/
  orgHeader : String
  /-- The header `X-API-Key`. -/
  apiKeyHeader : String
  /-- `r.URL.Query()`. -/
  query : List (String × String)
  body : String

/-- `url.Values.Get`: the first value of a key, or the empty text. -/
def Request.get (req : Request) (key : String) : String :=
  ((req.query.find? fun p ↦ p.1 = key).map Prod.snd).getD ""

/-! ### JSON documents -/

/-- The JSON text of an integer. -/
def int (n : Int) : Json Decimal := .num (.ofInt n)

/-- A nullable member. -/
def nullable {α : Type} (f : α → Json Decimal) (x : Option α) : Json Decimal := x.elim .null f

/-- `response.WriteJSON`; `response.go:8`. -/
def writeJSON (code : Nat) (data : Json Decimal) : Response := ⟨code, some data⟩

/-- A response whose body is one message. -/
def message (code : Nat) (text : String) : Response :=
  writeJSON code (.obj [("message", .str text)])

/-! ### Errors -/

/-- `shared.FieldError`. -/
structure FieldError where
  field : String
  message : String
deriving DecidableEq

/-- `apperror.AppError`, without the path and the time that `WithContext` adds. -/
structure AppError where
  code : Nat
  message : String
  details : List FieldError
deriving DecidableEq

namespace AppError

/-- The constructors of `errors.go`, which differ in their status code. -/
def of (code : Nat) (message : String) : AppError := ⟨code, message, []⟩

def badRequest : String → AppError := of 400
def unauthorized : String → AppError := of 401
def forbidden : String → AppError := of 403
def notFound : String → AppError := of 404
def conflict : String → AppError := of 409
def internal : String → AppError := of 500

/-- `ValidationFailed`; `errors.go:58`. -/
def validationFailed (details : List FieldError) : AppError := ⟨422, "Validation failed", details⟩

/-- The SQLSTATE codes with an answer of their own; `postgres.go:11`. -/
def postgresCodes : List (String × Nat × String) :=
  [("23505", 409, "Resource already exists."),
    ("23503", 400, "Invalid reference."),
    ("23502", 400, "Required field is missing."),
    ("23514", 400, "Data validation failed."),
    ("22P02", 400, "Invalid input format."),
    ("22003", 400, "Numeric value out of range."),
    ("22001", 400, "Input exceeds maximum length."),
    ("40001", 503, "Database is busy, please try again later."),
    ("40P01", 503, "Database is busy, please try again later."),
    ("42501", 403, "Database permission denied."),
    ("28000", 401, "Invalid database credentials.")]

/-- `FromPostgres`; `postgres.go:43`. -/
def fromPostgres : Err → Option AppError
  | .pg code =>
    match postgresCodes.lookup code with
    | some (status, message) => some (of status message)
    | none => some (of 500 "Database error occurred.")
  | _ => none

/-- The body of an error response; `details` is left out when empty. -/
def body (e : AppError) (path : String) (now : Time) : Json Decimal :=
  .obj ([("message", .str e.message), ("path", .str path),
    ("timestamp", .str (Calendar.rfc3339Nano 0 now))] ++
    if e.details.isEmpty then []
    else [("details", .arr (e.details.map fun d ↦
      .obj [("field", .str d.field), ("message", .str d.message)]))])

end AppError

/-- What a handler can return instead of a response. -/
inductive Fault
  /-- An `AppError`. -/
  | app (e : AppError)
  /-- An error of a repository, passed on. -/
  | repo (e : Err)
  /-- `validator.ValidationErrors`. -/
  | validation (details : List FieldError)
  /-- Any other error. -/
  | other (message : String)

/-- How `Wrap` classifies an error; `errorhandler.go:26`. -/
def Fault.toAppError : Fault → AppError
  | .app e => e
  | .repo e => (AppError.fromPostgres e).getD (.internal "Internal server error")
  | .validation details => .validationFailed details
  | .other _ => .internal "Internal server error"

/-! ### Handlers -/

/-- An `apperror.HandlerFunc`. -/
abbrev Handler := ExceptT Fault Service

/-- Return an error that is built with `apperror`. -/
def fail {α : Type} (e : AppError) : Handler α := ExceptT.mk (.pure (.error (.app e)))

/-- Return an error there is already. -/
def check {α : Type} (x : Except Fault α) : Handler α := ExceptT.mk (.pure x)

/-- Run a statement and return an error for its failure. -/
def query (s : Stmt) (fault : Err → Fault) : Handler s.Ok :=
  ExceptT.mk (do
    match ← Service.sql s with
    | .ok a => return .ok a
    | .error e => return .error (fault e))

/-- Run a statement and look at its failure. -/
def attempt (s : Stmt) : Handler (Except Err s.Ok) := ExceptT.lift (Service.sql s)

/-- Draw random bytes, with an error for a failure. -/
def random (fault : AppError) : Handler (List UInt8) :=
  ExceptT.mk (do
    match ← randRead with
    | .ok bytes => return .ok bytes
    | .error _ => return .error (.app fault))

/-- `time.Now()`. -/
def clock : Handler Time := ExceptT.lift timeNow

/-- A nil pointer is followed. -/
def nilDereference {α : Type} : Handler α :=
  ExceptT.mk (Prog.op Op.panic fun e ↦ nomatch (e : Empty))

section Run

variable {α β : Type}

@[simp] theorem run_pure (a : α) : (pure a : Handler α).run = .pure (.ok a) := rfl

@[simp] theorem run_fail (e : AppError) : (fail e : Handler α).run = .pure (.error (.app e)) := rfl

@[simp] theorem run_fail_bind (e : AppError) (k : α → Handler β) :
    (fail e >>= k).run = .pure (.error (.app e)) := rfl

@[simp] theorem run_check_ok (a : α) (k : α → Handler β) : (check (.ok a) >>= k).run = (k a).run :=
  rfl

@[simp] theorem run_check_error (e : Fault) (k : α → Handler β) :
    (check (.error e) >>= k).run = .pure (.error e) := rfl

@[simp] theorem run_attempt_bind (s : Stmt) (k : Except Err s.Ok → Handler β) :
    (attempt s >>= k).run = .op (.sql s) fun r ↦ (k r).run := rfl

@[simp] theorem run_clock_bind (k : Time → Handler β) :
    (clock >>= k).run = .op .now fun t ↦ (k t).run := rfl

@[simp] theorem run_nilDereference :
    (nilDereference : Handler α).run = .op .panic fun e ↦ nomatch (e : Empty) := rfl

/-- What a handler does with the answer of an operation that may fail. -/
def onAnswer {γ : Type} (fault : Err → Fault) (k : γ → Handler β) :
    Except Err γ → Service (Except Fault β)
  | .ok a => (k a).run
  | .error e => .pure (.error (fault e))

@[simp] theorem run_query_bind (s : Stmt) (fault : Err → Fault) (k : s.Ok → Handler β) :
    (query s fault >>= k).run = .op (.sql s) (onAnswer fault k) := by
  change Prog.op (Op.sql s) _ = _
  congr 1
  funext r
  cases r <;> rfl

@[simp] theorem run_random_bind (fault : AppError) (k : List UInt8 → Handler β) :
    (random fault >>= k).run = .op .rand (onAnswer (fun _ ↦ .app fault) k) := by
  change Prog.op Op.rand _ = _
  congr 1
  funext r
  cases r <;> rfl

end Run

/-- `Wrap`; `errorhandler.go:16`. -/
def wrap (req : Request) (h : Handler Response) : Service Response := do
  match ← h.run with
  | .ok res => return res
  | .error fault =>
    let e := fault.toAppError
    let now ← timeNow
    return writeJSON e.code (e.body req.path now)

end Chis.Api
