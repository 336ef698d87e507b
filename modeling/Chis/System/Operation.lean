import Chis.Base.JsonText
import Chis.Base.Prog
import Chis.Helper.Signature
import Chis.Repository.Messages
import Chis.Repository.Tenancy

/-!
# Operations of the services

The steps at whose granularity the services interleave: one SQL statement, one Redis command, the
start and the end of one HTTP exchange, one look at the clock, one draw of random bytes. Operations
fail as a whole: a failed one has had no effect.
-/

namespace Chis

open Program

/-- What the services take from outside this repository. -/
structure Platform where
  /-- The text a `JSONB` column gives back for a text it accepts. -/
  jsonb : String → Option String
  /-- Whether `url.Parse` accepts a text, inside `http.NewRequestWithContext`. -/
  urlParses : String → Bool
  /-- HMAC-SHA256 of a content under a secret. -/
  hmac : String → String → List UInt8
  /-- The case folding of `ILIKE`. -/
  lower : Char → Char

/-- How one HTTP exchange ends. -/
inductive Answer
  | response (statusCode : Int) (body : List UInt8)
  | failed (message : String)
deriving DecidableEq

/-- A status code of 200 to 299. -/
def Answer.ok : Answer → Bool
  | .response code _ => 200 ≤ code && code < 300
  | .failed _ => false

/-- An `http.Request` with what the worker sets of it. -/
structure HttpRequest where
  method : String
  url : String
  body : String
  header : List (String × String)
deriving DecidableEq

/-- `req.Header.Set`. -/
def HttpRequest.set (req : HttpRequest) (key value : String) : HttpRequest :=
  { req with header := req.header.filter (fun h ↦ h.1 ≠ key) ++ [(key, value)] }

/-- An HTTP response of the API: its status code and, if it has one, its JSON body. -/
structure Response where
  code : Nat
  body : Option (Json Decimal)

/-- The SQL statements, each named after the repository function that runs it. -/
inductive Stmt
  | userCreate (user : User)
  | userFindByEmail (email : String)
  | userFindByID (id : Uuid)
  | accountCreate (account : Account)
  | accountFindByUserID (userID : Uuid)
  | organizationCreate (organization : Organization)
  | organizationFindByID (id : Uuid)
  | organizationDelete (id : Uuid)
  | getSigningSecret (orgID : Uuid)
  | rotateSigningSecret (orgID : Uuid) (newSecret : String)
  | membershipCreate (membership : Membership)
  | membershipFindAllByUserID (userID : Uuid)
  | membershipFindByUserAndOrgID (userID orgID : Uuid)
  | apiKeyCreate (apiKey : APIKey)
  | apiKeyFindByHashedKey (hashedKey : String)
  | apiKeyFindByOrgID (orgID : Uuid)
  | apiKeyDelete (id : Uuid)
  | messageCreate (message : Message)
  | messageUpdateStatus (id : Uuid) (status : MessageStatus)
  | messageFindById (id : Uuid)
  | messageUpdate (msg : Message)
  | findRetryReady (limit : Nat)
  | countByStatus (orgID : Uuid)
  | countWebhookLogs (conds : List MessageRepository.Cond) (args : List MessageRepository.Arg)
  | pageWebhookLogs (conds : List MessageRepository.Cond) (limitIdx offsetIdx : Nat)
      (args : List MessageRepository.Arg)
  | attemptCreate (deliveryAttempt : DeliveryAttempt)
  | attemptFindByMessageID (messageID : Uuid)
  | invitationCreate (invitation : Invitation)
  | invitationFindByID (id : Uuid)
  | invitationFindByToken (token : String)
  | invitationFindByOrgID (orgID : Uuid)
  | invitationFindByOrgAndEmail (orgID : Uuid) (email : String)
  | invitationFindPendingByEmail (email : String)
  | invitationUpdateStatus (id : Uuid) (status : String)
  | invitationAccept (id : Uuid) (acceptedAt : Time)
  | invitationDelete (id : Uuid)

namespace Stmt

/-- What a successful statement returns. -/
@[reducible] def Ok : Stmt → Type
  | .userCreate _ | .userFindByEmail _ | .userFindByID _ => User
  | .accountCreate _ | .accountFindByUserID _ => Account
  | .organizationCreate _ | .organizationFindByID _ => Organization
  | .getSigningSecret _ => String
  | .membershipCreate _ | .membershipFindByUserAndOrgID _ _ => Membership
  | .membershipFindAllByUserID _ => List MembershipWithOrg
  | .apiKeyCreate _ | .apiKeyFindByHashedKey _ => APIKey
  | .apiKeyFindByOrgID _ => List APIKey
  | .messageCreate _ | .messageUpdateStatus _ _ | .messageFindById _ => Message
  | .findRetryReady _ => List Message
  | .countByStatus _ => MessageRepository.StatusCounts
  | .countWebhookLogs _ _ => Nat
  | .pageWebhookLogs _ _ _ _ => List MessageRepository.WebhookLogRow
  | .attemptCreate _ => DeliveryAttempt
  | .attemptFindByMessageID _ => List DeliveryAttempt
  | .invitationCreate _ | .invitationFindByID _ | .invitationFindByToken _
  | .invitationFindByOrgAndEmail _ _ => Invitation
  | .invitationFindByOrgID _ => List Invitation
  | .invitationFindPendingByEmail _ => List PendingInvitation
  | .organizationDelete _ | .rotateSigningSecret _ _ | .apiKeyDelete _ | .messageUpdate _
  | .invitationUpdateStatus _ _ | .invitationAccept _ _ | .invitationDelete _ => Unit

/-- The statements that draw an id from `gen_random_uuid()`. -/
def inserts : Stmt → Bool
  | .userCreate _ | .accountCreate _ | .organizationCreate _ | .membershipCreate _
  | .apiKeyCreate _ | .messageCreate _ | .attemptCreate _ | .invitationCreate _ => true
  | _ => false

end Stmt

/-- The operations of all services. -/
inductive Op
  | sql (s : Stmt)
  /-- `LPUSH` of a message id. -/
  | push (messageID : String)
  /-- `BRPOP` with its timeout. -/
  | pop
  /-- `httpClient.Do` sends the request made for message `id`. -/
  | send (id : Uuid) (req : HttpRequest)
  /-- `httpClient.Do` returns, for the request made for message `id`. -/
  | answer (id : Uuid)
  /-- `time.Now()`. -/
  | now
  /-- `rand.Read` of 32 bytes. -/
  | rand
  /-- The API answers a request. -/
  | respond (res : Response)
  /-- A run-time panic: the process performs nothing more. -/
  | panic

/-- What an operation answers. -/
@[reducible] def Op.Res : Op → Type
  | .sql s => Except Err s.Ok
  | .push _ => Except Err Unit
  | .pop => Except Err String
  | .send _ _ => Unit
  | .answer _ => Answer
  | .now => Time
  | .rand => Except Err (List UInt8)
  | .respond _ => Unit
  | .panic => Empty

/-- A program of one of the services. -/
abbrev Service := Prog Op Op.Res

/-- Run one statement. -/
def Service.sql (s : Stmt) : Service (Except Err s.Ok) := Prog.call (Op.sql s)

namespace Queue

/-- `Queue.Push`; `queue.go:22`. -/
def push (messageID : String) : Service (Except Err Unit) := Prog.call (Op.push messageID)

/-- `Queue.Pop`; `queue.go:29`. -/
def pop : Service (Except Err String) := Prog.call Op.pop

end Queue

/-- `time.Now()`. -/
def timeNow : Service Time := Prog.call Op.now

/-- `rand.Read`. -/
def randRead : Service (Except Err (List UInt8)) := Prog.call Op.rand

/-- `httpClient.Do`: between its two operations every other process may run. -/
def httpDo (id : Uuid) (req : HttpRequest) : Service Answer := do
  let () ← (Prog.call (Op.send id req) : Service Unit)
  (Prog.call (Op.answer id) : Service Answer)

end Chis
