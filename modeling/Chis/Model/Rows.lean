import Chis.Base.Table
import Chis.Base.Uuid

/-!
# The data model

The structures of `internal/model` and the enumerations of the migrations. A row holds what the
services read or write of it. Times are microseconds since the epoch, the resolution Postgres
stores; a nullable column is an `Option`.
-/

namespace Chis

/-- A point in time, in microseconds since the epoch. -/
abbrev Time := Int

/-- `message_status`, with the value added by migration 3. -/
inductive MessageStatus
  | pending | success | failed | retry
deriving DecidableEq, Repr

/-- The label of a status in Go and in Postgres. -/
def MessageStatus.label : MessageStatus → String
  | .pending => "pending"
  | .success => "success"
  | .failed => "failed"
  | .retry => "retry"

/-- Reading a label as a `message_status`; no other text is one. -/
def MessageStatus.ofLabel (s : String) : Option MessageStatus :=
  [.pending, .success, .failed, .retry].find? fun st : MessageStatus ↦ st.label = s

/-- `role_type`. -/
inductive Role
  | admin | member
deriving DecidableEq, Repr

/-- The label of a role in Go and in Postgres. -/
def Role.label : Role → String
  | .admin => "admin"
  | .member => "member"

/-- `invitation_status`. -/
inductive InvitationStatus
  | pending | accepted | expired | cancelled
deriving DecidableEq, Repr

/-- The label of an invitation status in Go and in Postgres. -/
def InvitationStatus.label : InvitationStatus → String
  | .pending => "pending"
  | .accepted => "accepted"
  | .expired => "expired"
  | .cancelled => "cancelled"

/-- Reading a label as an `invitation_status`; no other text is one. -/
def InvitationStatus.ofLabel (s : String) : Option InvitationStatus :=
  [.pending, .accepted, .expired, .cancelled].find? fun st : InvitationStatus ↦ st.label = s

/-- `model.User`. -/
structure User where
  id : Uuid
  email : String
  firstName : String
  lastName : Option String
  emailVerified : Bool
  createdAt : Time
  updatedAt : Time
deriving DecidableEq

/-- `model.Account`, without the token columns no service touches. -/
structure Account where
  id : Uuid
  userID : Uuid
  provider : String
  providerAccountID : String
  passwordHash : Option String
  createdAt : Time
  updatedAt : Time
deriving DecidableEq

/-- `model.Organization`. -/
structure Organization where
  id : Uuid
  name : String
  slug : String
  signingSecret : String
  createdAt : Time
  updatedAt : Time
deriving DecidableEq

/-- `model.Membership`. -/
structure Membership where
  id : Uuid
  userID : Uuid
  orgID : Uuid
  role : Role
  createdAt : Time
  updatedAt : Time
deriving DecidableEq

/-- `model.APIKey`. -/
structure APIKey where
  id : Uuid
  orgID : Uuid
  name : String
  pre : String
  hashedKey : String
  expiresAt : Option Time
  lastUsedAt : Option Time
  createdAt : Time
  updatedAt : Time
deriving DecidableEq

/-- `model.Message`. The payload is the text of a JSON value. -/
structure Message where
  id : Uuid
  orgID : Uuid
  method : String
  url : String
  payload : String
  status : MessageStatus
  createdAt : Time
  updatedAt : Time
  attemptCount : Int
  nextRetryAt : Option Time
deriving DecidableEq

/-- `&model.Message{}`: every field has its zero value. The zero `Status` is the empty string,
which no statement ever writes; `pending` stands in for it. -/
def Message.zero : Message :=
  ⟨.nil, .nil, "", "", "", .pending, 0, 0, 0, none⟩

/-- `model.DeliveryAttempt`. A response body is whatever bytes the receiver sent. -/
structure DeliveryAttempt where
  id : Uuid
  messageID : Uuid
  attemptNumber : Int
  statusCode : Option Int
  responseBody : Option (List UInt8)
  errorMessage : Option String
  durationMS : Option Int
  attemptedAt : Time
deriving DecidableEq

/-- `model.Invitation`. -/
structure Invitation where
  id : Uuid
  orgID : Uuid
  email : String
  role : Role
  token : String
  status : InvitationStatus
  invitedBy : Option Uuid
  expiresAt : Time
  acceptedAt : Option Time
  createdAt : Time
  updatedAt : Time
deriving DecidableEq

/-- The tables of the migrations, each keyed by its primary key. -/
structure Db where
  users : Relational.Table User.id
  accounts : Relational.Table Account.id
  organizations : Relational.Table Organization.id
  memberships : Relational.Table Membership.id
  apiKeys : Relational.Table APIKey.id
  messages : Relational.Table Message.id
  deliveryAttempts : Relational.Table DeliveryAttempt.id
  invitations : Relational.Table Invitation.id

/-- The tables right after the migrations. -/
def Db.empty : Db := ⟨.empty, .empty, .empty, .empty, .empty, .empty, .empty, .empty⟩

end Chis
