import Chis.Api.Tenancy

/-!
# Invitations

`internal/handler/invitation.go`. Every handler reads the invitation, decides and writes in separate
statements. Sending the invitation email has no effect on the store and its result is not looked at.
-/

namespace Chis.Api

/-- `CreateInvitationRequest`; `invitation.go:40`. -/
structure CreateInvitationRequest where
  email : String
  role : String
deriving DecidableEq

def CreateInvitationRequest.fields (ms : List (String × Json Decimal)) :
    Option CreateInvitationRequest := do
  return { email := ← stringField "email" ms, role := ← stringField "role" ms }

def CreateInvitationRequest.errors (env : Env) (req : CreateInvitationRequest) : List FieldError :=
  fieldErrors env "email" [.required, .email] req.email ++
    optionalErrors env "role" [.oneof ["admin", "member"]] req.role

/-- The role asked for, `member` by default; validation lets no third text through. -/
def CreateInvitationRequest.roleOrDefault (req : CreateInvitationRequest) : Role :=
  if req.role = "admin" then .admin else .member

/-- `InvitationResponse`; `invitation.go:45`. -/
def invitationJSON (env : Env) (inv : Invitation) : Json Decimal :=
  .obj [("id", .str inv.id.toString), ("email", .str inv.email), ("role", .str inv.role.label),
    ("status", .str inv.status.label),
    ("expiresAt", .str (Calendar.rfc3339 (env.zone inv.expiresAt) inv.expiresAt)),
    ("createdAt", .str (Calendar.rfc3339 (env.zone inv.createdAt) inv.createdAt))]

/-- `&model.Invitation{...}`; `invitation.go:114`. -/
def newInvitation (orgID userID : Uuid) (req : CreateInvitationRequest) (token : String)
    (now : Time) : Invitation :=
  { id := .nil
    orgID := orgID
    email := req.email
    role := req.roleOrDefault
    token := token
    status := .pending
    invitedBy := some userID
    expiresAt := now + 7 * 24 * 3600 * 1000000
    acceptedAt := none
    createdAt := 0
    updatedAt := 0 }

/-- Whether the invitee is a member already; `invitation.go:84`. A failed lookup counts as no. -/
def alreadyMember (email : String) (orgID : Uuid) : Handler Bool := do
  match ← attempt (.userFindByEmail email) with
  | .error _ => return false
  | .ok (existingUser : User) =>
    match ← attempt (.membershipFindByUserAndOrgID existingUser.id orgID) with
    | .error _ => return false
    | .ok _ => return true

/-- Make room for a new invitation of the same organization and email; `invitation.go:92`. -/
def removeOldInvitation (orgID : Uuid) (email : String) : Handler Unit := do
  match ← attempt (.invitationFindByOrgAndEmail orgID email) with
  | .ok (existingInv : Invitation) =>
    match existingInv.status with
    | .pending => fail (.conflict "invitation already pending for this email")
    | .accepted => fail (.conflict "user is already a member")
    | .expired | .cancelled =>
      let _ ← query (.invitationDelete existingInv.id)
        fun _ ↦ .app (.internal "failed to remove old invitation")
      return ()
  | .error e =>
    if e = .notFound then return ()
    else fail (.internal "failed to check existing invitation")

/-- `InvitationHandler.CreateInvitation`; `invitation.go:62`. The two lookups after the insertion
serve the email only. -/
def createInvitation (env : Env) (userID orgID : Uuid) (r : Request) : Handler Response := do
  let req ← check
    (decodeAndValidate CreateInvitationRequest.fields (CreateInvitationRequest.errors env) r.body)
  if ← alreadyMember req.email orgID then
    fail (.conflict "user is already a member of this organization")
  removeOldInvitation orgID req.email
  let bytes ← random (.internal "failed to generate invitation token")
  let now ← clock
  let invitation : Invitation ← query
    (.invitationCreate (newInvitation orgID userID req (Helper.randomText "" bytes) now))
    fun _ ↦ .app (.internal "failed to create invitation")
  let _ ← attempt (.userFindByID userID)
  let _ ← attempt (.membershipFindAllByUserID userID)
  return writeJSON 201 (invitationJSON env invitation)

/-- `InvitationHandler.ListInvitations`; `invitation.go:160`. -/
def listInvitations (env : Env) (orgID : Uuid) : Handler Response := do
  let invitations : List Invitation ← query (.invitationFindByOrgID orgID)
    fun _ ↦ .app (.internal "failed to fetch invitations")
  return writeJSON 200 (.arr (invitations.map (invitationJSON env)))

/-- `InvitationHandler.CancelInvitation`; `invitation.go:187`. -/
def cancelInvitation (orgID : Uuid) (idParam : String) : Handler Response := do
  let some invitationID := Uuid.parse idParam | fail (.badRequest "invalid invitation ID")
  let invitations : List Invitation ← query (.invitationFindByOrgID orgID)
    fun _ ↦ .app (.internal "failed to fetch invitations")
  if !(invitations.any fun inv ↦ inv.id = invitationID) then
    fail (.notFound "invitation not found")
  let _ ← query (.invitationUpdateStatus invitationID "cancelled")
    fun _ ↦ .app (.internal "failed to cancel invitation")
  return message 200 "invitation cancelled"

/-- Refuse an invitation that is past its time, and record that; `invitation.go:244`,
`invitation.go:365`. The result of the update is not looked at. -/
def checkExpiry (invitation : Invitation) : Handler Unit := do
  let now ← clock
  if invitation.expiresAt < now then
    let _ ← attempt (.invitationUpdateStatus invitation.id "expired")
    fail (.badRequest "invitation has expired")

/-- The organization joined, among those of the user; a failed lookup gives none. -/
def joinedOrg (orgID : Uuid) : Except Err (List MembershipWithOrg) → Option MembershipWithOrg
  | .ok memberships => memberships.find? fun m ↦ m.orgID = orgID
  | .error _ => none

/-- Insert the membership an invitation offers, mark the invitation as accepted and report the
organization joined; `invitation.go:259`, `invitation.go:378`. -/
def join (userID : Uuid) (invitation : Invitation) : Handler Response := do
  match ← attempt (.membershipFindByUserAndOrgID userID invitation.orgID) with
  | .ok _ =>
    let _ ← attempt (.invitationUpdateStatus invitation.id "accepted")
    fail (.conflict "you are already a member of this organization")
  | .error _ =>
    let _ ← query (.membershipCreate (newMembership userID invitation.orgID invitation.role))
      fun _ ↦ .app (.internal "failed to create membership")
    let now ← clock
    let _ ← query (.invitationAccept invitation.id now)
      fun _ ↦ .app (.internal "failed to update invitation status")
    let found ← attempt (.membershipFindAllByUserID userID)
    let org := joinedOrg invitation.orgID found
    return writeJSON 200 (.obj [("message", .str "invitation accepted"),
      ("orgId", .str invitation.orgID.toString),
      ("orgName", .str ((org.map MembershipWithOrg.orgName).getD "")),
      ("orgSlug", .str ((org.map MembershipWithOrg.orgSlug).getD "")),
      ("role", .str invitation.role.label)])

/-- `AcceptInvitationRequest`; `invitation.go:54`. -/
structure AcceptInvitationRequest where
  token : String
deriving DecidableEq

def AcceptInvitationRequest.fields (ms : List (String × Json Decimal)) :
    Option AcceptInvitationRequest := do
  return { token := ← stringField "token" ms }

/-- `InvitationHandler.AcceptInvitation`; `invitation.go:224`. -/
def acceptInvitation (env : Env) (userID : Uuid) (r : Request) : Handler Response := do
  let req ← check (decodeAndValidate AcceptInvitationRequest.fields
    (fun req ↦ fieldErrors env "token" [.required] req.token) r.body)
  let invitation : Invitation ← query (.invitationFindByToken req.token)
    fun _ ↦ .app (.notFound "invitation not found")
  if invitation.status ≠ .pending then fail (.badRequest "invitation is no longer valid")
  checkExpiry invitation
  let user : User ← query (.userFindByID userID)
    fun _ ↦ .app (.internal "failed to look up user")
  if user.email ≠ invitation.email then
    fail (.forbidden "this invitation was sent to a different email address")
  join userID invitation

/-- `InvitationHandler.GetPendingInvitations`; `invitation.go:303`. -/
def getPendingInvitations (env : Env) (userID : Uuid) : Handler Response := do
  let user : User ← query (.userFindByID userID)
    fun _ ↦ .app (.internal "failed to look up user")
  let pending : List PendingInvitation ← query (.invitationFindPendingByEmail user.email)
    fun _ ↦ .app (.internal "failed to fetch pending invitations")
  return writeJSON 200 (.arr (pending.map fun p ↦
    .obj [("id", .str p.id.toString), ("orgName", .str p.orgName), ("orgSlug", .str p.orgSlug),
      ("role", .str p.role.label),
      ("expiresAt", .str (Calendar.rfc3339Nano (env.zone p.expiresAt) p.expiresAt))]))

/-- `RespondToInvitationRequest`; `invitation.go:58`. -/
structure RespondToInvitationRequest where
  action : String
deriving DecidableEq

def RespondToInvitationRequest.fields (ms : List (String × Json Decimal)) :
    Option RespondToInvitationRequest := do
  return { action := ← stringField "action" ms }

/-- `InvitationHandler.RespondToInvitation`; `invitation.go:327`. The status written for `decline`
is none of the type `invitation_status`. -/
def respondToInvitation (env : Env) (userID : Uuid) (idParam : String) (r : Request) :
    Handler Response := do
  let some invitationID := Uuid.parse idParam | fail (.badRequest "invalid invitation ID")
  let req ← check (decodeAndValidate RespondToInvitationRequest.fields
    (fun req ↦ fieldErrors env "action" [.required, .oneof ["accept", "decline"]] req.action)
    r.body)
  let user : User ← query (.userFindByID userID)
    fun _ ↦ .app (.internal "failed to look up user")
  let invitation : Invitation ← query (.invitationFindByID invitationID) fun e ↦
    if e = .notFound then .app (.notFound "invitation not found")
    else .app (.internal "failed to look up invitation")
  if user.email ≠ invitation.email then
    fail (.forbidden "this invitation was sent to a different email address")
  if invitation.status ≠ .pending then fail (.badRequest "invitation is no longer valid")
  checkExpiry invitation
  if req.action = "decline" then
    let _ ← query (.invitationUpdateStatus invitation.id "declined")
      fun _ ↦ .app (.internal "failed to decline invitation")
    return message 200 "invitation declined"
  join userID invitation

end Chis.Api
