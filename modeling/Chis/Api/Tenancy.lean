import Chis.Api.Decode
import Chis.Helper.Signature
import Chis.Helper.Slug

/-!
# Accounts, organizations and API keys

`internal/handler/auth.go`, `organization.go` and `apikey.go`. Each handler is a sequence of
statements without a transaction.
-/

namespace Chis.Api

/-! ### Registration and login -/

/-- `RegisterRequest`; `auth.go:24`. -/
structure RegisterRequest where
  email : String
  password : String
  firstName : String
  lastName : String
deriving DecidableEq

def RegisterRequest.fields (ms : List (String × Json Decimal)) : Option RegisterRequest := do
  return {
    email := ← stringField "email" ms
    password := ← stringField "password" ms
    firstName := ← stringField "firstName" ms
    lastName := ← stringField "lastName" ms }

def RegisterRequest.errors (env : Env) (req : RegisterRequest) : List FieldError :=
  fieldErrors env "email" [.required, .email] req.email ++
    fieldErrors env "password" [.required, .min 8] req.password ++
    fieldErrors env "firstname" [.required] req.firstName

/-- `LoginRequest`; `auth.go:37`. -/
structure LoginRequest where
  email : String
  password : String
deriving DecidableEq

def LoginRequest.fields (ms : List (String × Json Decimal)) : Option LoginRequest := do
  return { email := ← stringField "email" ms, password := ← stringField "password" ms }

def LoginRequest.errors (env : Env) (req : LoginRequest) : List FieldError :=
  fieldErrors env "email" [.required, .email] req.email ++
    fieldErrors env "password" [.required, .min 8] req.password

/-- `&model.User{...}`; `auth.go:115`. -/
def newUser (req : RegisterRequest) : User :=
  ⟨.nil, req.email, req.firstName, some req.lastName, false, 0, 0⟩

/-- `&model.Account{...}`; `auth.go:125`. -/
def newAccount (user : User) (hashedPassword : String) : Account :=
  ⟨.nil, user.id, "email", user.email, some hashedPassword, 0, 0⟩

/-- `&model.Organization{...}`; `auth.go:144`, `organization.go:115`. -/
def newOrganization (env : Env) (name signingSecret : String) : Organization :=
  ⟨.nil, name, Helper.slugify env.toLower name, signingSecret, 0, 0⟩

/-- `&model.Membership{...}`; `auth.go:154`, `organization.go:125`, `invitation.go:267`. -/
def newMembership (userID orgID : Uuid) (role : Role) : Membership :=
  ⟨.nil, userID, orgID, role, 0, 0⟩

/-- `AuthHandler.Register`; `auth.go:102`. -/
def register (env : Env) (r : Request) : Handler Response := do
  let req ← check (decodeAndValidate RegisterRequest.fields (RegisterRequest.errors env) r.body)
  let salt ← random (.internal "failed to hash password")
  let some hashedPassword := env.bcryptHash salt req.password
    | fail (.internal "failed to hash password")
  let user : User ← query (.userCreate (newUser req)) .repo
  let _ ← query (.accountCreate (newAccount user hashedPassword)) .repo
  let orgName := user.firstName ++ "'s Workspace"
  let bytes ← random (.internal "failed to generate signing secret")
  let org : Organization ←
    query (.organizationCreate (newOrganization env orgName (Helper.randomText "whsec_" bytes)))
      .repo
  let _ ← query (.membershipCreate (newMembership user.id org.id .admin)) .repo
  return writeJSON 201 (.obj [("id", .str user.id.toString), ("email", .str user.email),
    ("firstName", .str user.firstName)])

/-- `AuthHandler.Login`; `auth.go:62`. An account without a password hash makes it panic. -/
def login (env : Env) (r : Request) : Handler Response := do
  let req ← check (decodeAndValidate LoginRequest.fields (LoginRequest.errors env) r.body)
  let invalid : Err → Fault := fun _ ↦ .app (.unauthorized "Email or password invalid.")
  let user : User ← query (.userFindByEmail req.email) invalid
  let account : Account ← query (.accountFindByUserID user.id) invalid
  match account.passwordHash with
  | none => nilDereference
  | some hash =>
    if !env.bcryptMatches hash req.password then
      fail (.unauthorized "Email or password invalid.")
    let now ← clock
    match env.jwtSign user.id.toString (now / 1000000 + 48 * 3600) with
    | none => fail (.badRequest "something error occurred please try again.")
    | some token => return writeJSON 202 (.obj [("token", .str token)])

/-! ### Organizations -/

/-- `CreateOrgRequest` and `DeleteOrgRequest`, which differ in their rules; `organization.go:29`,
`organization.go:65`. -/
structure NameRequest where
  name : String
deriving DecidableEq

def NameRequest.fields (ms : List (String × Json Decimal)) : Option NameRequest := do
  return { name := ← stringField "name" ms }

/-- `OrganizationHandler.ListOrgs`; `organization.go:40`. -/
def listOrgs (userID : Uuid) : Handler Response := do
  let memberships : List MembershipWithOrg ←
    query (.membershipFindAllByUserID userID) fun _ ↦ .app (.internal "failed to fetch organizations")
  return writeJSON 200 (.arr (memberships.map fun m ↦
    .obj [("id", .str m.orgID.toString), ("name", .str m.orgName), ("slug", .str m.orgSlug),
      ("role", .str m.role.label)]))

/-- `OrganizationHandler.CreateOrg`; `organization.go:97`. -/
def createOrg (env : Env) (userID : Uuid) (r : Request) : Handler Response := do
  let req ← check (decodeAndValidate NameRequest.fields
    (fun req ↦ fieldErrors env "name" [.required, .min 2] req.name) r.body)
  let bytes ← random (.internal "failed to generate signing secret")
  let org : Organization ←
    query (.organizationCreate (newOrganization env req.name (Helper.randomText "whsec_" bytes)))
      fun _ ↦ .app (.internal "failed to create organization")
  let _ ← query (.membershipCreate (newMembership userID org.id .admin))
    fun _ ↦ .app (.internal "failed to create membership")
  return writeJSON 201 (.obj [("id", .str org.id.toString), ("name", .str org.name),
    ("slug", .str org.slug), ("role", .str Role.admin.label)])

/-- `OrganizationHandler.DeleteOrg`; `organization.go:69`. -/
def deleteOrg (env : Env) (orgID : Uuid) (r : Request) : Handler Response := do
  let req ← check (decodeAndValidate NameRequest.fields
    (fun req ↦ fieldErrors env "name" [.required] req.name) r.body)
  let org : Organization ← query (.organizationFindByID orgID)
    fun _ ↦ .app (.notFound "organization not found")
  if req.name ≠ org.name then fail (.badRequest "organization name does not match")
  let _ ← query (.organizationDelete orgID)
    fun _ ↦ .app (.internal "failed to delete organization")
  return message 200 "organization deleted"

/-- `OrganizationHandler.GetSigningSecret`; `organization.go:146`. -/
def getSigningSecret (orgID : Uuid) : Handler Response := do
  let secret : String ← query (.getSigningSecret orgID)
    fun _ ↦ .app (.internal "failed to fetch signing secret")
  return writeJSON 200 (.obj [("signingSecret", .str secret)])

/-- `OrganizationHandler.RotateSigningSecret`; `organization.go:161`. -/
def rotateSigningSecret (orgID : Uuid) : Handler Response := do
  let bytes ← random (.internal "failed to generate signing secret")
  let newSecret := Helper.randomText "whsec_" bytes
  let _ ← query (.rotateSigningSecret orgID newSecret)
    fun _ ↦ .app (.internal "failed to rotate signing secret")
  return writeJSON 200 (.obj [("signingSecret", .str newSecret)])

/-! ### API keys -/

/-- `CreateApiKeyRequest`; `apikey.go:29`. -/
structure CreateApiKeyRequest where
  name : String
  expiresAt : Option Time
deriving DecidableEq

def CreateApiKeyRequest.fields (env : Env) (ms : List (String × Json Decimal)) :
    Option CreateApiKeyRequest := do
  return { name := ← stringField "name" ms, expiresAt := ← timeField env "expiresAt" ms }

/-- `ApiKeyHandler.Create`; `apikey.go:50`. -/
def createApiKey (env : Env) (orgID : Uuid) (r : Request) : Handler Response := do
  let req ← check (decodeAndValidate (CreateApiKeyRequest.fields env)
    (fun req ↦ fieldErrors env "name" [.required, .min 3] req.name) r.body)
  let bytes ← random (.internal "couldn't generate api key")
  let fullApiKey := Helper.randomText "chis_sk_" bytes
  let hashKey := Helper.hexEncode (env.sha256 fullApiKey)
  let displayPrefix := (fullApiKey.take 12).toString
  let apiKey : APIKey ← query (.apiKeyCreate
    ⟨.nil, orgID, req.name, displayPrefix, hashKey, req.expiresAt, none, 0, 0⟩) .repo
  return writeJSON 201 (.obj [("id", .str apiKey.id.toString), ("name", .str apiKey.name),
    ("prefix", .str apiKey.pre), ("key", .str fullApiKey),
    ("createdAt", .str (Calendar.rfc3339 (env.zone apiKey.createdAt) apiKey.createdAt))])

/-- `ApiKeyHandler.List`; `apikey.go:101`. -/
def listApiKeys (env : Env) (orgID : Uuid) : Handler Response := do
  let keys : List APIKey ← query (.apiKeyFindByOrgID orgID)
    fun _ ↦ .app (.internal "failed to fetch api keys")
  let text (t : Time) : Json Decimal := .str (Calendar.rfc3339 (env.zone t) t)
  return writeJSON 200 (.arr (keys.map fun k ↦
    .obj [("id", .str k.id.toString), ("name", .str k.name), ("prefix", .str k.pre),
      ("createdAt", text k.createdAt), ("lastUsedAt", nullable text k.lastUsedAt)]))

/-- `ApiKeyHandler.Delete`; `apikey.go:131`. The organization of the request is not looked at. -/
def deleteApiKey (idParam : String) : Handler Response := do
  let some keyID := Uuid.parse idParam | fail (.badRequest "invalid api key id")
  let _ ← query (.apiKeyDelete keyID) fun e ↦
    if e = .notFound then .app (.notFound "api key not found")
    else .app (.internal "failed to delete api key")
  return ⟨204, none⟩

end Chis.Api
