import Chis.Api.Request
import Chis.Helper.Signature

/-!
# Middlewares

`internal/middleware`. Each lets a request through to `next`, with what it has found out about it,
or answers the request itself. `next` takes as arguments what the source puts in the context of the
request.
-/

namespace Chis.Api

/-- The token of an `Authorization` header, by `strings.SplitN(authHeader, " ", 2)`. -/
def bearerToken (authHeader : String) : Option String :=
  match authHeader.toList.dropWhile (· ≠ ' ') with
  | [] => none
  | _ :: token =>
    if authHeader.toList.takeWhile (· ≠ ' ') = "Bearer".toList then some (String.ofList token)
    else none

/-- `auth.ValidateToken` at a time; `jwt.go:27`. -/
def tokenUser (env : Env) (now : Time) (token : String) : Option Uuid :=
  (env.jwtSubject now token).bind Uuid.parse

/-- `ValidateToken`; `auth.go:16`. -/
def validateToken (env : Env) (req : Request) (next : Uuid → Service Response) :
    Service Response := do
  match bearerToken req.authorization with
  | none => return message 401 "invalid token"
  | some token =>
    let now ← timeNow
    match tokenUser env now token with
    | none => return message 401 "invalid token"
    | some userID => next userID

/-- `ValidateOrgAccess`; `org.go:12`. -/
def validateOrgAccess (req : Request) (userID : Uuid) (next : Uuid → Service Response) :
    Service Response := do
  if req.orgHeader = "" then return message 400 "missing X-Org-ID header"
  match Uuid.parse req.orgHeader with
  | none => return message 400 "invalid X-Org-ID header"
  | some orgID =>
    match ← Service.sql (.membershipFindByUserAndOrgID userID orgID) with
    | .error _ => return message 403 "you are not a member of this organization"
    | .ok _ => next orgID

/-- `RequireAdmin`; `admin.go:11`. -/
def requireAdmin (userID orgID : Uuid) (next : Service Response) : Service Response := do
  match ← Service.sql (.membershipFindByUserAndOrgID userID orgID) with
  | .error _ => return message 403 "access denied"
  | .ok (membership : Membership) =>
    if membership.role = .admin then next else return message 403 "admin access required"

/-- `helper.HashSHA256`; `helper.go:44`. -/
def hashSHA256 (env : Env) (value : String) : String := Helper.hexEncode (env.sha256 value)

/-- `ValidateApiKey`; `apikey.go:15`. -/
def validateApiKey (env : Env) (req : Request) (next : Uuid → Service Response) :
    Service Response := do
  if req.apiKeyHeader = "" then return message 401 "invalid ApiKey"
  match ← Service.sql (.apiKeyFindByHashedKey (hashSHA256 env req.apiKeyHeader)) with
  | .error _ => return message 401 "invalid ApiKey"
  | .ok (apiKey : APIKey) =>
    match apiKey.expiresAt with
    | none => next apiKey.orgID
    | some expiresAt =>
      let now ← timeNow
      if expiresAt < now then return message 401 "expired ApiKey"
      next apiKey.orgID

end Chis.Api
