import Chis.Api.Dashboard
import Chis.Api.Invitations
import Chis.Api.Middleware
import Chis.Api.Webhook

/-!
# Routes

`internal/router/routes.go`: which handler serves a request, behind which middlewares. The groups of
routes follow the groups that share a middleware.
-/

namespace Chis.Api

open Program

/-- The routes under `RequireAdmin`; `routes.go:61`. -/
inductive AdminRoute
  | createInvitation
  | listInvitations
  | cancelInvitation (id : String)
  | deleteOrg
  | getSigningSecret
  | rotateSigningSecret
deriving DecidableEq

/-- The routes under `ValidateOrgAccess`; `routes.go:44`. -/
inductive OrgRoute
  | createApiKey
  | listApiKeys
  | deleteApiKey (id : String)
  | stats
  | webhookLogs
  | webhookLogDetail (id : String)
  | admin (route : AdminRoute)
deriving DecidableEq

/-- All routes; a path parameter is an argument. -/
inductive Route
  | register
  | login
  | send
  | listOrgs
  | createOrg
  | acceptInvitation
  | getPendingInvitations
  | respondToInvitation (id : String)
  | org (route : OrgRoute)
deriving DecidableEq

/-- The handlers under `RequireAdmin`. -/
def AdminRoute.handler (env : Env) (userID orgID : Uuid) (r : Request) :
    AdminRoute → Handler Response
  | .createInvitation => Api.createInvitation env userID orgID r
  | .listInvitations => Api.listInvitations env orgID
  | .cancelInvitation id => Api.cancelInvitation orgID id
  | .deleteOrg => Api.deleteOrg env orgID r
  | .getSigningSecret => Api.getSigningSecret orgID
  | .rotateSigningSecret => Api.rotateSigningSecret orgID

/-- What an organization's routes do once `ValidateOrgAccess` has let a request through. -/
def OrgRoute.handle (env : Env) (userID orgID : Uuid) (r : Request) : OrgRoute → Service Response
  | .createApiKey => wrap r (Api.createApiKey env orgID r)
  | .listApiKeys => wrap r (Api.listApiKeys env orgID)
  | .deleteApiKey id => wrap r (Api.deleteApiKey id)
  | .stats => wrap r (Api.stats orgID)
  | .webhookLogs => wrap r (Api.webhookLogs env orgID r)
  | .webhookLogDetail id => wrap r (Api.webhookLogDetail env orgID id)
  | .admin route => requireAdmin userID orgID (wrap r (route.handler env userID orgID r))

/-- The routes of an organization, for a user whose token is valid. -/
def orgScoped (env : Env) (userID : Uuid) (route : OrgRoute) (r : Request) : Service Response :=
  validateOrgAccess r userID fun orgID ↦ route.handle env userID orgID r

/-- `Setup`; `routes.go:9`. -/
def handle (env : Env) (r : Request) : Route → Service Response
  | .register => wrap r (Api.register env r)
  | .login => wrap r (Api.login env r)
  | .send => validateApiKey env r fun orgId ↦ wrap r (Api.send env orgId r)
  | .listOrgs => validateToken env r fun userID ↦ wrap r (Api.listOrgs userID)
  | .createOrg => validateToken env r fun userID ↦ wrap r (Api.createOrg env userID r)
  | .acceptInvitation => validateToken env r fun userID ↦ wrap r (Api.acceptInvitation env userID r)
  | .getPendingInvitations =>
    validateToken env r fun userID ↦ wrap r (Api.getPendingInvitations env userID)
  | .respondToInvitation id =>
    validateToken env r fun userID ↦ wrap r (Api.respondToInvitation env userID id r)
  | .org route => validateToken env r fun userID ↦ orgScoped env userID route r

/-- One request, from its arrival to its answer. -/
def serve (env : Env) (route : Route) (r : Request) : Service Unit := do
  let res ← handle env r route
  Prog.call (Op.respond res)

end Chis.Api
