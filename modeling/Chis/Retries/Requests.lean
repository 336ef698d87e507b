import Chis.Access.Permissions
import Chis.Tenants.Deletion

/-!
# Requests leave the attempt counts alone

The attempt count of a message is written where it is created and by `Update`, which only workers and
the schedulers run: no request of the API and no call of `QueueMessage` does.
-/

namespace Chis.Retries

open Program Api

/-- The operation overwrites no message. -/
def Spares (_ : List (Event Op.Res)) (o : Op) : Prop := ∀ msg, o ≠ .sql (.messageUpdate msg)

section Handlers

variable {env : Env} {route : Route} {r : Request} {past : List (Event Op.Res)} {u orgID : Uuid}

attribute [local simp] Spares

/-- No operation of the handler does. -/
abbrev Harmless {α : Type} (h : Handler α) (past : List (Event Op.Res)) : Prop :=
  Tells Spares (fun _ _ ↦ True) h past

private theorem wrap_harmless {h : Handler Response} (hh : Harmless h past) :
    (wrap r h).Traces Spares (fun _ _ ↦ True) past :=
  traces_wrap (fun _ ↦ by simp) (fun _ _ _ ↦ trivial) hh

private theorem join_harmless {inv : Invitation} : Harmless (join u inv) past := by
  simp [join, Harmless]

private theorem checkExpiry_harmless {inv : Invitation} : Harmless (checkExpiry inv) past := by
  simp [checkExpiry, Harmless]

private theorem acceptInvitation_harmless : Harmless (acceptInvitation env u r) past := by
  unfold acceptInvitation Harmless
  simp only [tells_check_bind, tells_query_bind, tells_ite]
  refine fun req _ ↦ ⟨by simp, fun (inv : Invitation) ↦ ⟨fun _ ↦ tells_fail_bind _ _, fun _ ↦ ?_⟩⟩
  refine tells_bind (Tells.mono (fun past' _ _ ↦ ?_) checkExpiry_harmless)
  simp only [tells_query_bind, tells_ite]
  exact ⟨by simp, fun (user : User) ↦ ⟨fun _ ↦ tells_fail_bind _ _, fun _ ↦ join_harmless⟩⟩

private theorem respondToInvitation_harmless {idParam : String} :
    Harmless (respondToInvitation env u idParam r) past := by
  unfold respondToInvitation Harmless
  split
  · simp only [tells_check_bind, tells_query_bind, tells_ite]
    refine fun req _ ↦ ⟨by simp, fun (user : User) ↦ ⟨by simp, fun (inv : Invitation) ↦
      ⟨fun _ ↦ tells_fail_bind _ _, fun _ ↦ ⟨fun _ ↦ tells_fail_bind _ _, fun _ ↦ ?_⟩⟩⟩⟩
    refine tells_bind (Tells.mono (fun past' _ _ ↦ ?_) checkExpiry_harmless)
    rw [tells_ite]
    exact ⟨fun _ ↦ by simp, fun _ ↦ join_harmless⟩
  · simp

private theorem cancelInvitation_harmless {idParam : String} :
    Harmless (cancelInvitation orgID idParam) past := by
  unfold cancelInvitation Harmless
  split <;> simp

private theorem createInvitation_harmless : Harmless (createInvitation env u orgID r) past := by
  unfold createInvitation
  rw [Harmless, tells_check_bind]
  intro req _
  have hmember : Harmless (alreadyMember req.email orgID) past := by
    simp [alreadyMember, Harmless]
  have hold {past : List (Event Op.Res)} : Harmless (removeOldInvitation orgID req.email) past := by
    unfold removeOldInvitation Harmless
    rw [tells_attempt_bind]
    refine ⟨by simp, fun (inv : Invitation) ↦ ?_, fun e ↦ by simp⟩
    cases hs : inv.status <;> simp [hs]
  refine tells_bind (Tells.mono (fun past₁ member _ ↦ ?_) hmember)
  rw [tells_ite]
  refine ⟨fun _ ↦ tells_fail_bind _ _, fun _ ↦ ?_⟩
  refine tells_bind (Tells.mono (fun past₂ _ _ ↦ ?_) hold)
  simp

private theorem register_harmless : Harmless (register env r) past := by
  unfold register Harmless
  simp only [tells_check_bind, tells_random_bind]
  refine fun req _ ↦ ⟨by simp, fun salt ↦ ?_⟩
  split <;> simp

private theorem createOrg_harmless : Harmless (createOrg env u r) past := by
  unfold createOrg Harmless
  simp

private theorem login_harmless : Harmless (login env r) past := by
  unfold login Harmless
  simp only [tells_check_bind, tells_query_bind]
  refine fun req _ ↦ ⟨by simp, fun (user : User) ↦ ⟨by simp, fun (account : Account) ↦ ?_⟩⟩
  cases account.passwordHash with
  | none => exact ⟨by simp, fun e ↦ (e : Empty).elim⟩
  | some hash =>
    rw [tells_ite]
    refine ⟨fun _ ↦ tells_fail_bind _ _, fun _ ↦ ?_⟩
    rw [tells_clock_bind]
    refine ⟨by simp, fun t ↦ ?_⟩
    split <;> simp

-- an evaluation of the program would go down to the digits of an id
attribute [local irreducible] Uuid.parse Uuid.toString in
private theorem queueMessage_spares {req : Delivery.QueueMessageRequest} :
    (Delivery.queueMessage req).Traces Spares (fun _ _ ↦ True) past := by
  unfold Delivery.queueMessage
  split <;> simp

attribute [local irreducible] Uuid.parse Uuid.toString in
private theorem send_harmless {orgId : Uuid} : Harmless (send env orgId r) past := by
  unfold send
  rw [Harmless, tells_check_bind]
  intro req _
  simp only []
  split
  · simp
  · refine tells_lift_bind ?_
    unfold Delivery.queueMessage
    rw [Uuid.parse_toString]
    simp [Uuid.parse_toString]

private theorem admin_harmless {route : AdminRoute} :
    Harmless (route.handler env u orgID r) past := by
  cases route with
  | createInvitation => exact createInvitation_harmless
  | listInvitations => simp [AdminRoute.handler, listInvitations, Harmless]
  | cancelInvitation id => exact cancelInvitation_harmless
  | deleteOrg => simp [AdminRoute.handler, deleteOrg, Harmless]
  | getSigningSecret => simp [AdminRoute.handler, Api.getSigningSecret, Harmless]
  | rotateSigningSecret => simp [AdminRoute.handler, Api.rotateSigningSecret, Harmless]

private theorem org_harmless {route : OrgRoute} :
    (route.handle env u orgID r).Traces Spares (fun _ _ ↦ True) past := by
  cases route with
  | createApiKey => exact wrap_harmless (by simp [createApiKey, Harmless])
  | listApiKeys => exact wrap_harmless (by simp [listApiKeys, Harmless])
  | deleteApiKey id =>
    refine wrap_harmless ?_
    unfold Api.deleteApiKey Harmless
    split <;> simp
  | stats => exact wrap_harmless (by simp [stats, Harmless])
  | webhookLogs =>
    refine wrap_harmless (tells_lift_bind ?_)
    simp [findWebhookLogs]
  | webhookLogDetail id =>
    refine wrap_harmless ?_
    unfold webhookLogDetail Harmless
    split <;> simp
  | admin route =>
    exact traces_requireAdmin (by simp) (fun _ _ _ ↦ trivial) fun m _ ↦ wrap_harmless admin_harmless

private theorem handle_spares : (handle env r route).Traces Spares (fun _ _ ↦ True) past := by
  have htoken {next : Uuid → Service Response}
      (hnext : ∀ t u, (next u).Traces Spares (fun _ _ ↦ True) (Op.sawTime t :: past)) :
      (validateToken env r next).Traces Spares (fun _ _ ↦ True) past :=
    traces_validateToken (by simp) (fun _ ↦ trivial) fun _ t u _ _ ↦ hnext t u
  unfold handle
  cases route with
  | register => exact wrap_harmless register_harmless
  | login => exact wrap_harmless login_harmless
  | send =>
    exact traces_validateApiKey (fun _ ↦ by simp) (fun _ ↦ by simp) (fun _ _ _ ↦ trivial) fun _ _ ↦
      wrap_harmless send_harmless
  | listOrgs => exact htoken fun t u ↦ wrap_harmless (by simp [listOrgs, Harmless])
  | createOrg => exact htoken fun t u ↦ wrap_harmless createOrg_harmless
  | acceptInvitation => exact htoken fun t u ↦ wrap_harmless acceptInvitation_harmless
  | getPendingInvitations =>
    exact htoken fun t u ↦ wrap_harmless (by simp [getPendingInvitations, Harmless])
  | respondToInvitation id => exact htoken fun t u ↦ wrap_harmless respondToInvitation_harmless
  | org route =>
    exact htoken fun t u ↦ traces_validateOrgAccess (fun _ ↦ by simp) (fun _ _ _ ↦ trivial)
      fun orgID m _ ↦ org_harmless

/-- Whatever is called, no message is overwritten. -/
theorem call_spares (call : Tenants.Call) :
    (call.program env).Traces Spares (fun _ _ ↦ True) past := by
  cases call with
  | request route r =>
    show (serve env route r).Traces _ _ _
    unfold serve
    rw [Prog.monad_bind, Prog.traces_bind]
    exact Prog.Traces.mono (fun _ _ h ↦ h) (fun _ _ _ ↦ ⟨by simp, fun _ ↦ trivial⟩) handle_spares
  | queueMessage req =>
    show (Prog.bind _ _).Traces _ _ _
    rw [Prog.traces_bind]
    exact Prog.Traces.mono (fun _ _ h ↦ h) (fun _ _ _ ↦ trivial) queueMessage_spares

end Handlers

end Chis.Retries
