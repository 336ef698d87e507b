import Chis.Api.System
import Chis.Pipeline.Turns
import Mathlib.Data.List.Induction

/-!
# What each request may do

Only the submission of a webhook creates a message and pushes its id: every other request leaves
messages, their attempts and the queue to the delivery services. Users, accounts and API keys are
created by one route each, and only a login hands out a token.
-/

namespace Chis.Api

open Program

/-- The operations that leave messages, attempts and the queue alone. -/
def light : Op → Bool
  | .sql (.messageCreate _) | .sql (.messageUpdateStatus _ _) | .sql (.messageUpdate _)
  | .sql (.attemptCreate _) | .push _ | .pop | .send _ _ | .answer _ => false
  | _ => true

theorem light_harmless {o : Op} (h : light o = true) : o.harmless = true := by
  cases o with
  | sql s => cases s <;> first | rfl | cases h
  | _ => first | rfl | cases h

theorem light_unworked {o : Op} (h : light o = true) : Pipeline.unworked o = true := by
  cases o with
  | sql s => cases s <;> first | rfl | cases h
  | _ => first | rfl | cases h

/-- The one route with an operation, for some. -/
def origin : Op → Option Route
  | .sql (.userCreate _) | .sql (.accountCreate _) => some .register
  | .sql (.apiKeyCreate _) => some (.org .createApiKey)
  | .sql (.messageCreate _) | .push _ => some .send
  | _ => none

/-- The response gives a token to the caller. -/
def HandsOut (res : Response) (token : String) : Prop :=
  ∃ members, res.body = some (.obj members) ∧ ("token", .str token) ∈ members

section Handlers

variable {env : Env} {route : Route} {r : Request} {past : List (Event Op.Res)} {u orgID : Uuid}

/-- No token, except for a login. -/
def Bland (route : Route) (_ : List (Event Op.Res)) (res : Response) : Prop :=
  ∀ token, HandsOut res token → route = .login

/-- What an operation of a route may do, whatever was before it. -/
def Spared (route : Route) (_ : List (Event Op.Res)) (o : Op) : Prop :=
  (light o = true ∨ origin o = some .send) ∧ (∀ only, origin o = some only → route = only) ∧
    ∀ res, o = .respond res → ∀ token, HandsOut res token → route = .login

attribute [local simp] Spared light origin Bland HandsOut writeJSON message invitationJSON

/-- No operation of the handler does more than that. -/
abbrev Light (route : Route) {α : Type} (h : Handler α) (past : List (Event Op.Res)) : Prop :=
  Tells (Spared route) (fun _ _ ↦ True) h past

/-- And neither does its answer. -/
abbrev Modest (route : Route) (h : Handler Response) (past : List (Event Op.Res)) : Prop :=
  Tells (Spared route) (Bland route) h past

private theorem wrap_modest {h : Handler Response} (hh : Modest route h past) :
    (wrap r h).Traces (Spared route) (Bland route) past := by
  apply traces_wrap (fun _ ↦ by simp) (fun fault now past ↦ ?_) hh
  intro token htoken
  simp [AppError.body] at htoken

private theorem join_modest {inv : Invitation} : Modest route (join u inv) past := by
  simp [join, Modest]

private theorem checkExpiry_light {inv : Invitation} : Light route (checkExpiry inv) past := by
  simp [checkExpiry, Light]

private theorem acceptInvitation_modest : Modest route (acceptInvitation env u r) past := by
  unfold acceptInvitation Modest
  simp only [tells_check_bind, tells_query_bind, tells_ite]
  refine fun req _ ↦ ⟨by simp, fun (inv : Invitation) ↦ ⟨fun _ ↦ tells_fail_bind _ _, fun _ ↦ ?_⟩⟩
  apply tells_bind
  apply Tells.mono (fun past' _ _ ↦ ?_) checkExpiry_light
  simp only [tells_query_bind, tells_ite]
  exact ⟨by simp, fun (user : User) ↦ ⟨fun _ ↦ tells_fail_bind _ _, fun _ ↦ join_modest⟩⟩

private theorem respondToInvitation_modest {idParam : String} :
    Modest route (respondToInvitation env u idParam r) past := by
  unfold respondToInvitation Modest
  split
  · simp only [tells_check_bind, tells_query_bind, tells_ite]
    refine fun req _ ↦ ⟨by simp, fun (user : User) ↦ ⟨by simp, fun (inv : Invitation) ↦
      ⟨fun _ ↦ tells_fail_bind _ _, fun _ ↦ ⟨fun _ ↦ tells_fail_bind _ _, fun _ ↦ ?_⟩⟩⟩⟩
    apply tells_bind
    apply Tells.mono (fun past' _ _ ↦ ?_) checkExpiry_light
    rw [tells_ite]
    exact ⟨fun _ ↦ by simp, fun _ ↦ join_modest⟩
  · simp

private theorem createInvitation_modest : Modest route (createInvitation env u orgID r) past := by
  unfold createInvitation
  rw [Modest, tells_check_bind]
  intro req _
  have hmember : Light route (alreadyMember req.email orgID) past := by
    simp [alreadyMember, Light]
  have hold {past : List (Event Op.Res)} : Light route (removeOldInvitation orgID req.email) past := by
    unfold removeOldInvitation Light
    rw [tells_attempt_bind]
    refine ⟨by simp, fun (inv : Invitation) ↦ ?_, fun e ↦ by simp⟩
    cases hs : inv.status <;> simp [hs]
  apply tells_bind
  apply Tells.mono (fun past₁ member _ ↦ ?_) hmember
  rw [tells_ite]
  refine ⟨fun _ ↦ tells_fail_bind _ _, fun _ ↦ ?_⟩
  apply tells_bind
  apply Tells.mono (fun past₂ _ _ ↦ ?_) hold
  simp

private theorem register_modest : Modest .register (register env r) past := by
  unfold register Modest
  simp only [tells_check_bind, tells_random_bind]
  refine fun req _ ↦ ⟨by simp, fun salt ↦ ?_⟩
  split <;> simp

private theorem login_modest : Modest .login (login env r) past := by
  unfold login Modest
  simp only [tells_check_bind, tells_query_bind]
  refine fun req _ ↦ ⟨by simp, fun (user : User) ↦ ⟨by simp, fun (account : Account) ↦ ?_⟩⟩
  cases account.passwordHash with
  | none => exact ⟨by simp, fun e ↦ (e : Empty).elim⟩
  | some hash =>
    rw [tells_ite]
    refine ⟨fun _ ↦ tells_fail_bind _ _, fun _ ↦ ?_⟩
    rw [tells_clock_bind]
    refine ⟨by simp, fun t ↦ ?_⟩
    split <;> simp

attribute [local irreducible] Uuid.parse Uuid.toString in
private theorem send_modest : Modest .send (send env orgID r) past := by
  unfold send Modest
  rw [tells_check_bind]
  intro req _
  simp only []
  split
  · simp
  · apply tells_lift_bind
    unfold Delivery.queueMessage
    rw [Uuid.parse_toString]
    simp [Uuid.parse_toString]

private theorem admin_modest {admin : AdminRoute} :
    Modest route (admin.handler env u orgID r) past := by
  cases admin with
  | createInvitation => exact createInvitation_modest
  | listInvitations => simp [AdminRoute.handler, listInvitations, Modest]
  | cancelInvitation id =>
    change Modest route (cancelInvitation orgID id) past
    unfold cancelInvitation Modest
    split <;> simp
  | deleteOrg => simp [AdminRoute.handler, deleteOrg, Modest]
  | getSigningSecret => simp [AdminRoute.handler, Api.getSigningSecret, Modest]
  | rotateSigningSecret => simp [AdminRoute.handler, Api.rotateSigningSecret, Modest]

private theorem message_bland (code : Nat) (text : String) : Bland route past (message code text) := by
  simp

private theorem detail_bland {msg : Message} {attempts : List DeliveryAttempt} :
    Bland route past ⟨200, detailJSON env msg attempts⟩ := by
  rintro token ⟨members, hbody, hmem⟩
  obtain ⟨payload, -, he⟩ := Option.map_eq_some_iff.mp hbody
  cases he
  simp at hmem

private theorem org_modest {inner : OrgRoute} :
    (inner.handle env u orgID r).Traces (Spared (.org inner)) (Bland (.org inner)) past := by
  cases inner with
  | createApiKey => exact wrap_modest (by simp [createApiKey, Modest])
  | listApiKeys => exact wrap_modest (by simp [listApiKeys, Modest])
  | deleteApiKey id =>
    apply wrap_modest
    unfold Api.deleteApiKey Modest
    split <;> simp
  | stats => exact wrap_modest (by simp [stats, Modest])
  | webhookLogs =>
    apply wrap_modest
    apply tells_lift_bind
    simp [findWebhookLogs]
  | webhookLogDetail id =>
    apply wrap_modest
    unfold webhookLogDetail Modest
    split
    · simp only [tells_query_bind, tells_ite, tells_pure]
      exact ⟨by simp, fun (msg : Message) ↦ ⟨fun _ ↦ tells_fail_bind _ _,
        fun _ ↦ ⟨by simp, fun _ ↦ detail_bland⟩⟩⟩
    · simp
  | admin admin =>
    exact traces_requireAdmin (by simp) (fun _ ↦ message_bland) fun m _ ↦ wrap_modest admin_modest

/-- Every request keeps to that. -/
theorem serve_spared : (serve env route r).Traces (Spared route) (fun _ _ ↦ True) past := by
  have htoken {next : Uuid → Service Response}
      (hnext : ∀ t u, (next u).Traces (Spared route) (Bland route) (Op.sawTime t :: past)) :
      (validateToken env r next).Traces (Spared route) (Bland route) past :=
    traces_validateToken (by simp) (fun _ ↦ message_bland _ _) fun _ t u _ _ ↦ hnext t u
  unfold serve
  rw [Prog.monad_bind, Prog.traces_bind]
  suffices h : (handle env r route).Traces (Spared route) (Bland route) past by
    apply Prog.Traces.mono (fun _ _ h ↦ h) _ h
    intro past res hres
    show Spared route past (.respond res) ∧ _
    refine ⟨⟨.inl rfl, by simp, ?_⟩, fun _ ↦ trivial⟩
    intro res' he token htoken
    cases he
    exact hres token htoken
  unfold handle
  cases route with
  | register => exact wrap_modest register_modest
  | login => exact wrap_modest login_modest
  | send =>
    exact traces_validateApiKey (fun _ ↦ by simp) (fun _ ↦ by simp) (fun _ ↦ message_bland)
      fun _ _ ↦ wrap_modest send_modest
  | listOrgs => exact htoken fun t u ↦ wrap_modest (by simp [listOrgs, Modest])
  | createOrg =>
    apply htoken
    intro t u
    apply wrap_modest
    unfold createOrg Modest
    simp
  | acceptInvitation => exact htoken fun t u ↦ wrap_modest acceptInvitation_modest
  | getPendingInvitations =>
    exact htoken fun t u ↦ wrap_modest (by simp [getPendingInvitations, Modest])
  | respondToInvitation id => exact htoken fun t u ↦ wrap_modest respondToInvitation_modest
  | org inner =>
    exact htoken fun t u ↦ traces_validateOrgAccess (fun _ ↦ by simp) (fun _ ↦ message_bland)
      fun orgID m _ ↦ org_modest

theorem serve_uses (env : Env) (r : Request) (hroute : route ≠ .send) :
    (serve env route r).Uses fun o ↦ light o = true :=
  (@serve_spared env route r []).uses.mono fun _ h ↦ h.1.resolve_right fun ho ↦ hroute (h.2.1 _ ho)

/-- Such a request is a client that the delivery services get along with. -/
def caller (env : Env) (route : Route) (r : Request) (hroute : route ≠ .send) : Pipeline.Caller where
  job := .other (serve env route r) ((serve_uses env r hroute).mono fun _ ↦ light_harmless)
  unworked := (serve_uses env r hroute).mono fun _ ↦ light_unworked

/-! ### Submission -/

/-- What the body of a submission gives: the last payload, which can be read, the URL, and a method
that has a number in `pb.HttpMethod_value`. -/
structure Submission (body : String) (payload : Json Decimal) (v : Json Double) (method url : String)
    (number : Int) : Prop where
  fields : ∃ ms text, decode body = some ms ∧ (given "payload" ms).getLast? = some payload ∧
    stringField "url" ms = some url ∧ stringField "method" ms = some text ∧
      method = if text = "" then "POST" else text
  payload : decodeAny payload = some v
  number : httpMethodValue method = some number

/-- A message is created of what was submitted, and by nothing else. -/
def Submits (route : Route) (r : Request) (_ : List (Event Op.Res)) : Op → Prop
  | .sql (.messageCreate message) => route = .send ∧ ∃ payload v method url number orgID,
    Submission r.body payload v method url number ∧
      message = Delivery.messageOf ⟨url, number, marshal v, Uuid.toString orgID⟩ orgID
  | _ => True

/-- Of several values for a field the last one counts. -/
private theorem foldlM_last {α β : Type} {f : α → Option β} {b v : β} {xs : List α}
    (h : xs.foldlM (fun _ x ↦ f x) b = some v) :
    (xs = [] ∧ v = b) ∨ ∃ x, xs.getLast? = some x ∧ f x = some v := by
  induction xs using List.reverseRecOn with
  | nil => exact .inl ⟨rfl, (Option.some.inj h).symm⟩
  | append_singleton xs x _ =>
    rw [List.foldlM_append] at h
    obtain ⟨b', -, hx⟩ := Option.bind_eq_some_iff.mp h
    rw [List.foldlM_cons] at hx
    obtain ⟨v', hv, hv'⟩ := Option.bind_eq_some_iff.mp hx
    cases hv'
    exact .inr ⟨x, List.getLast?_concat, hv⟩

/-- An accepted submission has a payload. -/
theorem submission {req : SendWebhookRequest} {number : Int}
    (h : decodeAndValidate SendWebhookRequest.fields (SendWebhookRequest.errors env) r.body = .ok req)
    (hm : httpMethodValue (if req.method = "" then "POST" else req.method) = some number) :
    ∃ payload method, Submission r.body payload req.payload method req.url number := by
  obtain ⟨hfields, herrors⟩ := decodeAndValidate_ok.mp h
  obtain ⟨ms, hms, hfields⟩ := Option.bind_eq_some_iff.mp hfields
  obtain ⟨url, hurl, hfields⟩ := Option.bind_eq_some_iff.mp hfields
  obtain ⟨text, htext, hfields⟩ := Option.bind_eq_some_iff.mp hfields
  obtain ⟨v, hv, hreq⟩ := Option.bind_eq_some_iff.mp hfields
  cases hreq
  rcases foldlM_last hv with ⟨-, rfl⟩ | ⟨payload, hlast, hpayload⟩
  · have hnil := (List.append_eq_nil_iff.mp herrors).2
    cases hnil
  · exact ⟨payload, _, ⟨ms, text, hms, hlast, hurl, htext, rfl⟩, hpayload, hm⟩

attribute [local irreducible] Uuid.parse Uuid.toString in
private theorem send_submits {orgId : Uuid} :
    Tells (Submits .send r) (fun _ _ ↦ True) (send env orgId r) past := by
  unfold send
  rw [tells_check_bind]
  intro req hreq
  simp only []
  split
  · simp
  · next number hm =>
    obtain ⟨payload, method, hs⟩ := submission hreq hm
    apply tells_lift_bind
    unfold Delivery.queueMessage
    rw [Uuid.parse_toString]
    simp [Uuid.parse_toString, Submits]
    exact ⟨payload, req.payload, method, req.url, number, hs, orgId, rfl⟩

/-- Every message that a request creates was submitted with it. -/
theorem serve_submits : (serve env route r).Traces (Submits route r) (fun _ _ ↦ True) past := by
  by_cases hroute : route = .send
  · subst hroute
    unfold serve
    rw [Prog.monad_bind, Prog.traces_bind]
    apply Prog.Traces.mono (fun _ _ h ↦ h) (fun _ _ _ ↦ ⟨trivial, fun _ ↦ trivial⟩)
    rw [handle]
    exact traces_validateApiKey (fun _ ↦ trivial) (fun _ ↦ trivial) (fun _ _ _ ↦ trivial) fun _ _ ↦
      traces_wrap (fun _ ↦ trivial) (fun _ _ _ ↦ trivial) send_submits
  · apply serve_spared.mono (fun past o h ↦ ?_) fun _ _ h ↦ h
    have hlight := h.1.resolve_right fun ho ↦ hroute (h.2.1 _ ho)
    cases o with
    | sql s => cases s <;> trivial
    | _ => trivial

end Handlers

end Chis.Api
