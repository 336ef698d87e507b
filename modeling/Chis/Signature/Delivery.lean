import Chis.Base.Trace
import Chis.Service.Worker
import Chis.Signature.Readme

/-!
# What a delivery sends

`Worker.deliver` sends at most one request, signed with the secret that the lookup before it has
returned, or unsigned if the lookup has failed.
-/

namespace Chis

open Program

namespace Worker

/-- The request before the signature headers; `worker.go:74-85`. -/
def contentRequest (req : HttpRequest) : HttpRequest := req.set "Content-Type" "application/json"

/-- The request with the signature headers; `worker.go:91-94`. -/
def signedRequest (env : Platform) (msg : Message) (secret : String) (now : Time)
    (req : HttpRequest) : HttpRequest :=
  let sig := Helper.signWebhookPayloadWithTimestamp env.hmac ("msg_" ++ msg.id.toString) secret
    msg.payload (now / 1000000)
  ((req.set "X-Webhook-ID" sig.messageID).set "X-Webhook-Timestamp"
    (toString sig.timestamp)).set "X-Webhook-Signature" sig.signature

/-- What has happened in a delivery of `msg` when it sends `req`: the lookup of the secret, and two
looks at the clock or, if there is no secret, one. -/
inductive Sends (env : Platform) (msg : Message) : List (Event Op.Res) → HttpRequest → Prop
  | signed {req : HttpRequest} {secret : String} {now start : Time} :
      newRequest env msg.method msg.url msg.payload = some req →
      Sends env msg [⟨.now, start⟩, ⟨.now, now⟩, ⟨.sql (.getSigningSecret msg.orgID), .ok secret⟩]
        (signedRequest env msg secret now (contentRequest req))
  | unsigned {req : HttpRequest} {e : Err} {start : Time} :
      newRequest env msg.method msg.url msg.payload = some req →
      Sends env msg [⟨.now, start⟩, ⟨.sql (.getSigningSecret msg.orgID), .error e⟩]
        (contentRequest req)

/-- Every request is sent by `Sends`, after the events `older` from before the delivery. -/
def Delivers (env : Platform) (msg : Message) (older past : List (Event Op.Res)) : Op → Prop
  | .send id req => id = msg.id ∧ ∃ recent, past = recent ++ older ∧ Sends env msg recent req
  | _ => True

theorem settle_delivers (env : Platform) (msg₀ msg : Message) (ok : Bool)
    (older past : List (Event Op.Res)) :
    (settle msg ok).Traces (Delivers env msg₀ older) (fun _ _ ↦ True) past := by
  unfold settle
  split
  · exact ⟨trivial, fun _ ↦ trivial⟩
  · split
    · split
      · exact ⟨trivial, fun e ↦ nomatch (e : Empty)⟩
      · exact ⟨trivial, fun _ ↦ ⟨trivial, fun _ ↦ trivial⟩⟩
    · exact ⟨trivial, fun _ ↦ trivial⟩

private theorem attempt_delivers {env : Platform} {msg : Message} {req : HttpRequest}
    {older recent : List (Event Op.Res)}
    (h : ∀ start : Time, Sends env msg (⟨.now, start⟩ :: recent) req) :
    (attempt msg req).Traces (Delivers env msg older) (fun _ _ ↦ True) (recent ++ older) := by
  refine ⟨trivial, fun start ↦ ⟨⟨rfl, _, rfl, h start⟩, fun _ ↦ ⟨trivial, fun _ ↦ ⟨trivial, fun _ ↦
    ⟨trivial, fun _ ↦ ?_⟩⟩⟩⟩⟩
  exact settle_delivers env msg msg _ older _

/-- A delivery keeps to this, whatever has happened before it. -/
theorem deliver_delivers (env : Platform) (msg : Message) (older : List (Event Op.Res)) :
    (deliver env msg).Traces (Delivers env msg older) (fun _ _ ↦ True) older := by
  unfold deliver
  split
  · exact ⟨trivial, fun _ ↦ trivial⟩
  · next req hreq =>
    refine ⟨trivial, fun (r : Except Err String) ↦ ?_⟩
    cases r with
    | error e => exact attempt_delivers fun start ↦ .unsigned hreq
    | ok secret => exact ⟨trivial, fun now ↦ attempt_delivers fun start ↦ .signed hreq⟩

/-- A delivery of `msg` that has read `secret` from the database and the time `now` sends `req`. -/
def Signs (env : Platform) (msg : Message) (secret : String) (now : Time) (req : HttpRequest) : Prop :=
  ∃ start : Time, (deliver env msg).Performs
    [⟨.now, start⟩, ⟨.now, now⟩, ⟨.sql (.getSigningSecret msg.orgID), .ok secret⟩]
    (.send msg.id req) []

/-- It can send this request, and no other. -/
theorem signs_iff {env : Platform} {msg : Message} {secret : String} {now : Time}
    {req : HttpRequest} : Signs env msg secret now req ↔
      ∃ req₀, newRequest env msg.method msg.url msg.payload = some req₀ ∧
        req = signedRequest env msg secret now (contentRequest req₀) := by
  constructor
  · rintro ⟨start, h⟩
    obtain ⟨-, recent, hrecent, hsends⟩ := (deliver_delivers env msg []).performs h
    rw [List.append_nil] at hrecent
    subst hrecent
    cases hsends with
    | signed hreq => exact ⟨_, hreq, rfl⟩
  · rintro ⟨req₀, hreq, rfl⟩
    refine ⟨now, ?_⟩
    rw [deliver, hreq]
    exact .inr ⟨.ok secret, .inr ⟨now, .inr ⟨now, .inl ⟨rfl, rfl⟩⟩⟩⟩

/-! ### What arrives -/

/-- What a receiver reads of a signed request. -/
def webhookOf (env : Platform) (msg : Message) (secret : String) (now : Time) : Receiver.Webhook :=
  let sig := Helper.signWebhookPayloadWithTimestamp env.hmac ("msg_" ++ msg.id.toString) secret
    msg.payload (now / 1000000)
  ⟨sig.messageID, toString sig.timestamp, sig.signature, msg.payload⟩

private theorem newRequest_eq {env : Platform} {method url body : String} {req : HttpRequest}
    (h : newRequest env method url body = some req) : req.body = body ∧ req.header = [] := by
  simp only [newRequest, Option.ite_none_right_eq_some, Option.some.injEq] at h
  obtain ⟨-, rfl⟩ := h
  exact ⟨rfl, rfl⟩

private theorem signedRequest_header {env : Platform} {msg : Message} {secret : String} {now : Time}
    {req : HttpRequest} (h : req.header = []) :
    (signedRequest env msg secret now (contentRequest req)).header =
      [("Content-Type", "application/json"),
        ("X-Webhook-ID", (webhookOf env msg secret now).id),
        ("X-Webhook-Timestamp", (webhookOf env msg secret now).timestamp),
        ("X-Webhook-Signature", (webhookOf env msg secret now).signature)] := by
  simp [signedRequest, contentRequest, HttpRequest.set, webhookOf, h]

private theorem receive_eq {req : HttpRequest} {type id timestamp signature : String}
    (h : req.header = [("Content-Type", type), ("X-Webhook-ID", id),
      ("X-Webhook-Timestamp", timestamp), ("X-Webhook-Signature", signature)]) :
    Receiver.receive req = some ⟨id, timestamp, signature, req.body⟩ := by
  simp [Receiver.receive, HttpRequest.get?, h]

/-- The three headers arrive as they were set, and the payload as the body. -/
theorem Signs.receive {env : Platform} {msg : Message} {secret : String} {now : Time}
    {req : HttpRequest} (h : Signs env msg secret now req) :
    Receiver.receive req = some (webhookOf env msg secret now) := by
  obtain ⟨req₀, hreq, rfl⟩ := signs_iff.mp h
  obtain ⟨hbody, hheader⟩ := newRequest_eq hreq
  rw [receive_eq (signedRequest_header hheader)]
  change some (Receiver.Webhook.mk _ _ _ req₀.body) = _
  rw [hbody]
  rfl

/-- The signature is over the three fields as they arrive. -/
theorem webhookOf_signature (env : Platform) (msg : Message) (secret : String) (now : Time) :
    (webhookOf env msg secret now).signature =
      Receiver.signature env.hmac secret (webhookOf env msg secret now).content := rfl

end Worker

end Chis
