import Chis.Api.Decode
import Chis.Service.Delivery

/-!
# Submitting a webhook

`internal/handler/webhook.go`. The call of the delivery service is the service's own program: the
connection between the two adds nothing to it.
-/

namespace Chis.Api

/-- `SendWebhookRequest`; `webhook.go:21`. The payload is an `interface{}`, `null` standing for
`nil`. -/
structure SendWebhookRequest where
  url : String
  method : String
  payload : Json Double

def SendWebhookRequest.fields (ms : List (String × Json Decimal)) : Option SendWebhookRequest := do
  return {
    url := ← stringField "url" ms
    method := ← stringField "method" ms
    payload := ← anyField "payload" ms }

/-- The rule `required` of an `interface{}`: any value but `nil`. -/
def payloadErrors : Json Double → List FieldError
  | .null => [⟨"payload", Rule.message "payload" .required⟩]
  | _ => []

def SendWebhookRequest.errors (env : Env) (req : SendWebhookRequest) : List FieldError :=
  fieldErrors env "url" [.required, .url] req.url ++ payloadErrors req.payload

/-- `json.Marshal` of a decoded value: members in the order of their keys, every number in its
shortest form. -/
def marshal (v : Json Double) : String := (v.map Double.shortest).print

/-- `pb.HttpMethod_value`; `delivery.pb.go:43`. -/
def httpMethodValue (method : String) : Option Int :=
  (Delivery.httpMethods.idxOf? method).map fun i ↦ (i : Int)

/-- `WebhookHandler.Send`; `webhook.go:40`. -/
def send (env : Env) (orgId : Uuid) (r : Request) : Handler Response := do
  let req ← check
    (decodeAndValidate SendWebhookRequest.fields (SendWebhookRequest.errors env) r.body)
  let method := if req.method = "" then "POST" else req.method
  let payload := marshal req.payload
  match httpMethodValue method with
  | none => check (.error (.other ("invalid http method: " ++ method)))
  | some methodEnum =>
    let answer ← (ExceptT.lift (Delivery.queueMessage ⟨req.url, methodEnum, payload, orgId.toString⟩)
      : Handler (Except Delivery.GrpcError Delivery.QueueMessageResponse))
    match answer with
    | .error e => check (.error (.other e.message))
    | .ok grpcRes =>
      match Uuid.parse grpcRes.messageId with
      | none => check (.error (.other "invalid UUID"))
      | some msgId =>
        return writeJSON 201 (.obj [("messageId", .str msgId.toString),
          ("status", .str grpcRes.status)])

end Chis.Api
