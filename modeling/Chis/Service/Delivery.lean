import Chis.System.World

/-!
# The delivery service and the scheduler

`internal/delivery/service.go` and `internal/scheduler/scheduler.go`.
-/

namespace Chis

open Program

namespace Delivery

/-- `codes.InvalidArgument` and `codes.Internal`. -/
inductive GrpcCode
  | invalidArgument | internal
deriving DecidableEq

/-- An error returned to the gRPC client. -/
structure GrpcError where
  code : GrpcCode
  message : String
deriving DecidableEq

/-- `pb.QueueMessageRequest`; the method is the number of an enumeration value. -/
structure QueueMessageRequest where
  url : String
  method : Int
  payload : String
  orgId : String
deriving DecidableEq

/-- `pb.QueueMessageResponse`. -/
structure QueueMessageResponse where
  messageId : String
  status : String
deriving DecidableEq

/-- `pb.HttpMethod_name`, in the order of the enumeration. -/
def httpMethods : List String := ["HTTP_METHOD_UNSPECIFIED", "GET", "POST", "PUT", "DELETE"]

/-- `HttpMethod.String`: a number without a name is printed as it is. -/
def httpMethodString (method : Int) : String :=
  if method < 0 then toString method else httpMethods.getD method.toNat (toString method)

/-- The row that `QueueMessage` inserts; `service.go:39`. -/
def messageOf (req : QueueMessageRequest) (orgID : Uuid) : Message :=
  { Message.zero with
    orgID := orgID
    method := httpMethodString req.method
    url := req.url
    payload := req.payload }

/-- `ServiceRepo.QueueMessage`; `service.go:30`. The result of the push is not looked at. -/
def queueMessage (req : QueueMessageRequest) :
    Service (Except GrpcError QueueMessageResponse) := do
  match Uuid.parse req.orgId with
  | none => return .error ⟨.invalidArgument, "invalid org_id"⟩
  | some orgID =>
    match ← Service.sql (.messageCreate (messageOf req orgID)) with
    | .error _ => return .error ⟨.internal, "failed to save message"⟩
    | .ok message =>
      let _ ← Queue.push message.id.toString
      return .ok ⟨message.id.toString, message.status.label⟩

end Delivery

namespace Scheduler

/-- Re-enqueue one message and mark it pending, whole row as it was read; `scheduler.go:47`. The
results of both operations are not looked at. -/
def requeue (msg : Message) : Service Unit := do
  let _ ← Queue.push msg.id.toString
  let _ ← Service.sql (.messageUpdate { msg with status := .pending })

/-- `Scheduler.processRetries`; `scheduler.go:41`. `Scheduler.Start` repeats it, with a pause that
is part of the time any process may take between its operations. -/
def processRetries : Service Unit := do
  match ← Service.sql (.findRetryReady 10) with
  | .error _ => return ()
  | .ok messages => Prog.forEach requeue messages

end Scheduler

end Chis
