import Djq.Core.Error
import Djq.Storage.PgStore

/-!
# The endpoints that write

The handlers of `crates/api/src/routes.rs`, with `QueueService` and the errors of
`crates/api/src/error.rs`: what each of them asks of the store, and the response it
makes of the answer.
-/

namespace Djq

namespace Api

/-- A request to an endpoint that writes, as the extractors hand it over. -/
inductive Request where
  /-- With the `Idempotency-Key` header, if there is one and it is text. -/
  | submitJob (header : Option String) (new : NewJob)
  | cancelJob (id : Uuid)
  | retryJob (id : Uuid)
  | createQueue (name : String)
  | pauseQueue (name : String)
  | resumeQueue (name : String)
  | purgeFinished (olderThanSecs : Option Int64)

inductive Body where
  | job (job : Job)
  | queue (queue : Queue)
  | deleted (rows : Nat)
  | error (error category : String)
  deriving DecidableEq

structure Response where
  code : Nat
  body : Body
  deriving DecidableEq

/-- `ApiError::bad_request`. -/
def Response.badRequest (message : String) : Response := ⟨400, .error message "bad_request"⟩

variable (text : Uuid → String)

/-- `From<QueueError> for ApiError`. -/
def Response.ofError (e : QueueError) : Response :=
  match e.category with
  | .badRequest => ⟨400, .error (e.message text) "bad_request"⟩
  | .notFound => ⟨404, .error (e.message text) "not_found"⟩
  | .conflict => ⟨409, .error (e.message text) "conflict"⟩
  | .internal => ⟨500, .error (e.message text) "internal"⟩

/-- The job `submit_job` submits: the header counts where the body has no key. -/
def withKey (header : Option String) (new : NewJob) : NewJob :=
  match new.idempotencyKey, header with
  | none, some key => if key = "" then new else { new with idempotencyKey := some key }
  | _, _ => new

/-- `default_purge_age`. -/
def defaultPurgeAge : Int64 := 7 * 24 * 3600

namespace Request

def isCreateQueue : Request → Bool
  | createQueue _ => true
  | _ => false

/-- The response to the store's answer; an answer of another kind is never given. -/
def respond (request : Request) : Except QueueError Value → Option Response
  | .error e => some (.ofError text e)
  | .ok (.submission s) => some ⟨if s.created then 201 else 200, .job s.job⟩
  | .ok (.job job) => some ⟨200, .job job⟩
  | .ok (.queue queue) => some ⟨if request.isCreateQueue then 201 else 200, .queue queue⟩
  | .ok (.count rows) => some ⟨200, .deleted rows⟩
  | .ok _ => none

end Request

end Api

end Djq
