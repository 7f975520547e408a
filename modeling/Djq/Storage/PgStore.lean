import Djq.Storage.Statements

/-!
# The operations of `PgStore`

Each operation of the `Store` trait that writes, run from its first statement to
its return with no other client in between. The same operations cut at their
commits, so that other clients may come in between, are in `Calls`.
-/

namespace Djq

/-- A store operation run by itself. -/
abbrev Op (α : Type) := Env → Db → Db × Except QueueError α

/-- `sqlx::Error::RowNotFound`, which `fetch_one` ends with when there is no row. -/
def rowNotFound : QueueError :=
  .storage "no rows returned by a query that expected to return at least one row"

/-- The error a statement with `LIMIT $1` ends with when the limit is negative. -/
def negativeLimit : QueueError := .storage "LIMIT must not be negative"

/-- A violated constraint other than a unique one. -/
def constraintViolation : QueueError := .storage "constraint violation"

/-- A unique violation of a submission that has no idempotency key. -/
def duplicateKey : QueueError := .storage "duplicate key value violates unique constraint"

/-- `Err` unless a row was found. -/
def found {α : Type} (missing : QueueError) : Option α → Except QueueError α
  | none => .error missing
  | some a => .ok a

namespace PgStore

/-- Why a guarded UPDATE matched no row: `fetch_job`, then the error it leads to. -/
def rejection (op : String) (id : Uuid) (db : Db) : QueueError :=
  match db.job? id with
  | some j => .invalidOperation op j.status
  | none => .jobNotFound id

def ensureQueue (name : String) : Op Queue := fun env db =>
  let db := db.ensureQueue env name
  (db, found rowNotFound (db.queue? name))

def setQueuePaused (name : String) (paused : Bool) : Op Queue := fun _ db =>
  let (db, queue) := db.setQueuePaused name paused
  (db, found (.queueNotFound name) queue)

def submit (job : NormalizedJob) : Op Submission := fun env db =>
  match ensureQueue job.queue env db with
  | (db, .error e) => (db, .error e)
  | (db, .ok _) =>
    -- Fast path for idempotency: the existing job, if there is one.
    match job.idempotencyKey.bind (db.findByKey job.queue) with
    | some existing => (db, .ok ⟨existing, false⟩)
    | none =>
      match db.insertJob env job with
      | (db, .inserted row) => (db, .ok ⟨row, true⟩)
      | (db, .otherViolation) => (db, .error constraintViolation)
      | (db, .uniqueViolation) =>
        match job.idempotencyKey with
        | none => (db, .error duplicateKey)
        | some key => (db, (found rowNotFound (db.findByKey job.queue key)).map (⟨·, false⟩))

def cancelJob (id : Uuid) : Op Job := fun env db =>
  match db.cancelJob env id with
  | (db, some job) => (db, .ok job)
  | (db, none) => (db, .error (rejection "cancel" id db))

def retryJob (id : Uuid) : Op Job := fun env db =>
  match db.requeueJob env id with
  | (db, some job) => (db.removeDeadLetter id, .ok job)
  | (db, none) => (db, .error (rejection "retry" id db))

def purgeFinished (olderThan : Int) : Op Nat := fun _ db =>
  let (db, rows) := db.purgeFinished olderThan
  (db, .ok rows)

def leaseNext (worker : Uuid) (queues : List String) (leaseSecs : Int) : Op (Option Job) := fun env db =>
  let (db, job) := db.leaseNext env worker queues leaseSecs
  (db, .ok job)

def completeJob (id worker : Uuid) (result : Option Json) : Op Job := fun env db =>
  match db.completeJob env id worker result with
  | (db, some job) => (db, .ok job)
  | (db, none) => (db, .error (rejection "complete" id db))

def failJob (id worker : Uuid) (error : String) (timedOut : Bool) : Op Job := fun env db =>
  match db.failJob env id worker error timedOut with
  | (db, .error e) => (db, .error e)
  | (db, .ok ()) => (db, found (.jobNotFound id) (db.job? id))

def renewLease (id worker : Uuid) (leaseSecs : Int) : Op Unit := fun env db =>
  let (db, rows) := db.renewLease env id worker leaseSecs
  (db, if rows = 0 then .error (.invalidOperation "renew_lease" .processing) else .ok ())

def recoverExpiredLeases (limit : Int) : Op (List Uuid) := fun env db =>
  if limit < 0 then (db, .error negativeLimit)
  else
    let (db, retryIds) := db.recoverRetryable env limit
    let (db, dlqIds) := db.recoverDeadLetter env limit
    let (db, failedIds) := db.recoverFailed env limit
    let recovered := retryIds ++ dlqIds ++ failedIds
    (if recovered.isEmpty then db else db.closeExpired env recovered, .ok recovered)

def registerWorker (worker : Worker) : Op Unit := fun env db => (db.registerWorker env worker, .ok ())

def heartbeat (worker : Uuid) : Op Bool := fun env db =>
  let (db, known) := db.heartbeat env worker
  (db, .ok known)

def deregisterWorker (worker : Uuid) : Op Unit := fun _ db => (db.deregisterWorker worker, .ok ())

def pruneDeadWorkers (olderSecs : Int) : Op Nat := fun env db =>
  let (db, rows) := db.pruneDeadWorkers env olderSecs
  (db, .ok rows)

end PgStore

/-- A call of a writing operation of the `Store` trait. -/
inductive Request where
  | ensureQueue (name : String)
  | setQueuePaused (name : String) (paused : Bool)
  | submit (job : Submittable)
  | cancelJob (id : Uuid)
  | retryJob (id : Uuid)
  | purgeFinished (olderThan : Int)
  | leaseNext (worker : Uuid) (queues : List String) (leaseSecs : Int)
  | completeJob (id worker : Uuid) (result : Option Json)
  | failJob (id worker : Uuid) (error : String) (timedOut : Bool)
  | renewLease (id worker : Uuid) (leaseSecs : Int)
  | recoverExpiredLeases (limit : Int)
  | registerWorker (worker : Worker)
  | heartbeat (worker : Uuid)
  | deregisterWorker (worker : Uuid)
  | pruneDeadWorkers (olderSecs : Int)

/-- What an operation returns when it succeeds. -/
inductive Value where
  | unit
  | queue (queue : Queue)
  | submission (submission : Submission)
  | job (job : Job)
  | leased (job : Option Job)
  | ids (ids : List Uuid)
  | count (rows : Nat)
  | known (known : Bool)
  deriving DecidableEq

/-- The operation a request asks for, run by itself. -/
def Request.serve (env : Env) (db : Db) : Request → Db × Except QueueError Value
  | .ensureQueue name => (PgStore.ensureQueue name env db).map id (·.map .queue)
  | .setQueuePaused name paused => (PgStore.setQueuePaused name paused env db).map id (·.map .queue)
  | .submit s => (PgStore.submit s.job env db).map id (·.map .submission)
  | .cancelJob id' => (PgStore.cancelJob id' env db).map id (·.map .job)
  | .retryJob id' => (PgStore.retryJob id' env db).map id (·.map .job)
  | .purgeFinished olderThan => (PgStore.purgeFinished olderThan env db).map id (·.map .count)
  | .leaseNext worker queues secs => (PgStore.leaseNext worker queues secs env db).map id (·.map .leased)
  | .completeJob id' worker result => (PgStore.completeJob id' worker result env db).map id (·.map .job)
  | .failJob id' worker error timedOut => (PgStore.failJob id' worker error timedOut env db).map id (·.map .job)
  | .renewLease id' worker secs => (PgStore.renewLease id' worker secs env db).map id (·.map fun _ => .unit)
  | .recoverExpiredLeases limit => (PgStore.recoverExpiredLeases limit env db).map id (·.map .ids)
  | .registerWorker worker => (PgStore.registerWorker worker env db).map id (·.map fun _ => .unit)
  | .heartbeat worker => (PgStore.heartbeat worker env db).map id (·.map .known)
  | .deregisterWorker worker => (PgStore.deregisterWorker worker env db).map id (·.map fun _ => .unit)
  | .pruneDeadWorkers secs => (PgStore.pruneDeadWorkers secs env db).map id (·.map .count)

end Djq
