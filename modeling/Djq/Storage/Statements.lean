import Djq.Storage.Schema
import Djq.Core.Backoff
import Djq.Relational.Ordered

/-!
# The committed units of `PgStore`

One definition for each explicit transaction and each autocommitted statement of
`crates/storage/src/lib.rs` that writes: the database it commits and the rows it
returns to the client. The SET clauses are functions on a row, shared by the
UPDATE and its RETURNING. How the units make up the store's operations is in
`PgStore` and, with other clients in between, in `Calls`.
-/

namespace Djq

open Relational

/-! ## SET clauses -/

namespace Job

def setLeased (now : Int) (worker : Uuid) (leaseSecs : Int) (j : Job) : Job :=
  { j with
    status := .processing
    lockedBy := some worker
    lockedAt := some now
    leaseExpiresAt := some (now + seconds leaseSecs)
    attempts := j.attempts + 1
    updatedAt := now }

def setRenewed (now : Int) (leaseSecs : Int) (j : Job) : Job :=
  { j with
    leaseExpiresAt := some (now + seconds leaseSecs)
    updatedAt := now }

/-- `locked_by = NULL, locked_at = NULL, lease_expires_at = NULL, updated_at = now()`,
common to every way out of `processing`. -/
def release (now : Int) (j : Job) : Job :=
  { j with
    lockedBy := none
    lockedAt := none
    leaseExpiresAt := none
    updatedAt := now }

def setCompleted (now : Int) (result : Option Json) (j : Job) : Job :=
  { j.release now with
    status := .completed
    result := result
    completedAt := some now
    lastError := none }

def setDeadLettered (now : Int) (error : String) (j : Job) : Job :=
  { j.release now with
    status := .deadLettered
    lastError := some error }

def setFailed (now : Int) (error : String) (j : Job) : Job :=
  { j.release now with
    status := .failed
    lastError := some error }

def setRetrying (now : Int) (error : String) (delaySecs : Int) (j : Job) : Job :=
  { j.release now with
    status := .retrying
    lastError := some error
    runAt := now + seconds delaySecs }

/-- The delay `fail_job` computes in Rust. The two casts are `as u64` of values
that are at least one and `as u32` of the attempt count. -/
def failDelaySecs (j : Job) : Int :=
  let policy := BackoffPolicy.exponential (max j.backoffBaseSecs 1).toNat (max j.backoffMaxSecs 1).toNat
  policy.delayForAttempt (j.attempts % 4294967296).toNat

/-- The UPDATE `fail_job` chooses after reading `current`. -/
def failUpdate (current : Job) (now : Int) (error : String) : Job → Job :=
  if current.maxAttempts ≤ current.attempts then
    if current.deadLetter then setDeadLettered now error else setFailed now error
  else setRetrying now error current.failDelaySecs

def setCancelled (now : Int) (j : Job) : Job :=
  { j.release now with status := .cancelled }

def setRequeued (now : Int) (j : Job) : Job :=
  { j.release now with
    status := .queued
    runAt := now
    attempts := 0
    lastError := none }

/-- `COALESCE(last_error, 'lease expired')`. -/
def expiryError (j : Job) : String := j.lastError.getD "lease expired"

/-- The delay the reaper computes in SQL:
`LEAST(backoff_max_secs, backoff_base_secs * power(2, GREATEST(attempts - 1, 0)))`. -/
def expiryDelaySecs (j : Job) : Int :=
  min j.backoffMaxSecs (j.backoffBaseSecs * 2 ^ (max (j.attempts - 1) 0).toNat)

def setExpiredRetrying (now : Int) (j : Job) : Job :=
  j.setRetrying now j.expiryError j.expiryDelaySecs

def setExpiredDeadLettered (now : Int) (j : Job) : Job := j.setDeadLettered now j.expiryError

def setExpiredFailed (now : Int) (j : Job) : Job := j.setFailed now j.expiryError

/-- The dead-letter row of a job, with the error it is filed under. -/
def deadLetterRow (now : Int) (error : String) (j : Job) : DeadLetterJob where
  id := j.id
  queue := j.queue
  jobType := j.jobType
  payload := j.payload
  attempts := j.attempts
  lastError := some error
  deadLetteredAt := now
  originalCreatedAt := some j.createdAt

/-! The columns by which the rest of the development knows the clauses. -/

section Clauses

variable (now : Int) (j : Job)

@[simp] theorem setLeased_status (worker : Uuid) (secs : Int) :
    (j.setLeased now worker secs).status = .processing := rfl

@[simp] theorem setRenewed_status (secs : Int) : (j.setRenewed now secs).status = j.status := rfl

@[simp] theorem setCompleted_status (result : Option Json) : (j.setCompleted now result).status = .completed := rfl

@[simp] theorem setDeadLettered_status (error : String) :
    (j.setDeadLettered now error).status = .deadLettered := rfl

@[simp] theorem setFailed_status (error : String) : (j.setFailed now error).status = .failed := rfl

@[simp] theorem setRetrying_status (error : String) (delay : Int) :
    (j.setRetrying now error delay).status = .retrying := rfl

@[simp] theorem setCancelled_status : (j.setCancelled now).status = .cancelled := rfl

@[simp] theorem setRequeued_status : (j.setRequeued now).status = .queued := rfl

@[simp] theorem setExpiredRetrying_status : (j.setExpiredRetrying now).status = .retrying := rfl

@[simp] theorem setExpiredDeadLettered_status : (j.setExpiredDeadLettered now).status = .deadLettered := rfl

@[simp] theorem setExpiredFailed_status : (j.setExpiredFailed now).status = .failed := rfl

/-- The statuses `fail_job` leads to. -/
theorem failUpdate_status (current : Job) (error : String) :
    (current.failUpdate now error j).status ∈ [.deadLettered, .failed, .retrying] := by
  unfold failUpdate
  split
  · split <;> simp
  · simp

theorem failUpdate_attempts (current : Job) (error : String) :
    (current.failUpdate now error j).attempts = j.attempts := by
  unfold failUpdate
  split
  · split <;> rfl
  · rfl

theorem failUpdate_lastError (current : Job) (error : String) :
    (current.failUpdate now error j).lastError = some error := by
  unfold failUpdate
  split
  · split <;> rfl
  · rfl

end Clauses

end Job

/-- Close the running attempt rows that `which` selects. -/
def closeAttempts (which : JobAttempt → Bool) (set : JobAttempt → JobAttempt) (rows : List JobAttempt) :
    List JobAttempt :=
  updateWhere (fun a => which a && decide (a.status = .running)) set rows

namespace Db

variable (db : Db)

/-! ## Queues -/

/-- `ensure_queue`'s INSERT. -/
def ensureQueue (env : Env) (name : String) : Db :=
  { db with queues := insertIgnore Queue.name db.queues ⟨name, false, none, env.now⟩ }

def setQueuePaused (name : String) (paused : Bool) : Db × Option Queue :=
  let which := fun q : Queue => decide (q.name = name)
  let set := fun q : Queue => { q with paused := paused }
  ({ db with queues := updateWhere which set db.queues }, (returning which set db.queues).head?)

/-! ## Submission -/

inductive InsertReply where
  | inserted (row : Job)
  | uniqueViolation
  | otherViolation

/-- `submit`'s INSERT: the CHECKs, then the primary key and `jobs_idem_uniq`,
then the reference to `queues`. -/
def insertJob (env : Env) (job : NormalizedJob) : Db × InsertReply :=
  let row := job.row env
  if !row.checks then (db, .otherViolation)
  else if db.jobs.any (fun j => decide (j.id = row.id) || j.sameKey row.queue row.idempotencyKey) then
    (db, .uniqueViolation)
  else if (db.queue? row.queue).isNone then (db, .otherViolation)
  else ({ db with jobs := db.jobs ++ [row] }, .inserted row)

/-- The lookup by idempotency key. -/
def findByKey (queue key : String) : Option Job := db.jobs.find? (·.sameKey queue (some key))

/-! ## Operator actions -/

def cancelJob (env : Env) (id : Uuid) : Db × Option Job :=
  let which := fun j : Job => decide (j.id = id ∧ j.status ∈ [.queued, .scheduled, .retrying, .processing])
  ({ db with jobs := updateWhere which (Job.setCancelled env.now) db.jobs },
    (returning which (Job.setCancelled env.now) db.jobs).head?)

/-- `retry_job`'s UPDATE. -/
def requeueJob (env : Env) (id : Uuid) : Db × Option Job :=
  let which := fun j : Job => decide (j.id = id ∧ j.status ∈ [.failed, .deadLettered])
  ({ db with jobs := updateWhere which (Job.setRequeued env.now) db.jobs },
    (returning which (Job.setRequeued env.now) db.jobs).head?)

/-- `retry_job`'s DELETE. -/
def removeDeadLetter (id : Uuid) : Db :=
  { db with deadLetters := deleteWhere (fun d => decide (d.id = id)) db.deadLetters }

def purgeable (olderThan : Int) (j : Job) : Bool :=
  decide (j.status ∈ [.completed, .cancelled] ∧ j.updatedAt < olderThan)

/-- `purge_finished`'s DELETE, with the cascade to `job_attempts`. -/
def purgeFinished (olderThan : Int) : Db × Nat :=
  let gone := db.jobs.filter (purgeable olderThan)
  ({ db with
      jobs := deleteWhere (purgeable olderThan) db.jobs
      attempts := deleteWhere (fun a => decide (a.jobId ∈ gone.map Job.id)) db.attempts },
    gone.length)

/-! ## The leasing protocol -/

/-- The WHERE clause of the lease query, and what SKIP LOCKED leaves of it. -/
def leaseable (env : Env) (queues : List String) (j : Job) : Bool :=
  decide (j.queue ∈ queues) && db.queues.any (fun q => decide (q.name = j.queue ∧ q.paused = false)) &&
    decide (j.status ∈ [.queued, .scheduled, .retrying] ∧ j.runAt ≤ env.now ∧ j.id ∉ env.locked)

/-- `ORDER BY priority DESC, run_at ASC, created_at ASC`. -/
def leaseOrder (a b : Job) : Prop :=
  b.priority < a.priority ∨ (a.priority = b.priority ∧
    (a.runAt < b.runAt ∨ (a.runAt = b.runAt ∧ a.createdAt ≤ b.createdAt)))

instance : DecidableRel leaseOrder := fun _ _ => inferInstanceAs (Decidable (_ ∨ _))

instance : Std.Total leaseOrder := ⟨fun a b => by unfold leaseOrder; omega⟩

instance : IsTrans Job leaseOrder := ⟨fun a b c => by unfold leaseOrder; omega⟩

/-- The row the lease query selects and locks. -/
def leasePick (env : Env) (queues : List String) : Option Job :=
  (orderBy leaseOrder (db.jobs.filter (db.leaseable env queues))).head?

/-- The attempt row a lease of `job`, as returned by the UPDATE, inserts. -/
def attemptRow (now : Int) (worker : Uuid) (job : Job) : JobAttempt where
  id := db.attemptSeq
  jobId := job.id
  attempt := job.attempts
  workerId := some worker
  startedAt := now
  finishedAt := none
  status := .running
  error := none

/-- What a lease transaction that has selected `pick` writes. -/
def leaseWrite (now : Int) (worker : Uuid) (leaseSecs : Int) (pick : Job) : Db :=
  { db with
    jobs := updateWhere (fun j => decide (j.id = pick.id)) (Job.setLeased now worker leaseSecs) db.jobs
    attempts := db.attempts ++ [db.attemptRow now worker (pick.setLeased now worker leaseSecs)]
    attemptSeq := db.attemptSeq + 1 }

/-- The transaction of `lease_next`. -/
def leaseNext (env : Env) (worker : Uuid) (queues : List String) (leaseSecs : Int) : Db × Option Job :=
  match db.leasePick env queues with
  | none => (db, none)
  | some pick =>
    (db.leaseWrite env.now worker leaseSecs pick, some (pick.setLeased env.now worker leaseSecs))

/-- The WHERE clause of a lease-bound UPDATE. -/
def heldBy (id worker : Uuid) (j : Job) : Bool :=
  decide (j.id = id ∧ j.lockedBy = some worker ∧ j.status = .processing)

/-- What a `complete_job` transaction that has found its row writes. -/
def completeWrite (env : Env) (id worker : Uuid) (result : Option Json) : Db :=
  { db with
    jobs := updateWhere (heldBy id worker) (Job.setCompleted env.now result) db.jobs
    attempts := closeAttempts (fun a => decide (a.jobId = id))
      (fun a => { a with status := .succeeded, finishedAt := some env.now }) db.attempts }

/-- The transaction of `complete_job`; without a row it is rolled back. -/
def completeJob (env : Env) (id worker : Uuid) (result : Option Json) : Db × Option Job :=
  match (returning (heldBy id worker) (Job.setCompleted env.now result) db.jobs).head? with
  | none => (db, none)
  | some job => (db.completeWrite env id worker result, some job)

/-- What a `fail_job` transaction that has read and accepted `current` writes. -/
def failWrite (env : Env) (id : Uuid) (error : String) (timedOut : Bool) (current : Job) : Db :=
  let status := if timedOut then AttemptStatus.timeout else AttemptStatus.failed
  { db with
    jobs := updateWhere (fun j => decide (j.id = id)) (current.failUpdate env.now error) db.jobs
    deadLetters :=
      if current.maxAttempts ≤ current.attempts ∧ current.deadLetter then
        insertIgnore DeadLetterJob.id db.deadLetters (current.deadLetterRow env.now error)
      else db.deadLetters
    attempts := closeAttempts (fun a => decide (a.jobId = id))
      (fun a => { a with status := status, finishedAt := some env.now, error := some error }) db.attempts }

/-- The transaction of `fail_job`. -/
def failJob (env : Env) (id worker : Uuid) (error : String) (timedOut : Bool) : Db × Except QueueError Unit :=
  match db.job? id with
  | none => (db, .error (.jobNotFound id))
  | some current =>
    if current.status ≠ .processing ∨ current.lockedBy ≠ some worker then
      (db, .error (.invalidOperation "fail" current.status))
    else (db.failWrite env id error timedOut current, .ok ())

/-- `renew_lease`'s UPDATE, with the number of rows it affected. -/
def renewLease (env : Env) (id worker : Uuid) (leaseSecs : Int) : Db × Nat :=
  ({ db with jobs := updateWhere (heldBy id worker) (Job.setRenewed env.now leaseSecs) db.jobs },
    (db.jobs.filter (heldBy id worker)).length)

/-! ## The reaper -/

/-- `status = 'processing' AND lease_expires_at < now()`, not passed over by SKIP LOCKED. -/
def expired (env : Env) (j : Job) : Bool :=
  decide (j.status = .processing ∧ (∃ e ∈ j.leaseExpiresAt, e < env.now) ∧ j.id ∉ env.locked)

theorem processing_of_expired {env : Env} {j : Job} (lapsed : expired env j = true) : j.status = .processing :=
  (of_decide_eq_true lapsed).1

/-- `ORDER BY lease_expires_at`; the rows ordered by it all have one. -/
def expiryOrder (a b : Job) : Prop := a.leaseExpiresAt.getD 0 ≤ b.leaseExpiresAt.getD 0

instance : DecidableRel expiryOrder := fun _ _ => inferInstanceAs (Decidable (_ ≤ _))

instance : Std.Total expiryOrder := ⟨fun _ _ => le_total _ _⟩

instance : IsTrans Job expiryOrder := ⟨fun _ _ _ => le_trans⟩

def retryable (env : Env) (j : Job) : Bool :=
  expired env j && decide (j.attempts < j.maxAttempts)

def exhaustedDeadLetter (env : Env) (j : Job) : Bool :=
  expired env j && decide (j.maxAttempts ≤ j.attempts ∧ j.deadLetter = true)

def exhaustedFailed (env : Env) (j : Job) : Bool :=
  expired env j && decide (j.maxAttempts ≤ j.attempts ∧ j.deadLetter = false)

/-- The rows a statement of the reaper takes: `SELECT .. WHERE which ORDER BY
lease_expires_at LIMIT limit FOR UPDATE SKIP LOCKED`. -/
def expiredBatch (which : Job → Bool) (limit : Int) : List Job :=
  top expiryOrder limit.toNat (db.jobs.filter which)

/-- `UPDATE jobs SET .. WHERE id IN (batch) RETURNING id`. -/
def releaseBatch (set : Job → Job) (batch : List Job) : Db :=
  { db with jobs := updateWhere (fun j => decide (j.id ∈ batch.map Job.id)) set db.jobs }

/-- The reaper's first statement. -/
def recoverRetryable (env : Env) (limit : Int) : Db × List Uuid :=
  let batch := db.expiredBatch (retryable env) limit
  (db.releaseBatch (Job.setExpiredRetrying env.now) batch, batch.map Job.id)

/-- The reaper's second statement, a CTE that files the rows it takes. -/
def recoverDeadLetter (env : Env) (limit : Int) : Db × List Uuid :=
  let batch := db.expiredBatch (exhaustedDeadLetter env) limit
  ({ db.releaseBatch (Job.setExpiredDeadLettered env.now) batch with
      deadLetters := batch.foldl
        (fun rows j => insertIgnore DeadLetterJob.id rows (j.deadLetterRow env.now j.expiryError)) db.deadLetters },
    batch.map Job.id)

/-- The reaper's third statement. -/
def recoverFailed (env : Env) (limit : Int) : Db × List Uuid :=
  let batch := db.expiredBatch (exhaustedFailed env) limit
  (db.releaseBatch (Job.setExpiredFailed env.now) batch, batch.map Job.id)

/-- The reaper's closing statement. -/
def closeExpired (env : Env) (recovered : List Uuid) : Db :=
  { db with
    attempts := closeAttempts (fun a => decide (a.jobId ∈ recovered))
      (fun a => { a with
        status := .timeout, finishedAt := some env.now, error := some (a.error.getD "lease expired") })
      db.attempts }

/-! ## The worker registry -/

def registerWorker (env : Env) (worker : Worker) : Db :=
  { db with
    workers :=
      if (lookup Worker.id worker.id db.workers).isSome then
        updateWhere (fun w => decide (w.id = worker.id))
          (fun w => { w with
            hostname := worker.hostname, queues := worker.queues, concurrency := worker.concurrency,
            lastHeartbeat := env.now })
          db.workers
      else db.workers ++ [{ worker with registeredAt := env.now, lastHeartbeat := env.now }] }

def heartbeat (env : Env) (worker : Uuid) : Db × Bool :=
  ({ db with workers :=
      updateWhere (fun w => decide (w.id = worker)) (fun w => { w with lastHeartbeat := env.now }) db.workers },
    decide (0 < (db.workers.filter fun w => decide (w.id = worker)).length))

def deregisterWorker (worker : Uuid) : Db :=
  { db with workers := deleteWhere (fun w => decide (w.id = worker)) db.workers }

def pruneDeadWorkers (env : Env) (olderSecs : Int) : Db × Nat :=
  let dead := fun w : Worker => decide (w.lastHeartbeat < env.now - seconds olderSecs)
  ({ db with workers := deleteWhere dead db.workers }, (db.workers.filter dead).length)

end Db

end Djq
