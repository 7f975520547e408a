import Djq.Core.Model
import Djq.Relational.Table

/-!
# The database

`crates/storage/migrations/0001_init.sql`: the five tables, the column defaults,
and the constraints an INSERT into `jobs` is checked against. Rows of
`job_attempts` are kept in the order of their BIGSERIAL ids.
-/

namespace Djq

open Relational

structure Db where
  queues : List Queue
  jobs : List Job
  attempts : List JobAttempt
  deadLetters : List DeadLetterJob
  workers : List Worker
  /-- The next value of the sequence behind `job_attempts.id`. -/
  attemptSeq : Nat

/-- The database after the migration. -/
def Db.empty : Db := ⟨[], [], [], [], [], 1⟩

/-- What a committed unit of SQL (an explicit transaction or an autocommitted
statement) reads from outside the tables. -/
structure Env where
  /-- `now()`. -/
  now : Int
  /-- The job rows that other open transactions hold, passed over by SKIP LOCKED. -/
  locked : List Uuid
  /-- What `gen_random_uuid()` returns next. -/
  uuid : Uuid

/-- The row with a given primary key. -/
def Db.job? (db : Db) (id : Uuid) : Option Job := lookup Job.id id db.jobs

def Db.queue? (db : Db) (name : String) : Option Queue := lookup Queue.name name db.queues

def Db.deadLetter? (db : Db) (id : Uuid) : Option DeadLetterJob := lookup DeadLetterJob.id id db.deadLetters

/-- The row an INSERT of a submission writes, defaults included. -/
def NormalizedJob.row (job : NormalizedJob) (env : Env) : Job where
  id := env.uuid
  queue := job.queue
  jobType := job.jobType
  payload := job.payload
  status := job.status
  priority := job.priority
  idempotencyKey := job.idempotencyKey
  maxAttempts := job.maxAttempts
  attempts := 0
  runAt := job.runAt
  timeoutSecs := job.timeoutSecs
  backoffBaseSecs := job.backoffBaseSecs
  backoffMaxSecs := job.backoffMaxSecs
  deadLetter := job.deadLetter
  lockedBy := none
  lockedAt := none
  leaseExpiresAt := none
  lastError := none
  result := none
  metadata := job.metadata
  correlationId := job.correlationId
  createdAt := env.now
  updatedAt := env.now
  completedAt := none

@[simp] theorem NormalizedJob.row_status (job : NormalizedJob) (env : Env) : (job.row env).status = job.status := rfl

/-- The CHECK constraints of `jobs`; the one on `status` holds by its type. -/
def Job.checks (row : Job) : Bool :=
  decide (1 ≤ row.maxAttempts ∧ 1 ≤ row.timeoutSecs ∧ 1 ≤ row.backoffBaseSecs ∧ 1 ≤ row.backoffMaxSecs)

/-- The partial unique index `jobs_idem_uniq`. -/
def Job.sameKey (queue : String) (key : Option String) (row : Job) : Bool :=
  decide (row.queue = queue ∧ key.isSome ∧ row.idempotencyKey = key)

/-- Every submission `normalized` lets through meets the CHECKs. -/
theorem NormalizedJob.Sound.checks {job : NormalizedJob} (sound : job.Sound) (env : Env) :
    (job.row env).checks = true := by
  have base := sound.backoffBaseSecs
  have cap := sound.backoffMaxSecs.1
  have floor : 1 ≤ job.backoffMaxSecs := le_trans base cap
  exact decide_eq_true ⟨sound.maxAttempts.1, sound.timeoutSecs.1, base, floor⟩

end Djq
