import Djq.Core.Status
import Mathlib.Algebra.Order.Ring.Int

/-!
# Jobs, submissions and their validation

`crates/core/src/model.rs`, `error.rs` and the submission result of `store.rs`.
Instants are integers, in microseconds since the epoch, the resolution of
`TIMESTAMPTZ`; `now` and the names in `At` are instants, those in `Secs` durations.
-/

namespace Djq

/-- A UUID; only equality of identifiers matters. -/
abbrev Uuid := Nat

/-- `n * interval '1 second'`. -/
def seconds (n : Int) : Int := n * 1000000

/-- A JSON document. The queue moves documents and never looks into one. -/
abbrev Json := String

inductive QueueError where
  | jobNotFound (id : Uuid)
  | queueNotFound (name : String)
  | duplicateIdempotencyKey (queue : String) (existingJobId : Uuid)
  | illegalTransition (source target : JobStatus)
  | invalidOperation (op : String) (status : JobStatus)
  | validation (message : String)
  | storage (message : String)
  | serialization (message : String)
  deriving DecidableEq

structure Queue where
  name : String
  paused : Bool
  maxConcurrency : Option Int
  createdAt : Int
  deriving DecidableEq

/-- A row of `jobs`. -/
structure Job where
  id : Uuid
  queue : String
  jobType : String
  payload : Json
  status : JobStatus
  priority : Int
  idempotencyKey : Option String
  maxAttempts : Int
  attempts : Int
  runAt : Int
  timeoutSecs : Int
  backoffBaseSecs : Int
  backoffMaxSecs : Int
  deadLetter : Bool
  lockedBy : Option Uuid
  lockedAt : Option Int
  leaseExpiresAt : Option Int
  lastError : Option String
  result : Option Json
  metadata : Json
  correlationId : Option String
  createdAt : Int
  updatedAt : Int
  completedAt : Option Int
  deriving DecidableEq

/-- The statuses the CHECK of `job_attempts` allows. -/
inductive AttemptStatus where
  | running
  | succeeded
  | failed
  | timeout
  deriving DecidableEq

structure JobAttempt where
  id : Nat
  jobId : Uuid
  attempt : Int
  workerId : Option Uuid
  startedAt : Int
  finishedAt : Option Int
  status : AttemptStatus
  error : Option String
  deriving DecidableEq

structure DeadLetterJob where
  id : Uuid
  queue : String
  jobType : String
  payload : Json
  attempts : Int
  lastError : Option String
  deadLetteredAt : Int
  originalCreatedAt : Option Int
  deriving DecidableEq

structure Worker where
  id : Uuid
  hostname : String
  queues : List String
  concurrency : Int
  registeredAt : Int
  lastHeartbeat : Int
  deriving DecidableEq

structure Submission where
  job : Job
  created : Bool
  deriving DecidableEq

/-- A submission request as it arrives. -/
structure NewJob where
  queue : String
  jobType : String
  payload : Json
  priority : Int32
  idempotencyKey : Option String
  maxAttempts : Option Int32
  delaySecs : Option Int64
  runAt : Option Int
  timeoutSecs : Option Int32
  backoffBaseSecs : Option Int32
  backoffMaxSecs : Option Int32
  deadLetter : Option Bool
  metadata : Json
  correlationId : Option String

structure NormalizedJob where
  queue : String
  jobType : String
  payload : Json
  priority : Int
  idempotencyKey : Option String
  maxAttempts : Int
  runAt : Int
  status : JobStatus
  timeoutSecs : Int
  backoffBaseSecs : Int
  backoffMaxSecs : Int
  deadLetter : Bool
  metadata : Json
  correlationId : Option String
  deriving DecidableEq

/-- How a call of a Rust function ends. -/
inductive Outcome (α : Type) where
  | ok (value : α)
  | err (error : QueueError)
  | panic

/-! ## Dates

`chrono` panics where a `Duration` or the sum of a date and a `Duration` is not
representable. -/

/-- `i64::MAX / 1000`, the largest number of seconds of a `Duration`. -/
def maxDurationSecs : Int := 9223372036854775

/-- `DateTime::<Utc>::MIN_UTC` and `MAX_UTC`, to the microsecond. -/
def minUtc : Int := -8334601228800000000
def maxUtc : Int := 8210266876799999999

/-- `chrono::Duration::seconds`. -/
def durationSeconds (d : Int) : Option Int :=
  if -maxDurationSecs ≤ d ∧ d ≤ maxDurationSecs then some (seconds d) else none

/-- `DateTime + Duration`. -/
def addDuration (t : Int) (d : Int) : Option Int :=
  if minUtc ≤ t + d ∧ t + d ≤ maxUtc then some (t + d) else none

/-- `DateTime - Duration`. -/
def subDuration (t : Int) (d : Int) : Option Int :=
  if minUtc ≤ t - d ∧ t - d ≤ maxUtc then some (t - d) else none

/-- The `White_Space` property, by which `str::trim` cuts. -/
def isWhiteSpace (c : Char) : Bool :=
  let n := c.toNat
  (9 ≤ n && n ≤ 13) || n == 0x20 || n == 0x85 || n == 0xA0 || n == 0x1680 ||
    (0x2000 ≤ n && n ≤ 0x200A) || n == 0x2028 || n == 0x2029 || n == 0x202F || n == 0x205F || n == 0x3000

/-- `s.trim().is_empty()`. -/
def trimIsEmpty (s : String) : Bool := s.toList.all isWhiteSpace

/-- The instant a submission is to run at, where it is representable. An
explicit `run_at` wins over a delay, and a delay counts only if positive. -/
def NewJob.resolveRunAt (new : NewJob) (now : Int) : Option Int :=
  match new.runAt, new.delaySecs with
  | some t, _ => some t
  | none, some d => if 0 < d.toInt then (durationSeconds d.toInt).bind (addDuration now) else some now
  | none, none => some now

/-- `NewJob::normalized`: validate a request and apply the defaults. -/
def NewJob.normalized (new : NewJob) (now : Int) : Outcome NormalizedJob :=
  if trimIsEmpty new.queue then .err (.validation "queue must not be empty")
  else if trimIsEmpty new.jobType then .err (.validation "job_type must not be empty")
  else if 128 < new.queue.utf8ByteSize then .err (.validation "queue name too long (max 128)")
  else if 255 < (new.idempotencyKey.map String.utf8ByteSize).getD 0 then
    .err (.validation "idempotency_key too long (max 255)")
  else
    let maxAttempts := (new.maxAttempts.getD 5).toInt
    if ¬ (1 ≤ maxAttempts ∧ maxAttempts ≤ 100) then
      .err (.validation "max_attempts must be between 1 and 100")
    else
      let timeoutSecs := (new.timeoutSecs.getD 300).toInt
      if ¬ (1 ≤ timeoutSecs ∧ timeoutSecs ≤ 86400) then
        .err (.validation "timeout_secs must be between 1 and 86400")
      else
        let backoffBaseSecs := max (new.backoffBaseSecs.getD 2).toInt 1
        let backoffMaxSecs := max (new.backoffMaxSecs.getD 300).toInt backoffBaseSecs
        match new.resolveRunAt now with
        | none => .panic
        | some runAt =>
          .ok {
            queue := new.queue
            jobType := new.jobType
            payload := new.payload
            priority := new.priority.toInt
            idempotencyKey := new.idempotencyKey
            maxAttempts
            runAt
            status := if now < runAt then .scheduled else .queued
            timeoutSecs
            backoffBaseSecs
            backoffMaxSecs
            deadLetter := new.deadLetter.getD true
            metadata := new.metadata
            correlationId := new.correlationId }

/-- The facts every job that comes out of `normalized` satisfies. -/
structure NormalizedJob.Sound (job : NormalizedJob) : Prop where
  maxAttempts : 1 ≤ job.maxAttempts ∧ job.maxAttempts ≤ 100
  timeoutSecs : 1 ≤ job.timeoutSecs ∧ job.timeoutSecs ≤ 86400
  backoffBaseSecs : 1 ≤ job.backoffBaseSecs
  backoffMaxSecs : job.backoffBaseSecs ≤ job.backoffMaxSecs ∧ job.backoffMaxSecs ≤ 2147483647
  status : job.status = .scheduled ∨ job.status = .queued

theorem NewJob.normalized_sound {new : NewJob} {now : Int} {job : NormalizedJob}
    (ok : new.normalized now = .ok job) : job.Sound := by
  unfold NewJob.normalized at ok
  simp only at ok
  split_ifs at ok with queue jobType queueLen keyLen attempts timeout
  cases runAt : new.resolveRunAt now with
  | none => simp [runAt] at ok
  | some t =>
    simp only [runAt, Outcome.ok.injEq] at ok
    subst ok
    have base := (new.backoffBaseSecs.getD 2).toInt_lt
    have cap := (new.backoffMaxSecs.getD 300).toInt_lt
    refine ⟨attempts, timeout, le_max_right _ _, ⟨le_max_right _ _, ?_⟩, ?_⟩
    · show max (new.backoffMaxSecs.getD 300).toInt (max (new.backoffBaseSecs.getD 2).toInt 1) ≤ 2147483647
      omega
    · by_cases later : now < t
      · exact .inl (if_pos later)
      · exact .inr (if_neg later)

/-- A job `QueueService::submit` may hand to the store: the output of
`normalized` on some request, at some reading of the service's own clock. -/
structure Submittable where
  job : NormalizedJob
  normalized : ∃ new now, NewJob.normalized new now = .ok job

theorem Submittable.sound (s : Submittable) : s.job.Sound := by
  obtain ⟨_, _, ok⟩ := s.normalized
  exact NewJob.normalized_sound ok

end Djq
