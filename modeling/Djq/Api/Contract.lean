import Djq.Api.Routes
import Djq.Submission.Race
import Djq.Submission.Validation
import Djq.System.Phases

/-!
# What the endpoints answer

A response of an endpoint that writes, compared with what the units of its call have
found and done, with other clients in between or not.
-/

namespace Djq

open Relational Transition

namespace Api

variable (text : Uuid → String)

/-! ## What a response says -/

/-- The row is that of a job submitted as `new`, at a reading `now` of the service's clock. -/
structure Submitted (now : Int) (new : NewJob) (row : Job) : Prop where
  queue : row.queue = new.queue
  jobType : row.jobType = new.jobType
  payload : row.payload = new.payload
  idempotencyKey : row.idempotencyKey = new.idempotencyKey
  status : row.status = if now < row.runAt then .scheduled else .queued
  attempts : row.attempts = 0

/-- A row a submission of `new` finds its key taken by. -/
structure Holds (new : NewJob) (row : Job) : Prop where
  queue : row.queue = new.queue
  given : new.idempotencyKey.isSome = true
  key : row.idempotencyKey = new.idempotencyKey

/-- No unit wrote to `jobs`. -/
def Aside (us : List Commit) : Prop := ∀ u ∈ us, u.after.jobs = u.db.jobs

/-- The statuses a job can be cancelled in, and retried in. -/
def cancellable : List JobStatus := [.queued, .scheduled, .retrying, .processing]
def retryable : List JobStatus := [.failed, .deadLettered]

/-- What a response says of the units of its call. -/
inductive Told (now : Int) : List Commit → Request → Response → Prop where
  | created {header new row vs u} (aside : Aside vs) (inserted : u.after = { u.db with jobs := u.db.jobs ++ [row] })
      (submitted : Submitted now (withKey header new) row) :
      Told now (vs ++ [u]) (.submitJob header new) ⟨201, .job row⟩
  | existing {header new row vs u} (aside : Aside (vs ++ [u])) (there : row ∈ u.db.jobs)
      (holds : Holds (withKey header new) row) : Told now (vs ++ [u]) (.submitJob header new) ⟨200, .job row⟩
  /-- The submission lost to a row that was gone when it came back for it. -/
  | purgedUnderway {header new row vs u v} (aside : Aside (vs ++ [u, v])) (there : row ∈ u.db.jobs)
      (holds : Holds (withKey header new) row) (gone : ∀ j ∈ v.db.jobs, ¬ Holds (withKey header new) j) :
      Told now (vs ++ [u, v]) (.submitJob header new)
        ⟨500, .error "storage error: no rows returned by a query that expected to return at least one row" "internal"⟩
  | cancelled {id j u} (row : u.db.job? id = some j) (allowed : j.status ∈ cancellable)
      (after : u.after.job? id = some (j.setCancelled u.env.now)) :
      Told now [u] (.cancelJob id) ⟨200, .job (j.setCancelled u.env.now)⟩
  | requeued {id j u v} (row : u.db.job? id = some j) (allowed : j.status ∈ retryable)
      (after : u.after.job? id = some (j.setRequeued u.env.now)) (unfiled : v.after.deadLetter? id = none) :
      Told now [u, v] (.retryJob id) ⟨200, .job (j.setRequeued u.env.now)⟩
  | noJob {request id u v} (asked : request = .cancelJob id ∨ request = .retryJob id) (quiet : Quiet [u, v])
      (absent : v.db.job? id = none) : Told now [u, v] request ⟨404, .error ("job not found: " ++ text id) "not_found"⟩
  /-- The status is the one read after the refusal; other clients may have brought the job there. -/
  | notPermitted {request id op allowed j u v}
      (asked : request = .cancelJob id ∧ op = "cancel" ∧ allowed = cancellable ∨
        request = .retryJob id ∧ op = "retry" ∧ allowed = retryable)
      (quiet : Quiet [u, v]) (refused : ∀ k, u.db.job? id = some k → k.status ∉ allowed) (row : v.db.job? id = some j) :
      Told now [u, v] request
        ⟨409, .error ("operation \x27" ++ op ++ "\x27 not permitted while job is " ++ j.status.asStr) "conflict"⟩
  | ensured {name queue u v} (there : queue ∈ v.db.queues) (named : queue.name = name) :
      Told now [u, v] (.createQueue name) ⟨201, .queue queue⟩
  | flagged {request name paused queue u} (asked : request = .pauseQueue name ∧ paused = true ∨
        request = .resumeQueue name ∧ paused = false) (there : queue ∈ u.after.queues)
      (named : queue.name = name) (flag : queue.paused = paused) : Told now [u] request ⟨200, .queue queue⟩
  | noQueue {request name u} (asked : request = .pauseQueue name ∨ request = .resumeQueue name) (quiet : Quiet [u])
      (absent : u.db.queue? name = none) : Told now [u] request ⟨404, .error ("queue not found: " ++ name) "not_found"⟩
  | purged {olderThanSecs rows u} (count : u.after.jobs.length + rows = u.db.jobs.length)
      (left : ∀ j, j ∈ u.after.jobs ↔ j ∈ u.db.jobs ∧ ¬ (j.status ∈ [.completed, .cancelled] ∧
        j.updatedAt < now - seconds (max (olderThanSecs.getD defaultPurgeAge).toInt 0))) :
      Told now [u] (.purgeFinished olderThanSecs) ⟨200, .deleted rows⟩

variable {now : Int} {us vs : List Commit} {u : Commit} {result : Except QueueError Value}

/-! ## Submission -/

/-- What comes of a job that a submission was normalised to. -/
theorem submitted {new : NewJob} {job : NormalizedJob} (ok : new.normalized now = .ok job) (env : Env) :
    Submitted now new (job.row env) := by
  unfold NewJob.normalized at ok
  simp only at ok
  split_ifs at ok
  split at ok
  · cases ok
  · cases ok
    constructor <;> rfl

theorem Aside.nil : Aside [] := fun _ mem => absurd mem List.not_mem_nil

theorem Aside.cons (same : u.after.jobs = u.db.jobs) (aside : Aside us) : Aside (u :: us) := by
  intro v mem
  rcases List.mem_cons.1 mem with rfl | mem
  · exact same
  · exact aside v mem

/-- A unit that leaves `jobs` alone may come first in a submission. -/
theorem Told.aside {header : Option String} {new : NewJob} {response : Response}
    (told : Told text now us (.submitJob header new) response) (same : u.after.jobs = u.db.jobs) :
    Told text now (u :: us) (.submitJob header new) response := by
  cases told with
  | created aside inserted submitted =>
    rw [← List.cons_append]
    exact .created (aside.cons same) inserted submitted
  | existing aside there holds =>
    have aside := aside.cons same
    rw [← List.cons_append] at aside ⊢
    exact .existing aside there holds
  | purgedUnderway aside there holds gone =>
    have aside := aside.cons same
    rw [← List.cons_append] at aside ⊢
    exact .purgedUnderway aside there holds gone
  | noJob asked => rcases asked with asked | asked <;> cases asked
  | notPermitted asked => rcases asked with ⟨asked, -⟩ | ⟨asked, -⟩ <;> cases asked
  | flagged asked => rcases asked with ⟨asked, -⟩ | ⟨asked, -⟩ <;> cases asked
  | noQueue asked => rcases asked with asked | asked <;> cases asked

/-- The result is answered as the units were. -/
def Answered (now : Int) (us : List Commit) (r : Request) (result : Except QueueError Value) : Prop :=
  ∃ response, r.respond text result = some response ∧ Told text now us r response

section Submission

variable {header : Option String} {new : NewJob} {s : Submittable}

theorem Answered.aside (answered : Answered text now us (.submitJob header new) result)
    (same : u.after.jobs = u.db.jobs) : Answered text now (u :: us) (.submitJob header new) result := by
  obtain ⟨response, respond, told⟩ := answered
  exact ⟨response, respond, told.aside text same⟩

variable (ok : (withKey header new).normalized now = .ok s.job)
include ok

end Submission

/-! ## The other endpoints -/

end Api

end Djq
