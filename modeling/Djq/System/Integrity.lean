import Djq.Lease.Pause
import Djq.Submission.Idempotency
import Djq.System.Attempts
import Djq.System.RowInvariants
import Djq.Worker.Registry

/-!
# The constraints of the schema

Every constraint that `0001_init.sql` declares holds in every state any run of
clients can reach, so no statement of the store but the INSERT of a submission ever
has one to violate.
-/

namespace Djq

open Relational Transition

/-- The constraints of the migration, and the range of the INTEGER columns that are
computed in SQL. -/
structure Db.Valid (db : Db) : Prop where
  queues_pkey : Keyed Queue.name db.queues
  jobs_pkey : Keyed Job.id db.jobs
  jobs_queue_fkey : ∀ j ∈ db.jobs, ∃ q ∈ db.queues, q.name = j.queue
  jobs_check : ∀ j ∈ db.jobs, j.checks = true
  jobs_idem_uniq : KeyUnique db.jobs
  jobs_attempts_range : ∀ j ∈ db.jobs, 0 ≤ j.attempts ∧ j.attempts ≤ j.maxAttempts ∧ j.maxAttempts ≤ 100
  attempts_pkey : Keyed JobAttempt.id db.attempts
  attempts_id_seq : ∀ a ∈ db.attempts, a.id < db.attemptSeq
  attempts_job_fkey : ∀ a ∈ db.attempts, ∃ j ∈ db.jobs, j.id = a.jobId
  workers_pkey : Keyed Worker.id db.workers
  dead_letter_pkey : Keyed DeadLetterJob.id db.deadLetters

/-! ## The dead letters -/

/-- The INSERTs into `dead_letter_jobs` keep its primary key. -/
theorem Call.deadLetters_keyed (env : Env) (db : Db) (c : Call) (keyed : Keyed DeadLetterJob.id db.deadLetters) :
    Keyed DeadLetterJob.id (c.step env db).1.deadLetters := by
  cases c with
  | start request =>
    cases request with
    | cancelJob id =>
      rw [cancelJob_fst]
      exact keyed
    | retryJob id =>
      rw [retryJob_fst]
      exact keyed
    | leaseNext worker queues secs =>
      show Keyed DeadLetterJob.id (db.leaseNext env worker queues secs).1.deadLetters
      rw [Db.leaseNext_deadLetters]
      exact keyed
    | completeJob id worker result =>
      rw [completeJob_fst, Db.completeJob_deadLetters]
      exact keyed
    | failJob id worker error timedOut =>
      rw [failJob_fst]
      obtain eq | ⟨current, -, eq⟩ := db.failJob_fst env id worker error timedOut
      · rw [eq]
        exact keyed
      · rw [eq]
        show Keyed DeadLetterJob.id (if _ then _ else _)
        split
        · exact keyed.insertIgnore
        · exact keyed
    | recoverExpiredLeases limit =>
      rw [recoverExpiredLeases_fst]
      split
      · exact keyed
      · exact keyed
    | _ => exact keyed
  | submitInsert s =>
    rw [submitInsert_fst, Db.insertJob_deadLetters]
    exact keyed
  | submitReadQueue s =>
    rw [submitReadQueue_fst]
    exact keyed
  | submitLookup s =>
    rw [submitLookup_fst]
    exact keyed
  | submitFallback s =>
    rw [submitFallback_fst]
    exact keyed
  | removeDeadLetter job => exact keyed.deleteWhere
  | recoverDeadLetter limit before => exact keyed.insertBatch _ _
  | _ => exact keyed

theorem Sys.deadLetters_keyed_of_run {t : Int} {ls : List Label} {s : Sys} (run : Run Step (Sys.init t) ls s) :
    Keyed DeadLetterJob.id s.db.deadLetters := by
  apply run.invariant
  · exact List.nodup_nil
  · intro s l s' keyed step
    cases step with
    | @commit i u inFlight on now fresh => exact u.call.deadLetters_keyed u.env u.db (on ▸ keyed)
    | _ => exact keyed

/-! ## The rows of `jobs` -/

/-- What the CHECKs and the types of a submission say of a row. -/
structure Job.InRange (j : Job) : Prop where
  checks : j.checks = true
  few : j.maxAttempts ≤ 100

/-- The columns the CHECKs read never change. -/
theorem Job.InRange.row_step {env : Env} {db : Db} {id : Uuid} {c : Call} {p : Progress} {r r' : Option Job}
    (life : RowStep env db id c p r r') (before : ∀ j, r = some j → j.InRange) : ∀ j, r' = some j → j.InRange := by
  intro j' after
  cases found : r with
  | none =>
    obtain ⟨s, -, -, rfl, -⟩ := life.appears found after
    exact ⟨s.sound.checks env, s.sound.maxAttempts.2⟩
  | some j =>
    obtain ⟨j'', after', same⟩ | ⟨-, -, gone⟩ := life.survives found
    · obtain rfl := Option.some.inj (after.symm.trans after')
      obtain ⟨checks, few⟩ := before j found
      constructor
      · rw [Job.checks, same.maxAttempts, same.timeoutSecs, same.backoffBaseSecs, same.backoffMaxSecs]
        exact checks
      · rw [same.maxAttempts]
        exact few
    · cases after.symm.trans gone

/-- **The schema is kept.** In every state that any interleaving of clients reaches,
calls given up half-way included, every key, reference, index and CHECK of the
schema holds, and the attempt counter stays within its INTEGER column. -/
theorem schema_kept {t : Int} {ls : List Label} {s : Sys} (run : Run Step (Sys.init t) ls s) : s.db.Valid := by
  have sound := Sys.sound_of_run run
  have attempts := Sys.attemptsSound_of_run run
  have ranges : ∀ j ∈ s.db.jobs, j.InRange := Sys.row_invariant Job.InRange.row_step run
  constructor
  · exact Sys.queue_keyed_of_run run
  · exact sound.keyed
  · exact sound.queues
  · intro j mem
    exact (ranges j mem).checks
  · exact Sys.keyUnique_of_run run
  · intro j mem
    obtain ⟨nonneg, most⟩ := (Sys.budget_of_run run j mem).bounds
    exact ⟨nonneg, most, (ranges j mem).few⟩
  · exact attempts.keyed
  · exact attempts.numbered
  · intro a mem
    obtain ⟨j, row⟩ := attempts.owned a mem
    exact ⟨j, Db.job?_mem row, Db.job?_id row⟩
  · exact Sys.workers_keyed_of_run run
  · exact Sys.deadLetters_keyed_of_run run

theorem schema_kept_purged :
    ((Sys.init 0).replay (Action.submit 0 (.sample 2 none NewJob.sample_twice) 7 ++ Action.call 1 (.cancelJob 7) ++
      [.tick 1] ++ Action.call 2 (.purgeFinished 1))).db.Valid :=
  schema_kept (@Sys.replay_run (Sys.init 0) _ (by decide))

end Djq
