import Djq.System.Serial

/-!
# Dead-letter rows mirror their jobs

`fail_job` and the reaper file a job where they dead-letter it, `retry_job`
removes the entry where it requeues the job. Between whole operations nothing is
under any other id, so `ON CONFLICT (id) DO NOTHING` never meets a conflict and
the entry is the one of the job's last exhaustion.
-/

namespace Djq

open Relational Transition

/-- A dead-letter row with the columns of the job it was filed for. -/
structure DeadLetterJob.Mirrors (e : DeadLetterJob) (j : Job) : Prop where
  id : e.id = j.id
  queue : e.queue = j.queue
  jobType : e.jobType = j.jobType
  payload : e.payload = j.payload
  attempts : e.attempts = j.attempts
  lastError : e.lastError = j.lastError
  originalCreatedAt : e.originalCreatedAt = some j.createdAt

/-- One entry under a dead-lettered job, and none otherwise. -/
def Dossier.Mirrored (d : Dossier) : Prop :=
  (∀ j, d.row = some j → j.status = .deadLettered → ∃ e, d.entries = [e] ∧ e.Mirrors j) ∧
  ((∀ j, d.row = some j → j.status ≠ .deadLettered) → d.entries = [])

namespace Dossier.Mirrored

variable {j : Job} {h : List JobAttempt} {f : List DeadLetterJob}

theorem none (empty : f = []) : Dossier.Mirrored ⟨.none, h, f⟩ := by
  constructor
  · intro _ same
    cases same
  · intro _
    exact empty

theorem alive (notDead : j.status ≠ .deadLettered) (empty : f = []) : Dossier.Mirrored ⟨some j, h, f⟩ := by
  constructor
  · intro _ same dead
    cases same
    exact absurd dead notDead
  · intro _
    exact empty

theorem dead (isDead : j.status = .deadLettered) {e : DeadLetterJob} (filed : f = [e]) (mirrors : e.Mirrors j) :
    Dossier.Mirrored ⟨some j, h, f⟩ := by
  constructor
  · intro _ same _
    cases same
    exact ⟨e, filed, mirrors⟩
  · intro notDead
    exact absurd isDead (notDead j rfl)

theorem empty (mirrored : Dossier.Mirrored ⟨some j, h, f⟩) (notDead : j.status ≠ .deadLettered) : f = [] := by
  apply mirrored.2
  intro _ same
  cases same
  exact notDead

end Dossier.Mirrored

/-- An entry filed where nothing was filed. -/
theorem insertIgnore_nil (e : DeadLetterJob) : insertIgnore DeadLetterJob.id [] e = [e] := rfl

/-- The row `fail_job` leaves, with what it leaves filed under the id. -/
theorem mirrored_fail (now : Int) (error : String) (j : Job) (h : List JobAttempt) :
    Dossier.Mirrored ⟨some (j.failUpdate now error j), h,
      if j.maxAttempts ≤ j.attempts ∧ j.deadLetter then
        insertIgnore DeadLetterJob.id [] (j.deadLetterRow now error)
      else []⟩ := by
  unfold Job.failUpdate
  by_cases exhausted : j.maxAttempts ≤ j.attempts
  · by_cases deadLetter : j.deadLetter = true
    · rw [if_pos exhausted, if_pos deadLetter, if_pos ⟨exhausted, deadLetter⟩, insertIgnore_nil]
      apply Dossier.Mirrored.dead rfl rfl
      constructor <;> rfl
    · rw [if_pos exhausted, if_neg deadLetter, if_neg fun both => deadLetter both.2]
      apply Dossier.Mirrored.alive _ rfl
      simp
  · rw [if_neg exhausted, if_neg fun both => exhausted both.1]
    apply Dossier.Mirrored.alive _ rfl
    simp

/-- Every operation keeps the entries of a job in step with its row. -/
theorem OpStep.mirrored {env : Env} {db : Db} {id : Uuid} {q : Request} {r : Except QueueError Value} {d d' : Dossier}
    (op : OpStep env db id q r d d') (before : d.Mirrored) : d'.Mirrored := by
  cases op with
  | same => exact before
  | @submitted s row h f eq =>
    have empty : f = [] := before.2 (by simp)
    apply Dossier.Mirrored.alive _ empty
    rw [eq]
    rcases s.sound.status with waiting | waiting <;> simp [waiting]
  | leased waiting =>
    refine .alive (by simp) (before.empty ?_)
    intro dead
    simp [dead] at waiting
  | renewed processing =>
    refine .alive (by simp [processing]) (before.empty ?_)
    simp [processing]
  | completed processing =>
    refine .alive (by simp) (before.empty ?_)
    simp [processing]
  | @failed _ error timedOut j h f processing =>
    obtain rfl : f = [] := before.empty (by simp [processing])
    exact mirrored_fail env.now error j _
  | cancelled cancellable =>
    refine .alive (by simp) (before.empty ?_)
    intro dead
    simp [dead] at cancellable
  | requeued => exact .alive (by simp) rfl
  | expiredRetrying _ expired =>
    refine .alive (by simp) (before.empty ?_)
    simp [Db.processing_of_expired expired]
  | @expiredDeadLettered _ _ j _ f _ expired =>
    obtain rfl : f = [] := before.empty (by simp [Db.processing_of_expired expired])
    apply Dossier.Mirrored.dead rfl (insertIgnore_nil _)
    constructor <;> rfl
  | expiredFailed _ expired =>
    refine .alive (by simp) (before.empty ?_)
    simp [Db.processing_of_expired expired]
  | purged ended =>
    apply Dossier.Mirrored.none
    apply before.empty
    intro dead
    simp [dead] at ended

/-- **Dead-letter rows mirror their jobs.** In every state, a dead-lettered job
has exactly one dead-letter row, with its columns, and every dead-letter row is
one of these. -/
theorem dead_letters_mirror {t : Int} {ls : List Serial.Label} {s : Serial}
    (run : Run Serial.Step (Serial.init t) ls s) :
    (∀ j ∈ s.db.jobs, j.status = .deadLettered →
      ∃ e, s.db.deadLetters.filter (fun e => decide (e.id = j.id)) = [e] ∧ e.Mirrors j) ∧
    ∀ e ∈ s.db.deadLetters, ∃ j ∈ s.db.jobs, j.id = e.id ∧ j.status = .deadLettered := by
  have mirrored : ∀ id, (s.db.dossier id).Mirrored :=
    Serial.dossier_invariant (.none rfl) (fun op before => op.mirrored before) run
  have keyed := (Serial.sound_of_run run).keyed
  constructor
  · intro j mem dead
    exact (mirrored j.id).1 j (keyed.lookup_self mem) dead
  · intro e mem
    by_contra missing
    have empty : s.db.entries e.id = [] := by
      apply (mirrored e.id).2
      intro j row dead
      exact missing ⟨j, Db.job?_mem row, Db.job?_id row, dead⟩
    have listed : e ∈ s.db.entries e.id := List.mem_filter.2 ⟨mem, decide_eq_true rfl⟩
    rw [empty] at listed
    exact List.not_mem_nil listed

/-- Dead-lettered, requeued and dead-lettered again. -/
def refileScript : List Serial.Action :=
  Serial.requests [.submit (.sample 1 none NewJob.sample_once), .leaseNext 1 ["emails"] 60,
    .failJob 7 1 "boom" false, .retryJob 7, .leaseNext 1 ["emails"] 60, .failJob 7 1 "bang" false]

theorem dead_letters_mirror_refiled :
    let s := outcome Serial.act (.init 0) refileScript
    (∀ j ∈ s.db.jobs, j.status = .deadLettered →
      ∃ e, s.db.deadLetters.filter (fun e => decide (e.id = j.id)) = [e] ∧ e.Mirrors j) ∧
    ∀ e ∈ s.db.deadLetters, ∃ j ∈ s.db.jobs, j.id = e.id ∧ j.status = .deadLettered :=
  dead_letters_mirror (outcome_run Serial.act_step (by decide))

end Djq
