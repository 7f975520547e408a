import Djq.Lifecycle.Epochs

/-!
# How far a job has got

Between two retries of an operator a job only moves on: every commit that changes
its status raises its `progress`, which the attempt budget bounds. So a job that
is looked at again and again shows at most so many statuses, however it is leased,
reported on, swept and cancelled.
-/

namespace Djq

open Relational Transition

/-- How far a row has got since it was submitted or retried. -/
def Job.progress (j : Job) : Int :=
  match j.status with
  | .queued | .scheduled | .retrying => 2 * j.attempts
  | .processing => 2 * j.attempts - 1
  | _ => 2 * j.maxAttempts

namespace Job

variable {j : Job}

theorem progress_waiting (waiting : j.status ∈ [.queued, .scheduled, .retrying]) : j.progress = 2 * j.attempts := by
  simp only [List.mem_cons, List.not_mem_nil, or_false] at waiting
  rcases waiting with status | status | status <;> rw [progress, status]

theorem progress_processing (processing : j.status = .processing) : j.progress = 2 * j.attempts - 1 := by
  rw [progress, processing]

theorem progress_ended (ended : j.status ∈ [.completed, .cancelled, .failed, .deadLettered]) :
    j.progress = 2 * j.maxAttempts := by
  simp only [List.mem_cons, List.not_mem_nil, or_false] at ended
  rcases ended with status | status | status | status <;> rw [progress, status]

/-- The three kinds of statuses. -/
theorem status_cases (j : Job) : j.status ∈ [.queued, .scheduled, .retrying] ∨ j.status = .processing ∨
    j.status ∈ [.completed, .cancelled, .failed, .deadLettered] := by
  cases j.status <;> simp

/-- Where a row within its budget can have got to. -/
theorem Budget.progress (ok : j.Budget) : 0 ≤ j.progress ∧ j.progress ≤ 2 * j.maxAttempts := by
  have bounds := ok.bounds
  obtain waiting | processing | ended := j.status_cases
  · have left := ok.waiting waiting
    rw [progress_waiting waiting]
    omega
  · have started := ok.started (by simp [processing])
    rw [progress_processing processing]
    omega
  · rw [progress_ended ended]
    omega

/-- A processing row that is let go has moved on. -/
theorem Budget.released {j' : Job} (ok : j.Budget) (processing : j.status = .processing)
    (attempts : j'.attempts = j.attempts) (maxAttempts : j'.maxAttempts = j.maxAttempts)
    (status : j'.status ≠ .processing) : j.progress < j'.progress := by
  have bounds := ok.bounds
  rw [progress_processing processing]
  obtain waiting | processing' | ended := j'.status_cases
  · rw [progress_waiting waiting]
    omega
  · exact absurd processing' status
  · rw [progress_ended ended]
    omega

end Job

/-- A commit that does not retry the job moves it on, or leaves its status. -/
theorem RowStep.moves_on {env : Env} {db : Db} {id : Uuid} {c : Call} {p : Progress} {r r' : Option Job} {j j' : Job}
    (life : RowStep env db id c p r r') (before : r = some j) (after : r' = some j') (ok : j.Budget) :
    (c.isRetry = true ∧ id ∈ c.written p) ∨ j.progress < j'.progress ∨
      (j.progress = j'.progress ∧ j.status = j'.status) := by
  cases life with
  | same =>
    obtain rfl := Option.some.inj (before.symm.trans after)
    exact .inr (.inr ⟨rfl, rfl⟩)
  | inserted => cases before
  | purged => cases after
  | requeued => exact .inl ⟨rfl, List.mem_singleton_self id⟩
  | @leased worker queues secs j waiting =>
    obtain rfl := Option.some.inj before
    obtain rfl := Option.some.inj after
    rw [Job.progress_waiting waiting, Job.progress_processing (Job.setLeased_status ..)]
    refine .inr (.inl ?_)
    show 2 * j.attempts < 2 * (j.attempts + 1) - 1
    omega
  | @renewed worker secs j processing =>
    obtain rfl := Option.some.inj before
    obtain rfl := Option.some.inj after
    have processing' : (j.setRenewed env.now secs).status = .processing := processing
    rw [Job.progress_processing processing, Job.progress_processing processing']
    exact .inr (.inr ⟨rfl, rfl⟩)
  | @cancelled j cancellable =>
    obtain rfl := Option.some.inj before
    obtain rfl := Option.some.inj after
    refine .inr (.inl ?_)
    obtain waiting | processing | ended := j.status_cases
    · have left := ok.waiting waiting
      rw [Job.progress_waiting waiting, Job.progress_ended (by simp)]
      show 2 * j.attempts < 2 * j.maxAttempts
      omega
    · exact ok.released processing rfl rfl (by simp)
    · simp only [List.mem_cons, List.not_mem_nil, or_false] at cancellable
      rcases cancellable with was | was | was | was <;> simp [was] at ended
  | @failed _ error _ j processing =>
    obtain rfl := Option.some.inj before
    obtain rfl := Option.some.inj after
    refine .inr (.inl (ok.released processing (Job.failUpdate_attempts ..) (Job.failUpdate_same ..).maxAttempts ?_))
    have status := j.failUpdate_status env.now j error
    intro still
    simp [still] at status
  | completed processing =>
    obtain rfl := Option.some.inj before
    obtain rfl := Option.some.inj after
    exact .inr (.inl (ok.released processing rfl rfl (by simp)))
  | expiredRetrying _ expired =>
    obtain rfl := Option.some.inj before
    obtain rfl := Option.some.inj after
    exact .inr (.inl (ok.released (Db.processing_of_expired expired) rfl rfl (by simp)))
  | expiredDeadLettered _ expired =>
    obtain rfl := Option.some.inj before
    obtain rfl := Option.some.inj after
    exact .inr (.inl (ok.released (Db.processing_of_expired expired) rfl rfl (by simp)))
  | expiredFailed _ expired =>
    obtain rfl := Option.some.inj before
    obtain rfl := Option.some.inj after
    exact .inr (.inl (ok.released (Db.processing_of_expired expired) rfl rfl (by simp)))

/-! ## Over a run -/

/-- How often the labels retry the job. -/
def retries (id : Uuid) (ls : List Label) : Nat := ls.countP (Label.wrote Call.isRetry id)

theorem retries_append (id : Uuid) (ls ls' : List Label) : retries id (ls ++ ls') = retries id ls + retries id ls' :=
  List.countP_append

theorem retries_snoc (id : Uuid) (ls : List Label) (l : Label) :
    retries id (ls ++ [l]) = retries id ls + if l.wrote Call.isRetry id then 1 else 0 := by
  rw [retries_append, retries, retries, List.countP_singleton]

/-- A row and the retries of its job so far: the second is further on. -/
def Ahead (a b : Nat × Job) : Prop := a.1 < b.1 ∨ a.1 = b.1 ∧ a.2.progress < b.2.progress

/-- The second is further on, or shows the same status. -/
def Onward (a b : Nat × Job) : Prop :=
  Ahead a b ∨ a.1 = b.1 ∧ a.2.progress = b.2.progress ∧ a.2.status = b.2.status

theorem Ahead.trans {a b c : Nat × Job} (first : Ahead a b) (second : Ahead b c) : Ahead a c := by
  unfold Ahead at *
  omega

instance : IsTrans (Nat × Job) Ahead := ⟨fun _ _ _ => Ahead.trans⟩

theorem Onward.refl (a : Nat × Job) : Onward a a := .inr ⟨rfl, rfl, rfl⟩

theorem Onward.trans {a b c : Nat × Job} (first : Onward a b) (second : Onward b c) : Onward a c := by
  obtain ahead | ⟨same, progress, status⟩ := first
  · obtain ahead' | ⟨same', progress', -⟩ := second
    · exact .inl (ahead.trans ahead')
    · refine .inl ?_
      unfold Ahead at *
      omega
  · obtain ahead' | ⟨same', progress', status'⟩ := second
    · refine .inl ?_
      unfold Ahead at *
      omega
    · exact .inr ⟨same.trans same', progress.trans progress', status.trans status'⟩

theorem Onward.shift {j j' : Job} {n n' : Nat} (onward : Onward (n, j) (n', j')) (k : Nat) :
    Onward (k + n, j) (k + n', j') := by
  obtain ahead | ⟨same, progress, status⟩ := onward
  · refine .inl ?_
    simp only [Ahead] at ahead ⊢
    omega
  · exact .inr ⟨congrArg (k + ·) same, progress, status⟩

/-- One step of the store, seen from a row. -/
theorem Step.onward {s s' : Sys} {l : Label} (sound : s.Sound) (step : Step s l s') {id : Uuid} {j j' : Job}
    (row : s.db.job? id = some j) (row' : s'.db.job? id = some j') (ok : j.Budget) :
    Onward (0, j) (if l.wrote Call.isRetry id then 1 else 0, j') := by
  obtain ⟨quiet, same⟩ | ⟨i, u, rfl, -, -, -, -, -, life⟩ := step.row sound id
  · obtain rfl := Option.some.inj (row.symm.trans (same.symm.trans row'))
    have silent : l.wrote Call.isRetry id = false := by
      cases l with
      | commit i u => exact absurd rfl (quiet i u)
      | _ => rfl
    rw [silent]
    exact .refl _
  · by_cases retried : (Label.commit i u).wrote Call.isRetry id = true
    · rw [if_pos retried]
      exact .inl (.inl Nat.zero_lt_one)
    · rw [if_neg retried]
      obtain retry | further | ⟨progress, status⟩ := life.moves_on row row' ok
      · exact absurd (Label.wrote_commit.2 retry) retried
      · exact .inl (.inr ⟨rfl, further⟩)
      · exact .inr ⟨rfl, progress, status⟩

/-- **A job moves on.** Its row is gone for good, or further on than it was. -/
theorem Run.onward {t : Int} {pre ls : List Label} {s s' : Sys} (before : Run Step (Sys.init t) pre s)
    (run : Run Step s ls s') {id : Uuid} {j : Job} (row : s.db.job? id = some j) :
    s'.db.job? id = none ∨
      ∃ j', s'.db.job? id = some j' ∧ SameSubmission j' j ∧ Onward (0, j) (retries id ls, j') := by
  have drawn : id ∈ s.issued := by
    have issued := (Sys.sound_of_run before).issued j (Db.job?_mem row)
    rwa [Db.job?_id row] at issued
  have result : id ∈ s'.issued ∧ (s'.db.job? id = none ∨
      ∃ j', s'.db.job? id = some j' ∧ SameSubmission j' j ∧ Onward (0, j) (retries id ls, j')) := by
    induction run with
    | nil => exact ⟨drawn, .inr ⟨j, row, .refl j, .refl _⟩⟩
    | @snoc ls s₁ l s₂ run last ih =>
      have all := before.append run
      have sound := Sys.sound_of_run all
      obtain ⟨drawn, gone | ⟨j₁, row₁, same, onward⟩⟩ := ih
      · exact ⟨last.issued drawn, .inl (last.stays_gone sound drawn gone)⟩
      · refine ⟨last.issued drawn, ?_⟩
        obtain ⟨j₂, row₂, same'⟩ | ⟨-, -, gone⟩ := last.row_kept sound row₁
        · have ok := Sys.budget_of_run all j₁ (Db.job?_mem row₁)
          have next := (last.onward sound row₁ row₂ ok).shift (retries id ls)
          rw [← retries_snoc] at next
          exact .inr ⟨j₂, row₂, same'.trans same, onward.trans next⟩
        · exact .inl gone
  exact result.2

end Djq
