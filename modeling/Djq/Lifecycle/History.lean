import Djq.System.Serial

/-!
# A job and its history

A lease opens an attempt row; the ways out of `processing` close it, except that
`cancel_job` leaves it as it is. `Chronicle` says what the rows of a job look like
at each status: all but the latest have failed or timed out, and the latest goes
with the row of the job. What `complete_job` marks as succeeded is then one row.
-/

namespace Djq

open Relational Transition

/-- Attempts that failed or timed out. -/
def Ended (rows : List JobAttempt) : Prop := ∀ a ∈ rows, a.status ∈ [AttemptStatus.failed, .timeout]

section Ended

variable {rows earlier : List JobAttempt} {a : JobAttempt} {set : JobAttempt → JobAttempt}

theorem Ended.nil : Ended [] := by
  intro a mem
  exact absurd mem List.not_mem_nil

theorem Ended.append (ended : Ended earlier) (last : a.status ∈ [AttemptStatus.failed, .timeout]) :
    Ended (earlier ++ [a]) := by
  intro b mem
  rcases List.mem_append.1 mem with mem | mem
  · exact ended b mem
  · obtain rfl := List.mem_singleton.1 mem
    exact last

theorem Ended.not_running (ended : Ended rows) : ∀ a ∈ rows, a.status ≠ .running := by
  intro a mem running
  have := ended a mem
  simp [running] at this

theorem Ended.not_succeeded (ended : Ended rows) : ∀ a ∈ rows, a.status ≠ .succeeded := by
  intro a mem succeeded
  have := ended a mem
  simp [succeeded] at this

theorem mem_earlier {b : JobAttempt} (running : a.status = .running) (notRunning : b.status ≠ .running)
    (mem : b ∈ earlier ++ [a]) : b ∈ earlier := by
  rcases List.mem_append.1 mem with mem | last
  · exact mem
  · obtain rfl := List.mem_singleton.1 last
    exact absurd running notRunning

/-- Closing the running rows changes the latest only. -/
theorem closeRunning_last (ended : Ended earlier) (running : a.status = .running) :
    closeRunning set (earlier ++ [a]) = earlier ++ [set a] := by
  have first : closeRunning set earlier = earlier := by
    apply updateWhere_none
    intro b mem
    exact decide_eq_false (ended.not_running b mem)
  have last : closeRunning set [a] = [set a] := by simp [closeRunning, updateWhere, running]
  have split : closeRunning set (earlier ++ [a]) = closeRunning set earlier ++ closeRunning set [a] := List.map_append
  rw [split, first, last]

theorem filter_running_last (ended : Ended earlier) (running : a.status = .running) :
    (earlier ++ [a]).filter (fun a => decide (a.status = .running)) = [a] := by
  have first : earlier.filter (fun a => decide (a.status = .running)) = [] := by
    rw [List.filter_eq_nil_iff]
    intro b mem
    simpa using ended.not_running b mem
  rw [List.filter_append, first, List.nil_append, List.filter_cons_of_pos (by simp [running]), List.filter_nil]

end Ended

/-! ## Row and history of one job -/

/-- The row of a job, if it is there, with the attempt rows it has. -/
inductive Chronicle : Option Job → List JobAttempt → Prop where
  | absent : Chronicle none []
  | idle {j rows} (notProcessing : j.status ≠ .processing) (notCompleted : j.status ≠ .completed) (ended : Ended rows) :
      Chronicle (some j) rows
  | running {j earlier a} (processing : j.status = .processing) (ended : Ended earlier) (running : a.status = .running)
      (number : a.attempt = j.attempts) (worker : a.workerId = j.lockedBy) : Chronicle (some j) (earlier ++ [a])
  | abandoned {j earlier a} (cancelled : j.status = .cancelled) (ended : Ended earlier) (running : a.status = .running) :
      Chronicle (some j) (earlier ++ [a])
  | succeeded {j earlier a} (completed : j.status = .completed) (ended : Ended earlier)
      (succeeded : a.status = .succeeded) (number : a.attempt = j.attempts) : Chronicle (some j) (earlier ++ [a])

namespace Chronicle

variable {j : Job} {rows : List JobAttempt}

theorem nil (chronicle : Chronicle none rows) : rows = [] := by
  cases chronicle
  rfl

theorem latest (chronicle : Chronicle (some j) rows) (processing : j.status = .processing) :
    ∃ earlier a, rows = earlier ++ [a] ∧ Ended earlier ∧ a.status = .running ∧ a.attempt = j.attempts ∧
      a.workerId = j.lockedBy := by
  cases chronicle with
  | idle notProcessing => exact absurd processing notProcessing
  | running _ ended running number worker => exact ⟨_, _, rfl, ended, running, number, worker⟩
  | abandoned cancelled => cases cancelled.symm.trans processing
  | succeeded completed => cases completed.symm.trans processing

theorem ended (chronicle : Chronicle (some j) rows) (notProcessing : j.status ≠ .processing)
    (notCompleted : j.status ≠ .completed) (notCancelled : j.status ≠ .cancelled) : Ended rows := by
  cases chronicle with
  | idle _ _ ended => exact ended
  | running processing => exact absurd processing notProcessing
  | abandoned cancelled => exact absurd cancelled notCancelled
  | succeeded completed => exact absurd completed notCompleted

/-- The latest attempt of a job that is processing, closed as failed or timed out. -/
theorem closed (chronicle : Chronicle (some j) rows) (processing : j.status = .processing) {j' : Job}
    {set : JobAttempt → JobAttempt} (ends : ∀ a, (set a).status ∈ [AttemptStatus.failed, .timeout])
    (notProcessing : j'.status ≠ .processing) (notCompleted : j'.status ≠ .completed) :
    Chronicle (some j') (closeRunning set rows) := by
  obtain ⟨earlier, a, rfl, ended, running, -⟩ := chronicle.latest processing
  rw [closeRunning_last ended running]
  exact .idle notProcessing notCompleted (ended.append (ends a))

/-- A row that succeeded is the latest, of a job that is completed. -/
theorem of_succeeded (chronicle : Chronicle (some j) rows) {a : JobAttempt} (mem : a ∈ rows)
    (succeeded : a.status = .succeeded) :
    j.status = .completed ∧ ∃ earlier, rows = earlier ++ [a] ∧ Ended earlier ∧ a.attempt = j.attempts := by
  have notRunning : a.status ≠ .running := by simp [succeeded]
  cases chronicle with
  | idle _ _ ended => exact absurd succeeded (ended.not_succeeded a mem)
  | running _ ended running => exact absurd succeeded (ended.not_succeeded a (mem_earlier running notRunning mem))
  | abandoned _ ended running => exact absurd succeeded (ended.not_succeeded a (mem_earlier running notRunning mem))
  | succeeded completed ended _ number =>
    rcases List.mem_append.1 mem with earlier | last
    · exact absurd succeeded (ended.not_succeeded a earlier)
    · obtain rfl := List.mem_singleton.1 last
      exact ⟨completed, _, rfl, ended, number⟩

theorem completed_iff (chronicle : Chronicle (some j) rows) :
    j.status = .completed ↔ ∃ a ∈ rows, a.status = .succeeded := by
  constructor
  · intro completed
    cases chronicle with
    | idle _ notCompleted => exact absurd completed notCompleted
    | running processing => cases processing.symm.trans completed
    | abandoned cancelled => cases cancelled.symm.trans completed
    | succeeded _ _ succeeded => exact ⟨_, List.mem_append_right _ (List.mem_singleton_self _), succeeded⟩
  · rintro ⟨a, mem, succeeded⟩
    exact (chronicle.of_succeeded mem succeeded).1

end Chronicle

theorem JobAttempt.setEnded_ends (now : Int) (error : String) (timedOut : Bool) (a : JobAttempt) :
    (a.setEnded now error timedOut).status ∈ [AttemptStatus.failed, .timeout] := by
  cases timedOut <;> simp [setEnded]

theorem JobAttempt.setExpired_ends (now : Int) (a : JobAttempt) :
    (a.setExpired now).status ∈ [AttemptStatus.failed, .timeout] := by
  simp [setExpired]

section Step

variable {env : Env} {db : Db} {id : Uuid} {q : Request} {r : Except QueueError Value} {d d' : Dossier}

/-- Every operation keeps the history of a job in step with its row. -/
theorem OpStep.chronicle (op : OpStep env db id q r d d') (before : Chronicle d.row d.history) :
    Chronicle d'.row d'.history := by
  cases op with
  | same => exact before
  | @submitted s row h f eq =>
    obtain rfl := before.nil
    rw [eq]
    rcases s.sound.status with waiting | waiting
    · exact .idle (by simp [waiting]) (by simp [waiting]) .nil
    · exact .idle (by simp [waiting]) (by simp [waiting]) .nil
  | @leased worker queues secs j h f waiting =>
    have ended : Ended h := by
      apply before.ended <;> intro was <;> simp [was] at waiting
    exact .running rfl ended rfl rfl rfl
  | @renewed worker secs j h f processing =>
    obtain ⟨earlier, a, rfl, ended, running, number, holder⟩ := before.latest processing
    exact .running processing ended running number holder
  | completed processing =>
    obtain ⟨earlier, a, rfl, ended, running, number, -⟩ := before.latest processing
    show Chronicle _ (closeRunning _ (earlier ++ [a]))
    rw [closeRunning_last ended running]
    exact .succeeded rfl ended rfl number
  | @failed worker error timedOut j h f processing =>
    have status := j.failUpdate_status env.now j error
    apply before.closed processing (JobAttempt.setEnded_ends env.now error timedOut) <;>
      intro was <;> simp [was] at status
  | @cancelled j h f cancellable =>
    by_cases processing : j.status = .processing
    · obtain ⟨earlier, a, rfl, ended, running, -⟩ := before.latest processing
      exact .abandoned rfl ended running
    · have ended : Ended h := by
        apply before.ended processing <;> intro was <;> simp [was] at cancellable
      exact .idle (by simp) (by simp) ended
  | @requeued j h f finished =>
    have ended : Ended h := by
      apply before.ended <;> intro was <;> simp [was] at finished
    exact .idle (by simp) (by simp) ended
  | expiredRetrying _ expired =>
    apply before.closed (Db.processing_of_expired expired) (JobAttempt.setExpired_ends env.now) <;>
      simp
  | expiredDeadLettered _ expired =>
    apply before.closed (Db.processing_of_expired expired) (JobAttempt.setExpired_ends env.now) <;>
      simp
  | expiredFailed _ expired =>
    apply before.closed (Db.processing_of_expired expired) (JobAttempt.setExpired_ends env.now) <;>
      simp
  | purged => exact .absent

end Step

theorem Serial.chronicle_of_run {t : Int} {ls : List Serial.Label} {s : Serial}
    (run : Run Serial.Step (Serial.init t) ls s) (id : Uuid) : Chronicle (s.db.job? id) (s.db.history id) :=
  Serial.dossier_invariant (P := fun d => Chronicle d.row d.history) .absent (fun op before => op.chronicle before) run id

/-! ## Completion -/

/-- **Completion and history agree.** In every state a job is completed exactly
when one of its attempts has succeeded; that attempt then carries the job's
attempt number, and every other attempt of the job came before it and failed or
timed out. -/
theorem completion_and_history_agree {t : Int} {ls : List Serial.Label} {s : Serial}
    (run : Run Serial.Step (Serial.init t) ls s) {j : Job} (mem : j ∈ s.db.jobs) :
    (j.status = .completed ↔ ∃ a ∈ s.db.attempts, a.jobId = j.id ∧ a.status = .succeeded) ∧
    ∀ a ∈ s.db.attempts, a.jobId = j.id → a.status = .succeeded →
      a.attempt = j.attempts ∧
      ∀ b ∈ s.db.attempts, b.jobId = j.id → b ≠ a → b.id < a.id ∧ b.status ∈ [AttemptStatus.failed, .timeout] := by
  have sound := Serial.sound_of_run run
  have chronicle := Serial.chronicle_of_run run j.id
  have row : s.db.job? j.id = some j := sound.keyed.lookup_self mem
  have increasing := sound.ordered.history j.id
  rw [row] at chronicle
  constructor
  · rw [chronicle.completed_iff]
    simp only [Db.mem_history, and_assoc]
  · intro a aMem aJob succeeded
    obtain ⟨-, earlier, rows, ended, number⟩ := chronicle.of_succeeded (Db.mem_history.2 ⟨aMem, aJob⟩) succeeded
    refine ⟨number, ?_⟩
    intro b bMem bJob other
    have listed : b ∈ earlier ++ [a] := rows ▸ Db.mem_history.2 ⟨bMem, bJob⟩
    have before : b ∈ earlier := (List.mem_append.1 listed).resolve_right fun last => other (List.mem_singleton.1 last)
    rw [rows] at increasing
    exact ⟨(List.pairwise_append.1 increasing).2.2 b before a (List.mem_singleton_self a), ended b before⟩

/-- A first attempt that fails, a second that succeeds. -/
def secondTryScript : List Serial.Action :=
  Serial.requests [.submit (.sample 2 none NewJob.sample_twice), .leaseNext 1 ["emails"] 60,
    .failJob 7 1 "boom" false] ++
    [.tick 300000000, .serve (.leaseNext 2 ["emails"] 60) 20, .serve (.completeJob 7 2 none) 21]

theorem completion_and_history_agree_second :
    let s := outcome Serial.act (.init 0) secondTryScript
    ∃ j ∈ s.db.jobs,
      (j.status = .completed ↔ ∃ a ∈ s.db.attempts, a.jobId = j.id ∧ a.status = .succeeded) ∧
      ∀ a ∈ s.db.attempts, a.jobId = j.id → a.status = .succeeded →
        a.attempt = j.attempts ∧
        ∀ b ∈ s.db.attempts, b.jobId = j.id → b ≠ a → b.id < a.id ∧ b.status ∈ [AttemptStatus.failed, .timeout] := by
  refine ⟨_, List.mem_cons_self, ?_⟩
  exact completion_and_history_agree (outcome_run Serial.act_step (by decide)) List.mem_cons_self

/-! ## Running attempts -/

/-- A job that is processing has one running attempt, the one of its lease; any
other has none. -/
def RunningRowsAgree (db : Db) (j : Job) : Prop :=
  (j.status = .processing →
    ∃ a, (db.history j.id).filter (fun a => decide (a.status = .running)) = [a] ∧ a.attempt = j.attempts ∧
      a.workerId = j.lockedBy) ∧
  (j.status ≠ .processing → ∀ a ∈ db.attempts, a.jobId = j.id → a.status ≠ .running)

/-- The operation cancels the job `id` while it is processing. -/
def Request.CancelsRunning (id : Uuid) (row : Option Job) (q : Request) (r : Except QueueError Value) : Prop :=
  q = .cancelJob id ∧ id ∈ q.written r ∧ ∃ j, row = some j ∧ j.status = .processing

def Serial.Label.CancelsRunning (id : Uuid) : Serial.Label → Prop
  | .serve o => o.request.CancelsRunning id (o.db.job? id) o.reply
  | _ => False

/-- A cancelled job with a running attempt. -/
def Stray (row : Option Job) (rows : List JobAttempt) : Prop :=
  ∃ j, row = some j ∧ j.status = .cancelled ∧ ∃ a ∈ rows, a.status = .running

theorem not_stray {j : Job} (notCancelled : j.status ≠ .cancelled) (rows : List JobAttempt) : ¬ Stray (some j) rows := by
  rintro ⟨_, ⟨⟩, cancelled, -⟩
  exact notCancelled cancelled

theorem Chronicle.agree_iff {db : Db} {j : Job} (chronicle : Chronicle (some j) (db.history j.id)) :
    RunningRowsAgree db j ↔ ¬ Stray (some j) (db.history j.id) := by
  constructor
  · rintro ⟨-, others⟩ ⟨_, ⟨⟩, cancelled, a, mem, running⟩
    obtain ⟨mem, isJob⟩ := Db.mem_history.1 mem
    exact others (by simp [cancelled]) a mem isJob running
  · intro notStray
    constructor
    · intro processing
      obtain ⟨earlier, a, rows, ended, running, number, worker⟩ := chronicle.latest processing
      refine ⟨a, ?_, number, worker⟩
      rw [rows]
      exact filter_running_last ended running
    · intro notProcessing a mem isJob running
      have listed : a ∈ db.history j.id := Db.mem_history.2 ⟨mem, isJob⟩
      generalize db.history j.id = rows at *
      cases chronicle with
      | idle _ _ ended => exact ended.not_running a listed running
      | running processing => exact notProcessing processing
      | abandoned cancelled => exact notStray ⟨j, rfl, cancelled, a, listed, running⟩
      | succeeded _ ended succeeded =>
        rcases List.mem_append.1 listed with earlier | last
        · exact ended.not_running a earlier running
        · obtain rfl := List.mem_singleton.1 last
          cases running.symm.trans succeeded

section Step

variable {env : Env} {db : Db} {id : Uuid} {q : Request} {r : Except QueueError Value} {d d' : Dossier}

/-- A stray attempt is left by cancelling a job that is processing, and stays. -/
theorem OpStep.stray (op : OpStep env db id q r d d') (before : Chronicle d.row d.history) {j' : Job}
    (after : d'.row = some j') :
    Stray d'.row d'.history ↔ q.CancelsRunning id d.row r ∨ Stray d.row d.history := by
  have settled : ∀ j' : Job, d'.row = some j' → j'.status ≠ .cancelled → (∀ k, q ≠ .cancelJob k) →
      (∀ j, d.row = some j → j.status ≠ .cancelled) →
      (Stray d'.row d'.history ↔ q.CancelsRunning id d.row r ∨ Stray d.row d.history) := by
    intro j' after notCancelled other wasNot
    rw [after]
    constructor
    · intro stray
      exact absurd stray (not_stray notCancelled _)
    · rintro (⟨same, -⟩ | ⟨j, row, cancelled, -⟩)
      · exact absurd same (other id)
      · exact absurd cancelled (wasNot j row)
  cases op with
  | same quiet =>
    constructor
    · exact .inr
    · rintro (⟨-, writes, -⟩ | stray)
      · exact absurd writes quiet
      · exact stray
  | @submitted s row h f eq =>
    apply settled row rfl _ (by simp) (by simp)
    rw [eq]
    rcases s.sound.status with waiting | waiting <;> simp [waiting]
  | leased waiting =>
    apply settled _ rfl (by simp) (by simp)
    intro _ same cancelled
    cases same
    simp [cancelled] at waiting
  | renewed processing =>
    apply settled _ rfl (by simp [processing]) (by simp)
    intro _ same
    cases same
    simp [processing]
  | completed processing =>
    apply settled _ rfl (by simp) (by simp)
    intro _ same
    cases same
    simp [processing]
  | @failed worker error timedOut j h f processing =>
    have status := j.failUpdate_status env.now j error
    apply settled _ rfl _ (by simp)
    · intro _ same
      cases same
      simp [processing]
    · intro cancelled
      simp [cancelled] at status
  | @cancelled j h f cancellable isId =>
    by_cases processing : j.status = .processing
    · obtain ⟨earlier, a, rfl, ended, running, -⟩ := before.latest processing
      constructor
      · intro _
        exact .inl ⟨rfl, List.mem_singleton_self id, j, rfl, processing⟩
      · intro _
        exact ⟨_, rfl, rfl, a, List.mem_append_right _ (List.mem_singleton_self a), running⟩
    · have ended : Ended h := by
        apply before.ended processing <;> intro was <;> simp [was] at cancellable
      constructor
      · rintro ⟨_, ⟨⟩, -, a, mem, running⟩
        exact absurd running (ended.not_running a mem)
      · rintro (⟨-, -, _, ⟨⟩, was⟩ | ⟨_, ⟨⟩, was, -⟩)
        · exact absurd was processing
        · simp [was] at cancellable
  | requeued finished =>
    apply settled _ rfl (by simp) (by simp)
    intro _ same cancelled
    cases same
    simp [cancelled] at finished
  | expiredRetrying _ expired =>
    apply settled _ rfl (by simp) (by simp)
    intro _ same
    cases same
    simp [Db.processing_of_expired expired]
  | expiredDeadLettered _ expired =>
    apply settled _ rfl (by simp) (by simp)
    intro _ same
    cases same
    simp [Db.processing_of_expired expired]
  | expiredFailed _ expired =>
    apply settled _ rfl (by simp) (by simp)
    intro _ same
    cases same
    simp [Db.processing_of_expired expired]
  | purged => cases after

end Step

/-- A stray attempt goes back to one cancellation of the run, and every such
cancellation leaves one for as long as the job is there. -/
theorem Serial.stray_of_run {t : Int} {ls : List Serial.Label} {s : Serial}
    (run : Run Serial.Step (Serial.init t) ls s) (id : Uuid) {j : Job} (row : s.db.job? id = some j) :
    Stray (s.db.job? id) (s.db.history id) ↔ ∃ l ∈ ls, l.CancelsRunning id := by
  induction run generalizing j with
  | nil => exact absurd (Db.job?_mem row) List.not_mem_nil
  | @snoc ls s l s' before last ih =>
    have sound := Serial.sound_of_run before
    have one : (∃ l' ∈ ls ++ [l], l'.CancelsRunning id) ↔ l.CancelsRunning id ∨ ∃ l' ∈ ls, l'.CancelsRunning id := by
      simp only [List.mem_append, List.mem_singleton, or_and_right, exists_or, exists_eq_left, or_comm]
    rw [one]
    obtain ⟨other, same⟩ | ⟨o, rfl, on, -, fresh, op⟩ := last.dossier sound id
    · have row₀ : s'.db.job? id = s.db.job? id := congrArg Dossier.row same
      have history₀ : s'.db.history id = s.db.history id := congrArg Dossier.history same
      have quiet : ¬ l.CancelsRunning id := by
        cases l with
        | serve o => exact absurd rfl (other o)
        | _ => exact fun cancels => cancels
      rw [row₀, history₀, ih (row₀ ▸ row), or_iff_right quiet]
    · have step := op.stray (Serial.chronicle_of_run before id) row
      have here : (Serial.Label.serve o).CancelsRunning id ↔ o.request.CancelsRunning id (s.db.job? id) o.reply := by
        rw [← on]
        rfl
      refine step.trans (or_congr here.symm ?_)
      cases was : s.db.job? id with
      | some j₀ => exact ih was
      | none =>
        constructor
        · rintro ⟨_, absent, -⟩
          cases was.symm.trans absent
        · rintro ⟨l', mem, cancels⟩
          cases l' with
          | serve o' =>
            have drawn := Serial.issued_of_written before mem cancels.2.1
            exact absurd (op.born was row ▸ drawn) fresh
          | _ => exact cancels.elim

/-- In every state, the running attempts are the one of each job that is processing. -/
def RunningRowsOfRunningJobs : Prop :=
  ∀ (t : Int) (ls : List Serial.Label) (s : Serial), Run Serial.Step (Serial.init t) ls s →
    ∀ j ∈ s.db.jobs, RunningRowsAgree s.db j

/-- Leased, and cancelled by an operator. -/
def cancelRunningScript : List Serial.Action :=
  Serial.requests [.submit (.sample 2 none NewJob.sample_twice), .leaseNext 1 ["emails"] 60, .cancelJob 7]

/-- The attempt of a job cancelled while it was processing is left running. -/
theorem not_runningRowsOfRunningJobs : ¬ RunningRowsOfRunningJobs := by
  intro agree
  have run := @outcome_run _ _ _ Serial.act Serial.Step Serial.act_step (.init 0) cancelRunningScript (by decide)
  have others := (agree 0 _ _ run _ List.mem_cons_self).2 (by decide)
  exact others _ List.mem_cons_self (by decide) (by decide)

/-- **Running attempts belong to running jobs**, as long as none is cancelled: in
every state, the running attempts of a job are the one of its lease if it is
processing and none otherwise, exactly when no operation of the run cancelled it
while it was processing. -/
theorem running_rows_agree_iff {t : Int} {ls : List Serial.Label} {s : Serial}
    (run : Run Serial.Step (Serial.init t) ls s) {j : Job} (mem : j ∈ s.db.jobs) :
    RunningRowsAgree s.db j ↔ ∀ l ∈ ls, ¬ l.CancelsRunning j.id := by
  have row : s.db.job? j.id = some j := (Serial.sound_of_run run).keyed.lookup_self mem
  have chronicle := Serial.chronicle_of_run run j.id
  have stray := Serial.stray_of_run run j.id row
  rw [row] at chronicle stray
  rw [chronicle.agree_iff, stray]
  push Not
  rfl

theorem running_rows_agree_iff_second :
    let s := outcome Serial.act (.init 0) secondTryScript
    ∃ j ∈ s.db.jobs, (RunningRowsAgree s.db j ↔
      ∀ l ∈ script Serial.act (.init 0) secondTryScript, ¬ l.CancelsRunning j.id) := by
  refine ⟨_, List.mem_cons_self, ?_⟩
  exact running_rows_agree_iff (outcome_run Serial.act_step (by decide)) List.mem_cons_self

end Djq
