import Djq.Lifecycle.History

/-!
# What `last_error` names

`fail_job` writes the error it is given into the job and its attempt. The reaper
writes `lease expired` into the attempt, and into the job only where
`last_error` is still NULL; `lease_next` leaves `last_error` as it is. After an
expired lease `last_error` is therefore the text of the last `fail_job`, if there
has been one since the job was submitted or requeued.
-/

namespace Djq

open Relational Transition

/-- How an attempt ended. -/
inductive Ending where
  | reported (error : String)
  | expired
  deriving DecidableEq

/-- The error of the latest accepted `fail_job` of the job `id` since it was
submitted or last requeued, after one more operation. -/
def Request.failure (id : Uuid) (q : Request) (r : Except QueueError Value) (last : Option String) : Option String :=
  if id ∈ q.written r then
    match q with
    | .failJob _ _ error _ => some error
    | .retryJob _ => none
    | _ => last
  else last

/-- How the latest attempt of the job `id` ended, after one more operation. -/
def Request.ending (id : Uuid) (q : Request) (r : Except QueueError Value) (last : Option Ending) : Option Ending :=
  if id ∈ q.written r then
    match q with
    | .failJob _ _ error _ => some (.reported error)
    | .recoverExpiredLeases _ => some .expired
    | _ => last
  else last

theorem Request.failure_quiet {id : Uuid} {q : Request} {r : Except QueueError Value} (quiet : id ∉ q.written r)
    (last : Option String) : q.failure id r last = last := if_neg quiet

/-- Only a report and a retry by an operator change which failure was the last. -/
theorem Request.failure_kept {id : Uuid} {q : Request} {r : Except QueueError Value} {last : Option String}
    (noReport : ∀ job worker error timedOut, q ≠ .failJob job worker error timedOut)
    (noRetry : ∀ job, q ≠ .retryJob job) : q.failure id r last = last := by
  unfold Request.failure
  split
  · cases q with
    | failJob job worker error timedOut => exact absurd rfl (noReport job worker error timedOut)
    | retryJob job => exact absurd rfl (noRetry job)
    | _ => rfl
  · rfl

theorem Request.ending_quiet {id : Uuid} {q : Request} {r : Except QueueError Value} (quiet : id ∉ q.written r)
    (last : Option Ending) : q.ending id r last = last := if_neg quiet

def lastFailure (id : Uuid) (ls : List Serial.Label) : Option String :=
  ls.foldl (fun last l => match l with
    | .serve o => o.request.failure id o.reply last
    | _ => last) none

def lastEnding (id : Uuid) (ls : List Serial.Label) : Option Ending :=
  ls.foldl (fun last l => match l with
    | .serve o => o.request.ending id o.reply last
    | _ => last) none

section Fold

variable {id : Uuid} {ls : List Serial.Label}

theorem lastFailure_serve (o : Served) :
    lastFailure id (ls ++ [.serve o]) = o.request.failure id o.reply (lastFailure id ls) := by
  rw [lastFailure, List.foldl_append]
  rfl

theorem lastEnding_serve (o : Served) :
    lastEnding id (ls ++ [.serve o]) = o.request.ending id o.reply (lastEnding id ls) := by
  rw [lastEnding, List.foldl_append]
  rfl

theorem lastFailure_other {l : Serial.Label} (other : ∀ o, l ≠ .serve o) :
    lastFailure id (ls ++ [l]) = lastFailure id ls := by
  rw [lastFailure, List.foldl_append]
  cases l with
  | serve o => exact absurd rfl (other o)
  | _ => rfl

theorem lastEnding_other {l : Serial.Label} (other : ∀ o, l ≠ .serve o) :
    lastEnding id (ls ++ [l]) = lastEnding id ls := by
  rw [lastEnding, List.foldl_append]
  cases l with
  | serve o => exact absurd rfl (other o)
  | _ => rfl

/-- A job nothing has been written to has not failed. -/
theorem lastFailure_none (untouched : ∀ o, .serve o ∈ ls → id ∉ o.request.written o.reply) :
    lastFailure id ls = none := by
  induction ls using List.reverseRecOn with
  | nil => rfl
  | append_singleton ls l ih =>
    have before : lastFailure id ls = none := ih fun o mem => untouched o (List.mem_append_left _ mem)
    cases l with
    | serve o =>
      have quiet := untouched o (List.mem_append_right _ (List.mem_singleton_self _))
      rw [lastFailure_serve, Request.failure_quiet quiet, before]
    | _ => rw [lastFailure_other (by simp), before]

end Fold

/-! ## One job -/

/-- What the row and the attempts of a job say of its last failure. -/
structure Blamed (failure : Option String) (ending : Option Ending) (row : Option Job) (rows : List JobAttempt) :
    Prop where
  /-- Until the job completes, `last_error` is that of the last report or, before any, of an expired lease. -/
  text : ∀ j, row = some j → j.status ≠ .completed →
    j.lastError = failure ∨ (failure = none ∧ j.lastError = some "lease expired")
  running : ∀ a ∈ rows, a.status = .running → a.error = none
  ended : ∀ j, row = some j → j.status ∈ [.retrying, .failed, .deadLettered] → ∃ earlier a, rows = earlier ++ [a] ∧
    ((∃ error, ending = some (.reported error) ∧ a.error = some error ∧ j.lastError = some error) ∨
      (ending = some .expired ∧ a.error = some "lease expired" ∧
        j.lastError = some (failure.getD "lease expired")))

namespace Blamed

variable {failure failure' : Option String} {ending ending' : Option Ending} {j j' : Job} {rows : List JobAttempt}

/-- A step to a status at which no attempt is the latest to have ended. -/
theorem keep {row : Option Job} (blamed : Blamed failure ending row rows) {rows' : List JobAttempt}
    (text : j'.status ≠ .completed → j'.lastError = failure' ∨ (failure' = none ∧ j'.lastError = some "lease expired"))
    (running : ∀ a ∈ rows', a.status = .running → a ∈ rows ∨ a.error = none)
    (notEnded : j'.status ∉ [.retrying, .failed, .deadLettered]) : Blamed failure' ending' (some j') rows' := by
  constructor
  · intro _ same
    cases same
    exact text
  · intro a mem isRunning
    rcases running a mem isRunning with old | empty
    · exact blamed.running a old isRunning
    · exact empty
  · intro _ same ended
    cases same
    exact absurd ended notEnded

/-- The reaper's text is that of the last report, if there is one. -/
theorem expiryError (blamed : Blamed failure ending (some j) rows) (processing : j.status = .processing) :
    j.expiryError = failure.getD "lease expired" := by
  rw [Job.expiryError]
  rcases blamed.text j rfl (by simp [processing]) with same | ⟨none, expired⟩
  · rw [same]
  · rw [expired, none]
    rfl

/-- The latest attempt of a job that is processing, closed by `set`. -/
theorem close (blamed : Blamed failure ending (some j) rows) (chronicle : Chronicle (some j) rows)
    (processing : j.status = .processing) {set : JobAttempt → JobAttempt} {text error : String}
    (stops : ∀ a, (set a).status ≠ .running) (blames : ∀ a, a.error = none → (set a).error = some error)
    (names : j'.lastError = some text)
    (agree : failure' = some text ∨ (failure' = none ∧ text = "lease expired"))
    (ends : (ending' = some (.reported error) ∧ text = error) ∨
      (ending' = some .expired ∧ error = "lease expired" ∧ text = failure'.getD "lease expired")) :
    Blamed failure' ending' (some j') (closeRunning set rows) := by
  obtain ⟨earlier, a, rfl, ended, running, -⟩ := chronicle.latest processing
  have blank : a.error = none := blamed.running a (List.mem_append_right _ (List.mem_singleton_self a)) running
  rw [closeRunning_last ended running]
  constructor
  · intro _ same _
    cases same
    rcases agree with same | ⟨none, expired⟩
    · exact .inl (names.trans same.symm)
    · exact .inr ⟨none, expired ▸ names⟩
  · intro b mem isRunning
    rcases List.mem_append.1 mem with mem | last
    · exact absurd isRunning (ended.not_running b mem)
    · obtain rfl := List.mem_singleton.1 last
      exact absurd isRunning (stops a)
  · intro _ same _
    cases same
    refine ⟨earlier, set a, rfl, ?_⟩
    rcases ends with ⟨reported, same⟩ | ⟨expired, is, same⟩
    · exact .inl ⟨error, reported, blames a blank, same ▸ names⟩
    · exact .inr ⟨expired, is ▸ blames a blank, same ▸ names⟩

/-- The same for a sweep that takes the job from a lease that expired. -/
theorem expire (blamed : Blamed failure ending (some j) rows) (chronicle : Chronicle (some j) rows) {env : Env}
    {id : Uuid} {limit : Int} {ids : List Uuid} (taken : id ∈ ids) (expired : Db.expired env j = true)
    (names : j'.lastError = some j.expiryError) :
    Blamed (Request.failure id (.recoverExpiredLeases limit) (.ok (.ids ids)) failure)
      (Request.ending id (.recoverExpiredLeases limit) (.ok (.ids ids)) ending) (some j')
      (closeRunning (JobAttempt.setExpired env.now) rows) := by
  have expires : Request.ending id (.recoverExpiredLeases limit) (.ok (.ids ids)) ending = some .expired := by
    simp [Request.ending, Request.written, taken]
  have processing := Db.processing_of_expired expired
  have text := blamed.expiryError processing
  have blames : ∀ a : JobAttempt, a.error = none → (a.setExpired env.now).error = some "lease expired" := by
    intro a empty
    simp [JobAttempt.setExpired, empty]
  rw [Request.failure_kept (by simp) (by simp), expires]
  apply blamed.close chronicle processing (by simp [JobAttempt.setExpired]) blames names
  · rw [text]
    cases failure with
    | none => exact .inr ⟨rfl, rfl⟩
    | some e => exact .inl rfl
  · exact .inr ⟨rfl, rfl, text⟩

end Blamed

section Step

variable {env : Env} {db : Db} {id : Uuid} {q : Request} {r : Except QueueError Value} {d d' : Dossier}
  {failure : Option String} {ending : Option Ending}

theorem OpStep.blamed (op : OpStep env db id q r d d') (chronicle : Chronicle d.row d.history)
    (newborn : id = env.uuid → failure = none) (before : Blamed failure ending d.row d.history) :
    Blamed (q.failure id r failure) (q.ending id r ending) d'.row d'.history := by
  cases op with
  | same quiet =>
    rw [Request.failure_quiet quiet, Request.ending_quiet quiet]
    exact before
  | @submitted s row h f eq isId =>
    have clear : failure = none := by
      apply newborn
      rw [← isId, eq]
      rfl
    rw [Request.failure_kept (by simp) (by simp), clear]
    apply before.keep
    · intro _
      rw [eq]
      exact .inl rfl
    · intro a mem _
      exact .inl mem
    · rw [eq]
      rcases s.sound.status with waiting | waiting <;> simp [waiting]
  | @leased worker queues secs j h f waiting =>
    rw [Request.failure_kept (by simp) (by simp)]
    apply before.keep
    · intro _
      apply before.text j rfl
      intro completed
      simp [completed] at waiting
    · intro a mem _
      rcases List.mem_append.1 mem with old | last
      · exact .inl old
      · obtain rfl := List.mem_singleton.1 last
        exact .inr rfl
    · simp
  | @renewed worker secs j h f processing =>
    rw [Request.failure_kept (by simp) (by simp)]
    apply before.keep
    · intro _
      apply before.text j rfl
      simp [processing]
    · intro a mem _
      exact .inl mem
    · simp [processing]
  | completed processing =>
    obtain ⟨earlier, a, rfl, ended, running, -⟩ := chronicle.latest processing
    apply before.keep
    · intro notCompleted
      exact absurd rfl notCompleted
    · intro b mem isRunning
      rw [closeRunning_last ended running] at mem
      rcases List.mem_append.1 mem with mem | last
      · exact absurd isRunning (ended.not_running b mem)
      · obtain rfl := List.mem_singleton.1 last
        cases isRunning
    · simp
  | @failed worker error timedOut j h f processing =>
    have reported : Request.failure id (.failJob id worker error timedOut) (.ok (.job (j.failUpdate env.now error j)))
        failure = some error := by simp [Request.failure, Request.written]
    have ends : Request.ending id (.failJob id worker error timedOut) (.ok (.job (j.failUpdate env.now error j)))
        ending = some (.reported error) := by simp [Request.ending, Request.written]
    rw [reported, ends]
    apply before.close chronicle processing _ (fun _ _ => rfl) (j.failUpdate_lastError env.now j error) (.inl rfl)
      (.inl ⟨rfl, rfl⟩)
    intro a
    cases timedOut <;> simp [JobAttempt.setEnded]
  | @cancelled j h f cancellable =>
    rw [Request.failure_kept (by simp) (by simp)]
    apply before.keep
    · intro _
      apply before.text j rfl
      intro completed
      simp [completed] at cancellable
    · intro a mem _
      exact .inl mem
    · simp
  | @requeued j h f finished =>
    have cleared : Request.failure id (.retryJob id) (.ok (.job (j.setRequeued env.now))) failure = none := by
      simp [Request.failure, Request.written]
    rw [cleared]
    apply before.keep
    · intro _
      exact .inl rfl
    · intro a mem _
      exact .inl mem
    · simp
  | expiredRetrying taken expired => exact before.expire chronicle taken expired rfl
  | expiredDeadLettered taken expired => exact before.expire chronicle taken expired rfl
  | expiredFailed taken expired => exact before.expire chronicle taken expired rfl
  | purged =>
    constructor
    · intro _ same
      cases same
    · intro a mem
      exact absurd mem List.not_mem_nil
    · intro _ same
      cases same

end Step

theorem Serial.blamed_of_run {t : Int} {ls : List Serial.Label} {s : Serial}
    (run : Run Serial.Step (Serial.init t) ls s) (id : Uuid) :
    Blamed (lastFailure id ls) (lastEnding id ls) (s.db.job? id) (s.db.history id) := by
  induction run with
  | nil =>
    constructor
    · intro j row
      exact absurd (Db.job?_mem row) List.not_mem_nil
    · intro a mem
      exact absurd mem List.not_mem_nil
    · intro j row
      exact absurd (Db.job?_mem row) List.not_mem_nil
  | @snoc ls s l s' before last ih =>
    obtain ⟨other, same⟩ | ⟨o, rfl, -, -, fresh, op⟩ := last.dossier (Serial.sound_of_run before) id
    · have row : s'.db.job? id = s.db.job? id := congrArg Dossier.row same
      have history : s'.db.history id = s.db.history id := congrArg Dossier.history same
      rw [lastFailure_other other, lastEnding_other other, row, history]
      exact ih
    · rw [lastFailure_serve, lastEnding_serve]
      apply op.blamed (Serial.chronicle_of_run before id) _ ih
      intro isNew
      apply lastFailure_none
      intro o' served writes
      exact fresh (isNew ▸ Serial.issued_of_written before served writes)

/-! ## Every job -/

/-- The most recently inserted attempt row of a job. -/
def Db.LatestAttempt (db : Db) (id : Uuid) (a : JobAttempt) : Prop :=
  a ∈ db.attempts ∧ a.jobId = id ∧ ∀ b ∈ db.attempts, b.jobId = id → b.id ≤ a.id

theorem Db.latest_of_history {db : Db} (ordered : db.Ordered) {id : Uuid} {earlier : List JobAttempt} {a : JobAttempt}
    (rows : db.history id = earlier ++ [a]) : db.LatestAttempt id a := by
  have increasing := ordered.history id
  rw [rows] at increasing
  have last : a ∈ db.history id := rows ▸ List.mem_append_right _ (List.mem_singleton_self a)
  obtain ⟨mem, isId⟩ := mem_history.1 last
  refine ⟨mem, isId, ?_⟩
  intro b bMem bId
  have listed : b ∈ earlier ++ [a] := rows ▸ mem_history.2 ⟨bMem, bId⟩
  rcases List.mem_append.1 listed with before | same
  · exact Nat.le_of_lt ((List.pairwise_append.1 increasing).2.2 b before a (List.mem_singleton_self a))
  · obtain rfl := List.mem_singleton.1 same
    exact Nat.le_refl _

/-- A job that waits for a retry or has failed for good is left with the error of its latest attempt. -/
def LastErrorOfLatestAttempt : Prop :=
  ∀ (t : Int) (ls : List Serial.Label) (s : Serial), Run Serial.Step (Serial.init t) ls s →
    ∀ j ∈ s.db.jobs, j.status ∈ [.retrying, .failed, .deadLettered] →
      ∀ a, s.db.LatestAttempt j.id a → j.lastError = a.error

/-- A first attempt reported as failed, a second whose lease runs out. -/
def failThenExpireScript : List Serial.Action :=
  Serial.requests [.submit (.sample 2 none NewJob.sample_twice), .leaseNext 1 ["emails"] 60,
    .failJob 7 1 "boom" false] ++
    [.tick 300000000, .serve (.leaseNext 2 ["emails"] 60) 20, .tick 600000000, .serve (.recoverExpiredLeases 100) 21]

/-- The reaper keeps the error of the first attempt, and names the second one's on its row only. -/
theorem not_lastErrorOfLatestAttempt : ¬ LastErrorOfLatestAttempt := by
  intro names
  have run := @outcome_run _ _ _ Serial.act Serial.Step Serial.act_step (.init 0) failThenExpireScript (by decide)
  have same := names 0 _ _ run _ List.mem_cons_self (by decide) _
    (@Db.latest_of_history _ (Serial.sound_of_run run).ordered 7 [_] _ rfl)
  exact absurd same (by decide)

/-- **What `last_error` names.** In every state, a job that is retrying, failed or
dead-lettered has the error of its latest attempt if `fail_job` ended it. If the
reaper did, the attempt has `lease expired`, and the job the error of the last
`fail_job` since it was submitted or requeued, or `lease expired` if there was none. -/
theorem last_error_of_run {t : Int} {ls : List Serial.Label} {s : Serial}
    (run : Run Serial.Step (Serial.init t) ls s) {j : Job} (mem : j ∈ s.db.jobs)
    (ended : j.status ∈ [.retrying, .failed, .deadLettered]) :
    ∃ a, s.db.LatestAttempt j.id a ∧
      ((∃ error, lastEnding j.id ls = some (.reported error) ∧ a.error = some error ∧ j.lastError = a.error) ∨
        (lastEnding j.id ls = some .expired ∧ a.error = some "lease expired" ∧
          j.lastError = some ((lastFailure j.id ls).getD "lease expired"))) := by
  have sound := Serial.sound_of_run run
  obtain ⟨earlier, a, rows, how⟩ := (Serial.blamed_of_run run j.id).ended j (sound.keyed.lookup_self mem) ended
  refine ⟨a, Db.latest_of_history sound.ordered rows, ?_⟩
  rcases how with ⟨error, reported, blames, names⟩ | expired
  · exact .inl ⟨error, reported, blames, names.trans blames.symm⟩
  · exact .inr expired

theorem last_error_of_run_expired :
    let s := outcome Serial.act (.init 0) failThenExpireScript
    let ls := script Serial.act (.init 0) failThenExpireScript
    ∃ j ∈ s.db.jobs, ∃ a, s.db.LatestAttempt j.id a ∧
      ((∃ error, lastEnding j.id ls = some (.reported error) ∧ a.error = some error ∧ j.lastError = a.error) ∨
        (lastEnding j.id ls = some .expired ∧ a.error = some "lease expired" ∧
          j.lastError = some ((lastFailure j.id ls).getD "lease expired"))) := by
  refine ⟨_, List.mem_cons_self, ?_⟩
  exact last_error_of_run (outcome_run Serial.act_step (by decide)) List.mem_cons_self (by decide)

end Djq
