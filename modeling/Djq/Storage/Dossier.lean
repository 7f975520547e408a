import Djq.Storage.RowStep

/-!
# What one operation does to one job

A job lives in three tables: its row, the rows of its attempts and the
dead-letter entry under its id. `Dossier` is what they say about one job and
`OpStep` every way in which a whole operation changes it. An invariant that
relates the three tables is then a case analysis on `OpStep`, as one of the rows
is on `RowStep`.
-/

namespace Djq

open Relational

namespace JobAttempt

def setSucceeded (now : Int) (a : JobAttempt) : JobAttempt :=
  { a with status := .succeeded, finishedAt := some now }

def setEnded (now : Int) (error : String) (timedOut : Bool) (a : JobAttempt) : JobAttempt :=
  { a with
    status := if timedOut then .timeout else .failed
    finishedAt := some now
    error := some error }

def setExpired (now : Int) (a : JobAttempt) : JobAttempt :=
  { a with
    status := .timeout
    finishedAt := some now
    error := some (a.error.getD "lease expired") }

end JobAttempt

/-- The three tables, as far as they speak of one job. -/
structure Dossier where
  row : Option Job
  /-- The rows of its attempts, in the order of their ids. -/
  history : List JobAttempt
  entries : List DeadLetterJob

namespace Db

def history (db : Db) (id : Uuid) : List JobAttempt := db.attempts.filter fun a => decide (a.jobId = id)

def entries (db : Db) (id : Uuid) : List DeadLetterJob := db.deadLetters.filter fun d => decide (d.id = id)

def dossier (db : Db) (id : Uuid) : Dossier := ⟨db.job? id, db.history id, db.entries id⟩

end Db

/-- Close the running rows of one job. -/
def closeRunning (set : JobAttempt → JobAttempt) (history : List JobAttempt) : List JobAttempt :=
  updateWhere (fun a => decide (a.status = .running)) set history

/-- The jobs an operation reports to have written. -/
def Request.written : Request → Except QueueError Value → List Uuid
  | .submit _, .ok (.submission ⟨job, true⟩) => [job.id]
  | .leaseNext _ _ _, .ok (.leased (some job)) => [job.id]
  | .completeJob id _ _, .ok _ => [id]
  | .failJob id _ _ _, .ok _ => [id]
  | .renewLease id _ _, .ok _ => [id]
  | .cancelJob id, .ok _ => [id]
  | .retryJob id, .ok _ => [id]
  | .recoverExpiredLeases _, .ok (.ids ids) => ids
  | _, _ => []

/-- One operation on the dossier of the job `id`: the request, its reply, the
dossier before and the dossier after. -/
inductive OpStep (env : Env) (db : Db) (id : Uuid) : Request → Except QueueError Value → Dossier → Dossier → Prop where
  | same {q r d} (quiet : id ∉ q.written r) : OpStep env db id q r d d
  | submitted {s row h f} (eq : row = s.job.row env) (isId : row.id = id) :
      OpStep env db id (.submit s) (.ok (.submission ⟨row, true⟩)) ⟨none, h, f⟩ ⟨some row, h, f⟩
  | leased {worker queues secs j h f} (waiting : j.status ∈ [.queued, .scheduled, .retrying]) (isId : j.id = id) :
      OpStep env db id (.leaseNext worker queues secs) (.ok (.leased (some (j.setLeased env.now worker secs))))
        ⟨some j, h, f⟩
        ⟨some (j.setLeased env.now worker secs),
          h ++ [db.attemptRow env.now worker (j.setLeased env.now worker secs)], f⟩
  | renewed {worker secs j h f} (processing : j.status = .processing) (holder : j.lockedBy = some worker)
      (isId : j.id = id) :
      OpStep env db id (.renewLease id worker secs) (.ok .unit)
        ⟨some j, h, f⟩ ⟨some (j.setRenewed env.now secs), h, f⟩
  | completed {worker result j h f} (processing : j.status = .processing) (holder : j.lockedBy = some worker)
      (isId : j.id = id) :
      OpStep env db id (.completeJob id worker result) (.ok (.job (j.setCompleted env.now result)))
        ⟨some j, h, f⟩
        ⟨some (j.setCompleted env.now result), closeRunning (JobAttempt.setSucceeded env.now) h, f⟩
  | failed {worker error timedOut j h f} (processing : j.status = .processing) (holder : j.lockedBy = some worker)
      (isId : j.id = id) :
      OpStep env db id (.failJob id worker error timedOut) (.ok (.job (j.failUpdate env.now error j)))
        ⟨some j, h, f⟩
        ⟨some (j.failUpdate env.now error j), closeRunning (JobAttempt.setEnded env.now error timedOut) h,
          if j.maxAttempts ≤ j.attempts ∧ j.deadLetter then
            insertIgnore DeadLetterJob.id f (j.deadLetterRow env.now error)
          else f⟩
  | cancelled {j h f} (cancellable : j.status ∈ [.queued, .scheduled, .retrying, .processing]) (isId : j.id = id) :
      OpStep env db id (.cancelJob id) (.ok (.job (j.setCancelled env.now)))
        ⟨some j, h, f⟩ ⟨some (j.setCancelled env.now), h, f⟩
  | requeued {j h f} (ended : j.status ∈ [.failed, .deadLettered]) (isId : j.id = id) :
      OpStep env db id (.retryJob id) (.ok (.job (j.setRequeued env.now)))
        ⟨some j, h, f⟩ ⟨some (j.setRequeued env.now), h, []⟩
  | expiredRetrying {limit ids j h f} (taken : id ∈ ids) (expired : Db.expired env j = true)
      (left : j.attempts < j.maxAttempts) (isId : j.id = id) :
      OpStep env db id (.recoverExpiredLeases limit) (.ok (.ids ids))
        ⟨some j, h, f⟩
        ⟨some (j.setExpiredRetrying env.now), closeRunning (JobAttempt.setExpired env.now) h, f⟩
  | expiredDeadLettered {limit ids j h f} (taken : id ∈ ids) (expired : Db.expired env j = true)
      (exhausted : j.maxAttempts ≤ j.attempts) (deadLetter : j.deadLetter = true) (isId : j.id = id) :
      OpStep env db id (.recoverExpiredLeases limit) (.ok (.ids ids))
        ⟨some j, h, f⟩
        ⟨some (j.setExpiredDeadLettered env.now), closeRunning (JobAttempt.setExpired env.now) h,
          insertIgnore DeadLetterJob.id f (j.deadLetterRow env.now j.expiryError)⟩
  | expiredFailed {limit ids j h f} (taken : id ∈ ids) (expired : Db.expired env j = true)
      (exhausted : j.maxAttempts ≤ j.attempts) (deadLetter : j.deadLetter = false) (isId : j.id = id) :
      OpStep env db id (.recoverExpiredLeases limit) (.ok (.ids ids))
        ⟨some j, h, f⟩
        ⟨some (j.setExpiredFailed env.now), closeRunning (JobAttempt.setExpired env.now) h, f⟩
  | purged {olderThan rows j h f} (ended : j.status ∈ [.completed, .cancelled]) (old : j.updatedAt < olderThan)
      (isId : j.id = id) :
      OpStep env db id (.purgeFinished olderThan) (.ok (.count rows)) ⟨some j, h, f⟩ ⟨none, [], f⟩

/-! ## The attempt rows of one job -/

namespace Db

variable {db : Db} {env : Env} {id : Uuid}

theorem mem_history {a : JobAttempt} : a ∈ db.history id ↔ a ∈ db.attempts ∧ a.jobId = id := by
  rw [history, List.mem_filter, decide_eq_true_eq]

/-- A statement that closes the running rows of the jobs it lists. -/
theorem history_closed (listed : Uuid → Bool) (set : JobAttempt → JobAttempt) (keeps : ∀ a, (set a).jobId = a.jobId)
    {db' : Db} (rows : db'.attempts = closeAttempts (fun a => listed a.jobId) set db.attempts) :
    db'.history id = if listed id then closeRunning set (db.history id) else db.history id := by
  have kept : ∀ a, decide ((set a).jobId = id) = decide (a.jobId = id) := by
    intro a
    rw [keeps a]
  have ofJob : ∀ a ∈ db.history id, a.jobId = id := fun a mem => (mem_history.1 mem).2
  rw [history, rows, closeAttempts, filter_updateWhere kept]
  split
  · rename_i takes
    apply updateWhere_congr
    intro a mem
    rw [ofJob a mem, takes, Bool.true_and]
  · rename_i leaves
    apply updateWhere_none
    intro a mem
    rw [ofJob a mem, Bool.eq_false_iff.2 leaves, Bool.false_and]

theorem history_leaseWrite (now : Int) (worker : Uuid) (secs : Int) (pick : Job) :
    (db.leaseWrite now worker secs pick).history id =
      if pick.id = id then db.history id ++ [db.attemptRow now worker (pick.setLeased now worker secs)]
      else db.history id := by
  have ofPick : (db.attemptRow now worker (pick.setLeased now worker secs)).jobId = pick.id := rfl
  simp only [history, leaseWrite, List.filter_append, List.filter_cons, List.filter_nil, ofPick, decide_eq_true_eq]
  split
  · rfl
  · rw [List.append_nil]

theorem history_completeWrite (id' worker : Uuid) (result : Option Json) :
    (db.completeWrite env id' worker result).history id =
      if id = id' then closeRunning (JobAttempt.setSucceeded env.now) (db.history id) else db.history id := by
  rw [history_closed (fun k => decide (k = id')) (JobAttempt.setSucceeded env.now) (fun _ => rfl) rfl]
  simp only [decide_eq_true_eq]

theorem history_failWrite (id' : Uuid) (error : String) (timedOut : Bool) (current : Job) :
    (db.failWrite env id' error timedOut current).history id =
      if id = id' then closeRunning (JobAttempt.setEnded env.now error timedOut) (db.history id)
      else db.history id := by
  rw [history_closed (fun k => decide (k = id')) (JobAttempt.setEnded env.now error timedOut) (fun _ => rfl) rfl]
  simp only [decide_eq_true_eq]

theorem history_closeExpired (recovered : List Uuid) :
    (db.closeExpired env recovered).history id =
      if id ∈ recovered then closeRunning (JobAttempt.setExpired env.now) (db.history id) else db.history id := by
  rw [history_closed (fun k => decide (k ∈ recovered)) (JobAttempt.setExpired env.now) (fun _ => rfl) rfl]
  simp only [decide_eq_true_eq]

/-- A purge takes the attempt rows of the jobs it deletes along. -/
theorem history_purge (olderThan : Int) :
    (db.purgeFinished olderThan).1.history id =
      if id ∈ (db.jobs.filter (purgeable olderThan)).map Job.id then [] else db.history id := by
  simp only [history, purgeFinished, deleteWhere, List.filter_filter]
  split
  · rename_i gone
    rw [List.filter_eq_nil_iff]
    intro a _ both
    simp only [Bool.and_eq_true, decide_eq_true_eq, Bool.not_eq_true', decide_eq_false_iff_not] at both
    exact both.2 (both.1 ▸ gone)
  · rename_i stays
    apply List.filter_congr
    intro a _
    by_cases isId : a.jobId = id
    · simp only [isId, stays, decide_false, decide_true, Bool.not_false, Bool.and_true]
    · simp only [isId, decide_false, Bool.false_and]

/-! ## The dead-letter entry of one job -/

theorem entries_failWrite (id' : Uuid) (error : String) (timedOut : Bool) (current : Job) :
    (db.failWrite env id' error timedOut current).entries id =
      if current.id = id ∧ current.maxAttempts ≤ current.attempts ∧ current.deadLetter then
        insertIgnore DeadLetterJob.id (db.entries id) (current.deadLetterRow env.now error)
      else db.entries id := by
  simp only [entries, failWrite]
  by_cases files : current.maxAttempts ≤ current.attempts ∧ current.deadLetter = true
  · simp only [files, and_true, and_self, ↓reduceIte]
    exact filter_insertIgnore
  · simp only [files, and_false, ↓reduceIte]

theorem entries_removeDeadLetter (id' : Uuid) :
    (db.removeDeadLetter id').entries id = if id' = id then [] else db.entries id := by
  simp only [entries, removeDeadLetter, deleteWhere, List.filter_filter]
  split
  · rename_i isId
    subst isId
    simp
  · rename_i other
    apply List.filter_congr
    intro d _
    by_cases isId : d.id = id
    · simp [isId, Ne.symm other]
    · simp [isId]

/-- The reaper's second statement files the rows it takes. -/
theorem entries_recoverDeadLetter (keyed : Keyed Job.id db.jobs) (env : Env) (limit : Int) (id : Uuid) :
    (id ∉ (db.recoverDeadLetter env limit).2 → (db.recoverDeadLetter env limit).1.entries id = db.entries id) ∧
    ∀ j, db.job? id = some j → id ∈ (db.recoverDeadLetter env limit).2 →
      (db.recoverDeadLetter env limit).1.entries id =
        insertIgnore DeadLetterJob.id (db.entries id) (j.deadLetterRow env.now j.expiryError) := by
  constructor
  · intro out
    apply filter_insertBatch_other
    intro j mem isId
    exact out (List.mem_map.2 ⟨j, mem, isId⟩)
  · intro j row taken
    obtain ⟨b, mem, isId⟩ := List.mem_map.1 taken
    obtain rfl := keyed.unique (mem_expiredBatch mem).1 (job?_mem row) (isId.trans (job?_id row).symm)
    obtain rfl := job?_id row
    apply filter_insertBatch (fun j : Job => j.deadLetterRow env.now j.expiryError) _ mem
    have kept : (db.jobs.filter (exhaustedDeadLetter env)).map Job.id |>.Nodup :=
      (List.filter_sublist.map Job.id).nodup keyed
    exact top_sublist_keyed kept

theorem dossier_of {j : Job} (row : db.job? id = some j) : db.dossier id = ⟨some j, db.history id, db.entries id⟩ := by
  rw [dossier, row]

/-- A write to other tables. -/
theorem dossier_same {db' : Db} (jobs : db'.jobs = db.jobs) (attempts : db'.attempts = db.attempts)
    (deadLetters : db'.deadLetters = db.deadLetters) (id : Uuid) : db'.dossier id = db.dossier id := by
  simp only [dossier, job?, history, entries, jobs, attempts, deadLetters]

/-- A row that is not processing has no lease to expire. -/
theorem not_expired {j : Job} (released : j.status ≠ .processing) : expired env j ≠ true := by
  intro expired
  exact released (processing_of_expired expired)

/-! ## The three statements of a sweep, one after the other -/

/-- What the three statements that take rows back do to one job, and which of
them returned it. -/
inductive Taken (env : Env) (id : Uuid) (retryIds dlqIds failedIds : List Uuid) :
    Option Job → List DeadLetterJob → Option Job → List DeadLetterJob → Prop where
  | retrying {j f} (taken : id ∈ retryIds) (once : id ∉ dlqIds ∧ id ∉ failedIds) (expired : expired env j = true)
      (left : j.attempts < j.maxAttempts) (isId : j.id = id) :
      Taken env id retryIds dlqIds failedIds (some j) f (some (j.setExpiredRetrying env.now)) f
  | deadLettered {j f} (taken : id ∈ dlqIds) (once : id ∉ retryIds ∧ id ∉ failedIds) (expired : expired env j = true)
      (exhausted : j.maxAttempts ≤ j.attempts) (deadLetter : j.deadLetter = true) (isId : j.id = id) :
      Taken env id retryIds dlqIds failedIds (some j) f (some (j.setExpiredDeadLettered env.now))
        (insertIgnore DeadLetterJob.id f (j.deadLetterRow env.now j.expiryError))
  | failed {j f} (taken : id ∈ failedIds) (once : id ∉ retryIds ∧ id ∉ dlqIds) (expired : expired env j = true)
      (exhausted : j.maxAttempts ≤ j.attempts) (deadLetter : j.deadLetter = false) (isId : j.id = id) :
      Taken env id retryIds dlqIds failedIds (some j) f (some (j.setExpiredFailed env.now)) f
  | left {r f} (out : id ∉ retryIds ∧ id ∉ dlqIds ∧ id ∉ failedIds) : Taken env id retryIds dlqIds failedIds r f r f

/-- No two of the statements return the same job. -/
theorem Taken.apart {retryIds dlqIds failedIds : List Uuid} {r r' : Option Job} {f f' : List DeadLetterJob}
    (taken : Taken env id retryIds dlqIds failedIds r f r' f') :
    (id ∈ retryIds → id ∉ dlqIds ∧ id ∉ failedIds) ∧ (id ∈ dlqIds → id ∉ failedIds) := by
  cases taken with
  | retrying _ once => exact ⟨fun _ => once, fun again => absurd again once.1⟩
  | deadLettered _ once => exact ⟨fun again => absurd again once.1, fun _ => once.2⟩
  | failed _ once => exact ⟨fun again => absurd again once.1, fun again => absurd again once.2⟩
  | left out => exact ⟨fun again => absurd again out.1, fun again => absurd again out.2.1⟩

/-- The jobs keep their keys from statement to statement. -/
theorem sweep_keyed (keyed : Keyed Job.id db.jobs) {limit : Int} {db₁ db₂ : Db} {retryIds dlqIds : List Uuid}
    (first : db.recoverRetryable env limit = (db₁, retryIds)) (second : db₁.recoverDeadLetter env limit = (db₂, dlqIds)) :
    Keyed Job.id db₁.jobs ∧ Keyed Job.id db₂.jobs := by
  have keyed₁ : Keyed Job.id (db.recoverRetryable env limit).1.jobs := keyed.updateWhere fun _ => rfl
  rw [first] at keyed₁
  have keyed₂ : Keyed Job.id (db₁.recoverDeadLetter env limit).1.jobs := keyed₁.updateWhere fun _ => rfl
  rw [second] at keyed₂
  exact ⟨keyed₁, keyed₂⟩

theorem sweep_taken (keyed : Keyed Job.id db.jobs) {limit : Int} {db₁ db₂ db₃ : Db} {retryIds dlqIds failedIds : List Uuid}
    (first : db.recoverRetryable env limit = (db₁, retryIds)) (second : db₁.recoverDeadLetter env limit = (db₂, dlqIds))
    (third : db₂.recoverFailed env limit = (db₃, failedIds)) (id : Uuid) :
    Taken env id retryIds dlqIds failedIds (db.job? id) (db.entries id) (db₃.job? id) (db₃.entries id) := by
  obtain ⟨keyed₁, keyed₂⟩ := sweep_keyed keyed first second
  have entries₁ : db₁.entries id = db.entries id := by
    have entries₁ : (db.recoverRetryable env limit).1.entries id = db.entries id := rfl
    rwa [first] at entries₁
  have entries₃ : db₃.entries id = db₂.entries id := by
    have entries₃ : (db₂.recoverFailed env limit).1.entries id = db₂.entries id := rfl
    rwa [third] at entries₃
  obtain ⟨entries₂, files₂⟩ := entries_recoverDeadLetter keyed₁ env limit id
  have retry := recoverRetryable_spec keyed env limit id
  have dead := recoverDeadLetter_spec keyed₁ env limit id
  have fail := recoverFailed_spec keyed₂ env limit id
  rw [first] at retry
  rw [second] at dead entries₂ files₂
  rw [third] at fail
  -- a row taken back is not processing any more, so no later statement takes it
  have spent : ∀ j : Job, j.status ≠ .processing → db₂.job? id = some j →
      id ∉ failedIds ∧ db₃.job? id = db₂.job? id := by
    intro j released row
    obtain ⟨-, j', row', expired, -⟩ | out := fail
    · obtain rfl := Option.some.inj (row.symm.trans row')
      exact absurd expired (not_expired released)
    · exact out
  obtain ⟨taken, j, row, expired, left, after⟩ | ⟨out₁, same₁⟩ := retry
  · have out₂ : id ∉ dlqIds ∧ db₂.job? id = db₁.job? id := by
      obtain ⟨-, j', row', expired', -⟩ | out := dead
      · obtain rfl := Option.some.inj (after.symm.trans row')
        exact absurd expired' (not_expired (by simp))
      · exact out
    have out₃ := spent _ (by simp) (out₂.2.trans after)
    rw [entries₃, entries₂ out₂.1, entries₁, row, out₃.2, out₂.2, after]
    exact .retrying taken ⟨out₂.1, out₃.1⟩ expired left (job?_id row)
  · obtain ⟨taken, j, row, expired, exhausted, deadLetter, after⟩ | ⟨out₂, same₂⟩ := dead
    · have out₃ := spent _ (by simp) after
      rw [entries₃, files₂ j row taken, entries₁, out₃.2, after, ← same₁, row]
      exact .deadLettered taken ⟨out₁, out₃.1⟩ expired exhausted deadLetter (job?_id row)
    · rw [entries₃, entries₂ out₂, entries₁]
      obtain ⟨taken, j, row, expired, exhausted, deadLetter, after⟩ | ⟨out₃, same₃⟩ := fail
      · rw [after, ← same₁, ← same₂, row]
        exact .failed taken ⟨out₁, out₂⟩ expired exhausted deadLetter (job?_id row)
      · rw [same₃, same₂, same₁]
        exact .left ⟨out₁, out₂, out₃⟩

end Db

section Follow

variable {db : Db} {env : Env} {id : Uuid}

theorem op_step_submit (fresh : db.job? env.uuid = none) (s : Submittable) :
    OpStep env db id (.submit s) ((Request.submit s).serve env db).2 (db.dossier id)
      (((Request.submit s).serve env db).1.dossier id) := by
  have queued : (db.ensureQueue env s.job.queue).dossier id = db.dossier id := Db.dossier_same rfl rfl rfl id
  have free : (db.ensureQueue env s.job.queue).job? env.uuid = none := fresh
  simp only [Request.serve, PgStore.submit, PgStore.ensureQueue]
  rw [← queued]
  clear queued fresh
  generalize db.ensureQueue env s.job.queue = db' at free
  cases queue : db'.queue? s.job.queue with
  | none => exact .same List.not_mem_nil
  | some q =>
    simp only [found]
    cases existing : s.job.idempotencyKey.bind (db'.findByKey s.job.queue) with
    | some j => exact .same List.not_mem_nil
    | none =>
      simp only
      obtain ⟨ends, -⟩ | ⟨ends, -⟩ | ⟨ends, -⟩ := db'.insertJob_spec env s.job
      · rw [ends]
        exact .same List.not_mem_nil
      · rw [ends]
        cases key : s.job.idempotencyKey with
        | none => exact .same List.not_mem_nil
        | some key' =>
          rw [key, Option.bind_some] at existing
          simp only [existing]
          exact .same List.not_mem_nil
      · rw [ends]
        have appended : Db.dossier { db' with jobs := db'.jobs ++ [s.job.row env] } id =
            ⟨(db'.job? id).or (if (s.job.row env).id = id then some (s.job.row env) else none),
              db'.history id, db'.entries id⟩ :=
          congrArg (Dossier.mk · (db'.history id) (db'.entries id)) lookup_append
        show OpStep env db id _ (.ok (.submission ⟨s.job.row env, true⟩)) (db'.dossier id)
          (Db.dossier { db' with jobs := db'.jobs ++ [s.job.row env] } id)
        rw [appended]
        by_cases isId : (s.job.row env).id = id
        · have absent : db'.job? id = none := isId ▸ free
          rw [Db.dossier, absent, if_pos isId, Option.none_or]
          exact .submitted rfl isId
        · rw [if_neg isId, Option.or_none]
          exact .same (not_mem_one isId)

theorem op_step_lease (keyed : Keyed Job.id db.jobs) (worker : Uuid) (queues : List String) (secs : Int) :
    OpStep env db id (.leaseNext worker queues secs) ((Request.leaseNext worker queues secs).serve env db).2
      (db.dossier id) (((Request.leaseNext worker queues secs).serve env db).1.dossier id) := by
  simp only [Request.serve, PgStore.leaseNext]
  obtain ⟨none, -⟩ | ⟨pick, mem, -, ok, leased⟩ := db.leaseNext_spec env worker queues secs
  · rw [none]
    exact .same List.not_mem_nil
  · obtain ⟨-, -, waiting, -⟩ := Db.leaseable_iff.1 ok
    rw [leased]
    show OpStep env db id _ _ (db.dossier id) ((db.leaseWrite env.now worker secs pick).dossier id)
    have entries : (db.leaseWrite env.now worker secs pick).entries id = db.entries id := rfl
    by_cases isId : pick.id = id
    · subst isId
      have row : db.job? pick.id = some pick := keyed.lookup_self mem
      rw [Db.dossier_of row, Db.dossier, Db.leaseWrite_row row, Db.history_leaseWrite, if_pos rfl, entries]
      exact .leased waiting rfl
    · rw [Db.dossier, Db.dossier, Db.leaseWrite_other (Ne.symm isId), Db.history_leaseWrite, if_neg isId, entries]
      exact .same (not_mem_one isId)

theorem op_step_complete (keyed : Keyed Job.id db.jobs) (id' worker : Uuid) (result : Option Json) :
    OpStep env db id (.completeJob id' worker result) ((Request.completeJob id' worker result).serve env db).2
      (db.dossier id) (((Request.completeJob id' worker result).serve env db).1.dossier id) := by
  simp only [Request.serve, PgStore.completeJob]
  obtain ⟨none, -⟩ | ⟨j, row, holder, processing, done⟩ := Db.completeJob_spec keyed env id' worker result
  · rw [none]
    exact .same List.not_mem_nil
  · rw [done]
    show OpStep env db id _ _ (db.dossier id) ((db.completeWrite env id' worker result).dossier id)
    have entries : (db.completeWrite env id' worker result).entries id = db.entries id := rfl
    by_cases isId : id' = id
    · subst isId
      obtain rfl := Db.job?_id row
      rw [Db.dossier_of row, Db.dossier, Db.completeWrite_row row processing holder, Db.history_completeWrite,
        if_pos rfl, entries]
      exact .completed processing holder rfl
    · rw [Db.dossier, Db.dossier, Db.completeWrite_other (Ne.symm isId), Db.history_completeWrite,
        if_neg (Ne.symm isId), entries]
      exact .same (not_mem_one isId)

theorem op_step_fail (id' worker : Uuid) (error : String) (timedOut : Bool) :
    OpStep env db id (.failJob id' worker error timedOut) ((Request.failJob id' worker error timedOut).serve env db).2
      (db.dossier id) (((Request.failJob id' worker error timedOut).serve env db).1.dossier id) := by
  simp only [Request.serve, PgStore.failJob]
  obtain ⟨⟨e, refused⟩, -⟩ | ⟨j, row, holder, processing, done⟩ := db.failJob_spec env id' worker error timedOut
  · rw [refused]
    exact .same List.not_mem_nil
  · obtain rfl := Db.job?_id row
    have row' : (db.failWrite env j.id error timedOut j).job? j.id = some (j.failUpdate env.now error j) := by
      rw [Db.job?_failWrite, row, Option.map_some, if_pos rfl]
    rw [done]
    simp only [row', found]
    show OpStep env db id _ _ (db.dossier id) ((db.failWrite env j.id error timedOut j).dossier id)
    by_cases isId : j.id = id
    · subst isId
      rw [Db.dossier_of row, Db.dossier, row', Db.history_failWrite, if_pos rfl, Db.entries_failWrite]
      simp only [true_and]
      exact .failed processing holder rfl
    · have other : (db.failWrite env j.id error timedOut j).job? id = db.job? id := by
        rw [Db.job?_failWrite]
        exact Db.map_other fun j' row => if_neg fun same => isId (same.symm.trans (Db.job?_id row))
      rw [Db.dossier, Db.dossier, other, Db.history_failWrite, if_neg (Ne.symm isId), Db.entries_failWrite]
      simp only [isId, false_and, ↓reduceIte]
      exact .same (not_mem_one isId)

theorem op_step_renew (keyed : Keyed Job.id db.jobs) (id' worker : Uuid) (secs : Int) :
    OpStep env db id (.renewLease id' worker secs) ((Request.renewLease id' worker secs).serve env db).2
      (db.dossier id) (((Request.renewLease id' worker secs).serve env db).1.dossier id) := by
  simp only [Request.serve, PgStore.renewLease]
  show OpStep env db id _ _ (db.dossier id)
    ⟨(db.renewLease env id' worker secs).1.job? id, db.history id, db.entries id⟩
  rw [Db.job?_renewLease]
  obtain ⟨zero, miss⟩ | ⟨some, j, row, holder, processing⟩ := Db.renewLease_spec keyed env id' worker secs
  · rw [Db.map_other fun j row => by simp only [miss j (Db.job?_mem row), Bool.false_eq_true, ↓reduceIte], zero]
    exact .same List.not_mem_nil
  · have same := Db.job?_id row
    simp only [some, ↓reduceIte]
    by_cases isId : id' = id
    · subst isId
      rw [Db.dossier_of row, row, Option.map_some, if_pos (Db.heldBy_iff.2 ⟨same, holder, processing⟩)]
      exact .renewed processing holder same
    · rw [Db.map_other fun j row => if_neg fun held => isId ?_]
      · exact .same (not_mem_one isId)
      · rw [← (Db.heldBy_iff.1 held).1, Db.job?_id row]

theorem op_step_cancel (keyed : Keyed Job.id db.jobs) (id' : Uuid) :
    OpStep env db id (.cancelJob id') ((Request.cancelJob id').serve env db).2 (db.dossier id)
      (((Request.cancelJob id').serve env db).1.dossier id) := by
  simp only [Request.serve, PgStore.cancelJob]
  obtain ⟨none, -⟩ | ⟨j, row, cancellable, done⟩ := Db.cancelJob_spec keyed env id'
  · rw [none]
    exact .same List.not_mem_nil
  · have after : (db.cancelJob env id').1.dossier id = ⟨(db.job? id).map fun j =>
        if j.id = id' ∧ j.status ∈ [.queued, .scheduled, .retrying, .processing] then j.setCancelled env.now else j,
        db.history id, db.entries id⟩ := by
      rw [← db.job?_cancelJob env id id']
      rfl
    rcases eq : db.cancelJob env id' with ⟨db', reply⟩
    rw [eq] at done after
    obtain rfl : reply = _ := done
    show OpStep env db id _ _ (db.dossier id) (db'.dossier id)
    have same := Db.job?_id row
    rw [after]
    by_cases isId : id' = id
    · subst isId
      rw [Db.dossier_of row, row, Option.map_some, if_pos ⟨same, cancellable⟩]
      exact .cancelled cancellable same
    · rw [Db.map_other fun j row => if_neg fun hit => isId (hit.1.symm.trans (Db.job?_id row))]
      exact .same (not_mem_one isId)

theorem op_step_requeue (keyed : Keyed Job.id db.jobs) (id' : Uuid) :
    OpStep env db id (.retryJob id') ((Request.retryJob id').serve env db).2 (db.dossier id)
      (((Request.retryJob id').serve env db).1.dossier id) := by
  simp only [Request.serve, PgStore.retryJob]
  obtain ⟨none, -⟩ | ⟨j, row, ended, done⟩ := Db.requeueJob_spec keyed env id'
  · rw [none]
    exact .same List.not_mem_nil
  · have after : ((db.requeueJob env id').1.removeDeadLetter id').dossier id = ⟨(db.job? id).map fun j =>
        if j.id = id' ∧ j.status ∈ [.failed, .deadLettered] then j.setRequeued env.now else j,
        db.history id, if id' = id then [] else db.entries id⟩ := by
      rw [← db.job?_requeueJob env id id']
      show Dossier.mk _ _ _ = _
      rw [Db.entries_removeDeadLetter]
      rfl
    rcases eq : db.requeueJob env id' with ⟨db', reply⟩
    rw [eq] at done after
    obtain rfl : reply = _ := done
    show OpStep env db id _ _ (db.dossier id) ((db'.removeDeadLetter id').dossier id)
    have same := Db.job?_id row
    rw [after]
    by_cases isId : id' = id
    · subst isId
      rw [Db.dossier_of row, row, Option.map_some, if_pos ⟨same, ended⟩, if_pos rfl]
      exact .requeued ended same
    · rw [Db.map_other fun j row => if_neg fun hit => isId (hit.1.symm.trans (Db.job?_id row)), if_neg isId]
      exact .same (not_mem_one isId)

theorem op_step_purge (keyed : Keyed Job.id db.jobs) (olderThan : Int) :
    OpStep env db id (.purgeFinished olderThan) ((Request.purgeFinished olderThan).serve env db).2
      (db.dossier id) (((Request.purgeFinished olderThan).serve env db).1.dossier id) := by
  have after : (db.purgeFinished olderThan).1.job? id = (db.job? id).filter fun j => !Db.purgeable olderThan j :=
    keyed.lookup_deleteWhere
  show OpStep env db id _ _ (db.dossier id)
    ⟨(db.purgeFinished olderThan).1.job? id, (db.purgeFinished olderThan).1.history id, db.entries id⟩
  rw [after, Db.history_purge]
  cases row : db.job? id with
  | none =>
    rw [if_neg, Db.dossier, row]
    · exact .same List.not_mem_nil
    · intro gone
      obtain ⟨j, mem, isId⟩ := List.mem_map.1 gone
      exact lookup_none_iff.1 row j (List.mem_filter.1 mem).1 isId
  | some j =>
    rw [Db.dossier_of row]
    by_cases gone : Db.purgeable olderThan j = true
    · obtain ⟨ended, old⟩ := of_decide_eq_true gone
      have listed : id ∈ (db.jobs.filter (Db.purgeable olderThan)).map Job.id :=
        List.mem_map.2 ⟨j, List.mem_filter.2 ⟨Db.job?_mem row, gone⟩, Db.job?_id row⟩
      simp only [Option.filter_some, gone, Bool.not_true, Bool.false_eq_true, ↓reduceIte, if_pos listed]
      exact .purged ended old (Db.job?_id row)
    · have spared : id ∉ (db.jobs.filter (Db.purgeable olderThan)).map Job.id := by
        intro listed
        obtain ⟨j', mem, isId⟩ := List.mem_map.1 listed
        obtain ⟨mem, goes⟩ := List.mem_filter.1 mem
        obtain rfl := keyed.unique mem (Db.job?_mem row) (isId.trans (Db.job?_id row).symm)
        exact gone goes
      simp only [Option.filter_some, gone, Bool.not_false, ↓reduceIte, if_neg spared]
      exact .same List.not_mem_nil

theorem op_step_recover (keyed : Keyed Job.id db.jobs) (limit : Int) :
    OpStep env db id (.recoverExpiredLeases limit) ((Request.recoverExpiredLeases limit).serve env db).2
      (db.dossier id) (((Request.recoverExpiredLeases limit).serve env db).1.dossier id) := by
  simp only [Request.serve, PgStore.recoverExpiredLeases]
  split
  · exact .same List.not_mem_nil
  · rcases first : db.recoverRetryable env limit with ⟨db₁, retryIds⟩
    rcases second : db₁.recoverDeadLetter env limit with ⟨db₂, dlqIds⟩
    rcases third : db₂.recoverFailed env limit with ⟨db₃, failedIds⟩
    have taken := Db.sweep_taken keyed first second third id
    have history₃ : db₃.history id = db.history id := by
      have same₁ : (db.recoverRetryable env limit).1.history id = db.history id := rfl
      have same₂ : (db₁.recoverDeadLetter env limit).1.history id = db₁.history id := rfl
      have same₃ : (db₂.recoverFailed env limit).1.history id = db₂.history id := rfl
      rw [first] at same₁
      rw [second] at same₂
      rw [third] at same₃
      exact same₃.trans (same₂.trans same₁)
    simp only
    generalize recovered : retryIds ++ dlqIds ++ failedIds = ids
    have after : (if ids.isEmpty = true then db₃ else db₃.closeExpired env ids).dossier id =
        ⟨db₃.job? id, if id ∈ ids then closeRunning (JobAttempt.setExpired env.now) (db.history id) else db.history id,
          db₃.entries id⟩ := by
      rw [← history₃]
      split
      · rename_i empty
        rw [List.isEmpty_iff.1 empty, if_neg List.not_mem_nil]
        rfl
      · rw [← Db.history_closeExpired]
        rfl
    show OpStep env db id _ (.ok (.ids ids)) ⟨db.job? id, db.history id, db.entries id⟩
      ((if ids.isEmpty = true then db₃ else db₃.closeExpired env ids).dossier id)
    rw [after]
    generalize db.job? id = row, db.entries id = entries, db₃.job? id = row', db₃.entries id = entries' at taken
    cases taken with
    | retrying taken _ expired left isId =>
      have listed : id ∈ ids := by simp [← recovered, taken]
      rw [if_pos listed]
      exact .expiredRetrying listed expired left isId
    | deadLettered taken _ expired exhausted deadLetter isId =>
      have listed : id ∈ ids := by simp [← recovered, taken]
      rw [if_pos listed]
      exact .expiredDeadLettered listed expired exhausted deadLetter isId
    | failed taken _ expired exhausted deadLetter isId =>
      have listed : id ∈ ids := by simp [← recovered, taken]
      rw [if_pos listed]
      exact .expiredFailed listed expired exhausted deadLetter isId
    | left out =>
      have spared : id ∉ ids := by
        rw [← recovered]
        simpa [not_or, and_assoc] using out
      rw [if_neg spared]
      exact .same spared

/-- **Operations follow `OpStep`.** -/
theorem Request.op_step (keyed : Keyed Job.id db.jobs) (fresh : db.job? env.uuid = none) (request : Request) :
    OpStep env db id request (request.serve env db).2 (db.dossier id) ((request.serve env db).1.dossier id) := by
  cases request with
  | submit s => exact op_step_submit fresh s
  | cancelJob id' => exact op_step_cancel keyed id'
  | retryJob id' => exact op_step_requeue keyed id'
  | purgeFinished olderThan => exact op_step_purge keyed olderThan
  | leaseNext worker queues secs => exact op_step_lease keyed worker queues secs
  | completeJob id' worker result => exact op_step_complete keyed id' worker result
  | failJob id' worker error timedOut => exact op_step_fail id' worker error timedOut
  | renewLease id' worker secs => exact op_step_renew keyed id' worker secs
  | recoverExpiredLeases limit => exact op_step_recover keyed limit
  | _ => exact .same List.not_mem_nil

end Follow

end Djq
