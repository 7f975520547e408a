import Djq.Storage.Calls

/-!
# What one unit does to one job row

`RowStep` is the life of a single row as the store drives it: every way in which
a committed unit inserts, changes or deletes the row with a given id, with the
guard under which it does. `Call.row_step` says that the tables follow it. An
invariant of the rows is then a case analysis on `RowStep`, and no proof about
rows unfolds a statement again.
-/

namespace Djq

open Relational

/-! ## The SET clauses leave the key and the submitted columns alone -/

/-- The columns no statement writes after the INSERT. -/
structure SameSubmission (a b : Job) : Prop where
  id : a.id = b.id
  queue : a.queue = b.queue
  jobType : a.jobType = b.jobType
  payload : a.payload = b.payload
  priority : a.priority = b.priority
  idempotencyKey : a.idempotencyKey = b.idempotencyKey
  maxAttempts : a.maxAttempts = b.maxAttempts
  timeoutSecs : a.timeoutSecs = b.timeoutSecs
  backoffBaseSecs : a.backoffBaseSecs = b.backoffBaseSecs
  backoffMaxSecs : a.backoffMaxSecs = b.backoffMaxSecs
  deadLetter : a.deadLetter = b.deadLetter
  metadata : a.metadata = b.metadata
  correlationId : a.correlationId = b.correlationId
  createdAt : a.createdAt = b.createdAt

theorem SameSubmission.refl (a : Job) : SameSubmission a a := by constructor <;> rfl

theorem SameSubmission.symm {a b : Job} (h : SameSubmission a b) : SameSubmission b a := by
  constructor
  · exact h.id.symm
  · exact h.queue.symm
  · exact h.jobType.symm
  · exact h.payload.symm
  · exact h.priority.symm
  · exact h.idempotencyKey.symm
  · exact h.maxAttempts.symm
  · exact h.timeoutSecs.symm
  · exact h.backoffBaseSecs.symm
  · exact h.backoffMaxSecs.symm
  · exact h.deadLetter.symm
  · exact h.metadata.symm
  · exact h.correlationId.symm
  · exact h.createdAt.symm

theorem SameSubmission.trans {a b c : Job} (h : SameSubmission a b) (h' : SameSubmission b c) :
    SameSubmission a c := by
  constructor
  · exact h.id.trans h'.id
  · exact h.queue.trans h'.queue
  · exact h.jobType.trans h'.jobType
  · exact h.payload.trans h'.payload
  · exact h.priority.trans h'.priority
  · exact h.idempotencyKey.trans h'.idempotencyKey
  · exact h.maxAttempts.trans h'.maxAttempts
  · exact h.timeoutSecs.trans h'.timeoutSecs
  · exact h.backoffBaseSecs.trans h'.backoffBaseSecs
  · exact h.backoffMaxSecs.trans h'.backoffMaxSecs
  · exact h.deadLetter.trans h'.deadLetter
  · exact h.metadata.trans h'.metadata
  · exact h.correlationId.trans h'.correlationId
  · exact h.createdAt.trans h'.createdAt

namespace Job

variable (now : Int) (j : Job)

theorem setLeased_same (worker : Uuid) (secs : Int) : SameSubmission (j.setLeased now worker secs) j := by
  constructor <;> rfl

theorem setRenewed_same (secs : Int) : SameSubmission (j.setRenewed now secs) j := by
  constructor <;> rfl

theorem setCompleted_same (result : Option Json) : SameSubmission (j.setCompleted now result) j := by
  constructor <;> rfl

theorem setDeadLettered_same (error : String) : SameSubmission (j.setDeadLettered now error) j := by
  constructor <;> rfl

theorem setFailed_same (error : String) : SameSubmission (j.setFailed now error) j := by
  constructor <;> rfl

theorem setRetrying_same (error : String) (delay : Int) : SameSubmission (j.setRetrying now error delay) j := by
  constructor <;> rfl

theorem failUpdate_same (current : Job) (error : String) : SameSubmission (current.failUpdate now error j) j := by
  unfold failUpdate
  split
  · split
    · exact j.setDeadLettered_same now error
    · exact j.setFailed_same now error
  · exact j.setRetrying_same now error _

theorem setCancelled_same : SameSubmission (j.setCancelled now) j := by
  constructor <;> rfl

theorem setRequeued_same : SameSubmission (j.setRequeued now) j := by
  constructor <;> rfl

end Job

/-! ## The rows a unit writes -/

/-- The rows of `jobs` a unit reports to have written. Purging is the one write
that no reply names. -/
def Call.written : Call → Progress → List Uuid
  | .submitInsert _, .done (.ok (.submission s)) => [s.job.id]
  | .start (.leaseNext _ _ _), .done (.ok (.leased (some job))) => [job.id]
  | .start (.completeJob id _ _), .done (.ok _) => [id]
  | .start (.failJob id _ _ _), .next _ => [id]
  | .start (.renewLease id _ _), .done (.ok _) => [id]
  | .start (.cancelJob id), .done (.ok _) => [id]
  | .start (.retryJob id), .next (.removeDeadLetter _) => [id]
  | .start (.recoverExpiredLeases _), .next (.recoverDeadLetter _ ids) => ids
  | .recoverDeadLetter _ before, .next (.recoverFailed _ ids) => ids.drop before.length
  | .recoverFailed _ before, .next (.closeExpired ids) => ids.drop before.length
  | _, _ => []

theorem not_mem_one {a b : Uuid} (ne : ¬ a = b) : b ∉ [a] := by
  intro mem
  exact ne (List.mem_singleton.1 mem).symm

/-- One step in the life of the row `id`: the unit, what is left of its call,
the row before and the row after. -/
inductive RowStep (env : Env) (db : Db) (id : Uuid) : Call → Progress → Option Job → Option Job → Prop where
  | same {c p r} (quiet : id ∉ c.written p) : RowStep env db id c p r r
  | inserted {s row} (eq : row = s.job.row env) (isId : row.id = id) :
      RowStep env db id (.submitInsert s) (.done (.ok (.submission ⟨row, true⟩))) none (some row)
  | leased {worker queues secs j} (leaseable : j.status ∈ [.queued, .scheduled, .retrying])
      (due : j.runAt ≤ env.now) (listed : j.queue ∈ queues)
      (unpaused : ∃ q ∈ db.queues, q.name = j.queue ∧ q.paused = false) (isId : j.id = id) :
      RowStep env db id (.start (.leaseNext worker queues secs))
        (.done (.ok (.leased (some (j.setLeased env.now worker secs)))))
        (some j) (some (j.setLeased env.now worker secs))
  | renewed {worker secs j} (processing : j.status = .processing) (holder : j.lockedBy = some worker)
      (isId : j.id = id) :
      RowStep env db id (.start (.renewLease id worker secs)) (.done (.ok .unit))
        (some j) (some (j.setRenewed env.now secs))
  | completed {worker result j} (processing : j.status = .processing) (holder : j.lockedBy = some worker)
      (isId : j.id = id) :
      RowStep env db id (.start (.completeJob id worker result))
        (.done (.ok (.job (j.setCompleted env.now result))))
        (some j) (some (j.setCompleted env.now result))
  | failed {worker error timedOut j} (processing : j.status = .processing) (holder : j.lockedBy = some worker)
      (isId : j.id = id) :
      RowStep env db id (.start (.failJob id worker error timedOut)) (.next (.rereadFailed id))
        (some j) (some (j.failUpdate env.now error j))
  | cancelled {j} (cancellable : j.status ∈ [.queued, .scheduled, .retrying, .processing]) (isId : j.id = id) :
      RowStep env db id (.start (.cancelJob id)) (.done (.ok (.job (j.setCancelled env.now))))
        (some j) (some (j.setCancelled env.now))
  | requeued {j} (ended : j.status ∈ [.failed, .deadLettered]) (isId : j.id = id) :
      RowStep env db id (.start (.retryJob id)) (.next (.removeDeadLetter (j.setRequeued env.now)))
        (some j) (some (j.setRequeued env.now))
  | expiredRetrying {limit ids j} (taken : id ∈ ids) (expired : Db.expired env j = true)
      (left : j.attempts < j.maxAttempts) (isId : j.id = id) :
      RowStep env db id (.start (.recoverExpiredLeases limit)) (.next (.recoverDeadLetter limit ids))
        (some j) (some (j.setExpiredRetrying env.now))
  | expiredDeadLettered {limit before ids j} (taken : id ∈ ids) (expired : Db.expired env j = true)
      (exhausted : j.maxAttempts ≤ j.attempts) (deadLetter : j.deadLetter = true) (isId : j.id = id) :
      RowStep env db id (.recoverDeadLetter limit before) (.next (.recoverFailed limit (before ++ ids)))
        (some j) (some (j.setExpiredDeadLettered env.now))
  | expiredFailed {limit before ids j} (taken : id ∈ ids) (expired : Db.expired env j = true)
      (exhausted : j.maxAttempts ≤ j.attempts) (deadLetter : j.deadLetter = false) (isId : j.id = id) :
      RowStep env db id (.recoverFailed limit before) (.next (.closeExpired (before ++ ids)))
        (some j) (some (j.setExpiredFailed env.now))
  | purged {olderThan rows j} (ended : j.status ∈ [.completed, .cancelled]) (old : j.updatedAt < olderThan) :
      RowStep env db id (.start (.purgeFinished olderThan)) (.done (.ok (.count rows))) (some j) none

/-! ## The tables follow `RowStep` -/

namespace Db

variable {db : Db} {env : Env} {id : Uuid}

theorem job?_id {j : Job} (row : db.job? id = some j) : j.id = id := (lookup_mem row).2

theorem job?_mem {j : Job} (row : db.job? id = some j) : j ∈ db.jobs := (lookup_mem row).1

/-- An update that leaves the row found alone. -/
theorem map_other {f : Job → Job} (out : ∀ j, db.job? id = some j → f j = j) :
    (db.job? id).map f = db.job? id := by
  cases row : db.job? id with
  | none => rfl
  | some j => rw [Option.map_some, out j row]

theorem leasePick_spec {queues : List String} {pick : Job} (h : db.leasePick env queues = some pick) :
    pick ∈ db.jobs ∧ db.leaseable env queues pick = true := by
  have mem := head_orderBy_mem h
  exact List.mem_filter.1 mem

theorem leaseable_iff {queues : List String} {j : Job} :
    db.leaseable env queues j = true ↔
      j.queue ∈ queues ∧ (∃ q ∈ db.queues, q.name = j.queue ∧ q.paused = false) ∧
      j.status ∈ [.queued, .scheduled, .retrying] ∧ j.runAt ≤ env.now ∧ j.id ∉ env.locked := by
  simp only [leaseable, Bool.and_eq_true, decide_eq_true_eq, List.any_eq_true, and_assoc]

theorem heldBy_iff {worker : Uuid} {j : Job} :
    heldBy id worker j = true ↔ j.id = id ∧ j.lockedBy = some worker ∧ j.status = .processing :=
  decide_eq_true_iff

theorem mem_expiredBatch {which : Job → Bool} {limit : Int} {j : Job} (h : j ∈ db.expiredBatch which limit) :
    j ∈ db.jobs ∧ which j = true :=
  List.mem_filter.1 (mem_of_mem_top h)

/-- The three ways an INSERT of a submission ends. -/
theorem insertJob_spec (db : Db) (env : Env) (job : NormalizedJob) :
    (db.insertJob env job = (db, .otherViolation) ∧ ((job.row env).checks = false ∨ db.queue? job.queue = none)) ∨
    (db.insertJob env job = (db, .uniqueViolation) ∧
      ∃ j ∈ db.jobs, j.id = env.uuid ∨ j.sameKey job.queue job.idempotencyKey = true) ∨
    (db.insertJob env job = ({ db with jobs := db.jobs ++ [job.row env] }, .inserted (job.row env)) ∧
      (∀ j ∈ db.jobs, j.id ≠ env.uuid ∧ j.sameKey job.queue job.idempotencyKey = false) ∧
      (db.queue? job.queue).isSome = true) := by
  unfold insertJob
  by_cases checks : (job.row env).checks = true
  · by_cases clash : db.jobs.any (fun j => decide (j.id = (job.row env).id) ||
        j.sameKey (job.row env).queue (job.row env).idempotencyKey) = true
    · refine .inr (.inl ⟨by simp only [checks, Bool.not_true, Bool.false_eq_true, ↓reduceIte, clash], ?_⟩)
      simp only [List.any_eq_true, Bool.or_eq_true, decide_eq_true_eq] at clash
      exact clash
    · cases queue : db.queue? job.queue with
      | none =>
        refine .inl ⟨?_, .inr rfl⟩
        have missing : (db.queue? (job.row env).queue).isNone = true := by simp [NormalizedJob.row, queue]
        simp only [checks, Bool.not_true, Bool.false_eq_true, ↓reduceIte, clash, missing]
      | some q =>
        have present : (db.queue? (job.row env).queue).isNone = false := by simp [NormalizedJob.row, queue]
        refine .inr (.inr ⟨?_, ?_, rfl⟩)
        · simp only [checks, Bool.not_true, Bool.false_eq_true, ↓reduceIte, clash, present]
        · intro j mem
          have free := (not_exists.1 (mt List.any_eq_true.2 clash) j)
          simp only [Bool.or_eq_true, decide_eq_true_eq, not_and, not_or, Bool.not_eq_true] at free
          exact free mem
  · rw [Bool.not_eq_true] at checks
    exact .inl ⟨by simp only [checks, Bool.not_false, ↓reduceIte], .inl checks⟩

/-- `lease_next` leases the row it picked, or nothing. -/
theorem leaseNext_spec (db : Db) (env : Env) (worker : Uuid) (queues : List String) (secs : Int) :
    (db.leaseNext env worker queues secs = (db, none) ∧ db.leasePick env queues = none) ∨
    ∃ pick ∈ db.jobs, db.leasePick env queues = some pick ∧ db.leaseable env queues pick = true ∧
      db.leaseNext env worker queues secs =
        (db.leaseWrite env.now worker secs pick, some (pick.setLeased env.now worker secs)) := by
  unfold leaseNext
  cases picked : db.leasePick env queues with
  | none => exact .inl ⟨rfl, rfl⟩
  | some pick =>
    obtain ⟨mem, ok⟩ := leasePick_spec picked
    exact .inr ⟨pick, mem, rfl, ok, rfl⟩

theorem job?_leaseWrite {now : Int} {worker : Uuid} {secs : Int} {pick : Job} :
    (db.leaseWrite now worker secs pick).job? id =
      (db.job? id).map fun j => if j.id = pick.id then j.setLeased now worker secs else j := by
  have keeps : ∀ j, (Job.setLeased now worker secs j).id = j.id := fun _ => rfl
  simp only [job?, leaseWrite, lookup_updateWhere keeps, decide_eq_true_eq]

theorem leaseWrite_row {now : Int} {worker : Uuid} {secs : Int} {pick : Job} (row : db.job? pick.id = some pick) :
    (db.leaseWrite now worker secs pick).job? pick.id = some (pick.setLeased now worker secs) := by
  rw [job?_leaseWrite, row, Option.map_some, if_pos rfl]

theorem leaseWrite_other {now : Int} {worker : Uuid} {secs : Int} {pick : Job} (other : id ≠ pick.id) :
    (db.leaseWrite now worker secs pick).job? id = db.job? id := by
  rw [job?_leaseWrite]
  apply map_other
  intro j row
  exact if_neg fun same => other ((job?_id row).symm.trans same)

/-- `complete_job` completes the row its worker holds, or changes nothing. -/
theorem completeJob_spec (keyed : Keyed Job.id db.jobs) (env : Env) (id worker : Uuid) (result : Option Json) :
    (db.completeJob env id worker result = (db, none) ∧ ∀ j ∈ db.jobs, heldBy id worker j = false) ∨
    ∃ j, db.job? id = some j ∧ j.lockedBy = some worker ∧ j.status = .processing ∧
      db.completeJob env id worker result =
        (db.completeWrite env id worker result, some (j.setCompleted env.now result)) := by
  unfold completeJob
  cases hit : (returning (heldBy id worker) (Job.setCompleted env.now result) db.jobs).head? with
  | none => exact .inl ⟨rfl, returning_none hit⟩
  | some job =>
    have keeps : ∀ j, (Job.setCompleted env.now result j).id = j.id := fun _ => rfl
    obtain ⟨j, row, held, rfl, -⟩ := keyed.update_hit keeps (fun a h => (heldBy_iff.1 h).1) hit
    obtain ⟨-, holder, processing⟩ := heldBy_iff.1 held
    exact .inr ⟨j, row, holder, processing, rfl⟩

theorem job?_completeWrite {env : Env} {id' worker : Uuid} {result : Option Json} :
    (db.completeWrite env id' worker result).job? id =
      (db.job? id).map fun j => if heldBy id' worker j then j.setCompleted env.now result else j := by
  have keeps : ∀ j, (Job.setCompleted env.now result j).id = j.id := fun _ => rfl
  simp only [job?, completeWrite, lookup_updateWhere keeps]

theorem completeWrite_row {worker : Uuid} {result : Option Json} {job : Job} (row : db.job? job.id = some job)
    (processing : job.status = .processing) (holder : job.lockedBy = some worker) :
    (db.completeWrite env job.id worker result).job? job.id = some (job.setCompleted env.now result) := by
  rw [job?_completeWrite, row, Option.map_some, if_pos (heldBy_iff.2 ⟨rfl, holder, processing⟩)]

theorem completeWrite_other {id' worker : Uuid} {result : Option Json} (other : id ≠ id') :
    (db.completeWrite env id' worker result).job? id = db.job? id := by
  rw [job?_completeWrite]
  apply map_other
  intro j row
  exact if_neg fun held => other ((job?_id row).symm.trans (heldBy_iff.1 held).1)

/-- `fail_job` fails the row its worker holds, or changes nothing. -/
theorem failJob_spec (db : Db) (env : Env) (id worker : Uuid) (error : String) (timedOut : Bool) :
    ((∃ e, db.failJob env id worker error timedOut = (db, .error e)) ∧
      ∀ j, db.job? id = some j → ¬ (j.status = .processing ∧ j.lockedBy = some worker)) ∨
    ∃ j, db.job? id = some j ∧ j.lockedBy = some worker ∧ j.status = .processing ∧
      db.failJob env id worker error timedOut = (db.failWrite env id error timedOut j, .ok ()) := by
  unfold failJob
  cases row : db.job? id with
  | none => exact .inl ⟨⟨_, rfl⟩, by simp⟩
  | some current =>
    simp only
    by_cases refused : current.status ≠ .processing ∨ current.lockedBy ≠ some worker
    · rw [if_pos refused]
      refine .inl ⟨⟨_, rfl⟩, ?_⟩
      rintro j ⟨⟩ ⟨processing, holder⟩
      rcases refused with refused | refused
      · exact refused processing
      · exact refused holder
    · rw [if_neg refused]
      simp only [not_or, not_not] at refused
      exact .inr ⟨current, rfl, refused.2, refused.1, rfl⟩

theorem job?_failWrite {env : Env} {id' : Uuid} {error : String} {timedOut : Bool} {current : Job} :
    (db.failWrite env id' error timedOut current).job? id =
      (db.job? id).map fun j => if j.id = id' then current.failUpdate env.now error j else j := by
  have keeps : ∀ j, (current.failUpdate env.now error j).id = j.id := fun j =>
    (j.failUpdate_same env.now current error).id
  simp only [job?, failWrite, lookup_updateWhere keeps, decide_eq_true_eq]

/-- `renew_lease` affects a row exactly when the worker holds it. -/
theorem renewLease_spec (keyed : Keyed Job.id db.jobs) (env : Env) (id worker : Uuid) (secs : Int) :
    ((db.renewLease env id worker secs).2 = 0 ∧ ∀ j ∈ db.jobs, heldBy id worker j = false) ∨
    ((db.renewLease env id worker secs).2 ≠ 0 ∧
      ∃ j, db.job? id = some j ∧ j.lockedBy = some worker ∧ j.status = .processing) := by
  by_cases miss : db.jobs.filter (heldBy id worker) = []
  · refine .inl ⟨congrArg List.length miss, ?_⟩
    simpa only [List.filter_eq_nil_iff, Bool.not_eq_true] using miss
  · refine .inr ⟨fun zero => miss (List.length_eq_zero_iff.1 zero), ?_⟩
    obtain ⟨j, found⟩ := List.exists_mem_of_ne_nil _ miss
    obtain ⟨mem, held⟩ := List.mem_filter.1 found
    obtain ⟨rfl, holder, processing⟩ := heldBy_iff.1 held
    exact ⟨j, keyed.lookup_self mem, holder, processing⟩

theorem job?_renewLease {env : Env} {id' worker : Uuid} {secs : Int} :
    (db.renewLease env id' worker secs).1.job? id =
      (db.job? id).map fun j => if heldBy id' worker j then j.setRenewed env.now secs else j := by
  have keeps : ∀ j, (Job.setRenewed env.now secs j).id = j.id := fun _ => rfl
  simp only [job?, renewLease, lookup_updateWhere keeps]

/-- `cancel_job` cancels a cancellable row, or finds none. -/
theorem cancelJob_spec (keyed : Keyed Job.id db.jobs) (env : Env) (id : Uuid) :
    (db.cancelJob env id = (db, none) ∧
      ∀ j, db.job? id = some j → j.status ∉ [.queued, .scheduled, .retrying, .processing]) ∨
    ∃ j, db.job? id = some j ∧ j.status ∈ [.queued, .scheduled, .retrying, .processing] ∧
      (db.cancelJob env id).2 = some (j.setCancelled env.now) := by
  unfold cancelJob
  have keeps : ∀ j, (Job.setCancelled env.now j).id = j.id := fun _ => rfl
  simp only
  cases hit : (returning _ (Job.setCancelled env.now) db.jobs).head? with
  | none =>
    refine .inl ⟨by rw [update_miss hit], fun j row bad => ?_⟩
    have out := returning_none hit j (job?_mem row)
    simp only [job?_id row, bad, true_and, decide_true, reduceCtorEq] at out
  | some job =>
    obtain ⟨j, row, ok, rfl, -⟩ := keyed.update_hit keeps (fun a h => (of_decide_eq_true h).1) hit
    exact .inr ⟨j, row, (of_decide_eq_true ok).2, rfl⟩

theorem job?_cancelJob (db : Db) (env : Env) (id id' : Uuid) :
    (db.cancelJob env id').1.job? id = (db.job? id).map fun j =>
      if j.id = id' ∧ j.status ∈ [.queued, .scheduled, .retrying, .processing] then j.setCancelled env.now else j := by
  have keeps : ∀ j, (Job.setCancelled env.now j).id = j.id := fun _ => rfl
  simp only [job?, cancelJob, lookup_updateWhere keeps, decide_eq_true_eq]

/-- `retry_job`'s UPDATE requeues a failed or dead-lettered row, or finds none. -/
theorem requeueJob_spec (keyed : Keyed Job.id db.jobs) (env : Env) (id : Uuid) :
    (db.requeueJob env id = (db, none) ∧ ∀ j, db.job? id = some j → j.status ∉ [.failed, .deadLettered]) ∨
    ∃ j, db.job? id = some j ∧ j.status ∈ [.failed, .deadLettered] ∧
      (db.requeueJob env id).2 = some (j.setRequeued env.now) := by
  unfold requeueJob
  have keeps : ∀ j, (Job.setRequeued env.now j).id = j.id := fun _ => rfl
  simp only
  cases hit : (returning _ (Job.setRequeued env.now) db.jobs).head? with
  | none =>
    refine .inl ⟨by rw [update_miss hit], fun j row bad => ?_⟩
    have out := returning_none hit j (job?_mem row)
    simp only [job?_id row, bad, true_and, decide_true, reduceCtorEq] at out
  | some job =>
    obtain ⟨j, row, ok, rfl, -⟩ := keyed.update_hit keeps (fun a h => (of_decide_eq_true h).1) hit
    exact .inr ⟨j, row, (of_decide_eq_true ok).2, rfl⟩

theorem job?_requeueJob (db : Db) (env : Env) (id id' : Uuid) :
    (db.requeueJob env id').1.job? id = (db.job? id).map fun j =>
      if j.id = id' ∧ j.status ∈ [.failed, .deadLettered] then j.setRequeued env.now else j := by
  have keeps : ∀ j, (Job.setRequeued env.now j).id = j.id := fun _ => rfl
  simp only [job?, requeueJob, lookup_updateWhere keeps, decide_eq_true_eq]

/-- A statement that selects a batch of expired rows and releases them. -/
theorem job?_releaseBatch (keyed : Keyed Job.id db.jobs) {set : Job → Job} (keeps : ∀ j, (set j).id = j.id)
    (which : Job → Bool) (limit : Int) (id : Uuid) :
    (id ∈ (db.expiredBatch which limit).map Job.id ∧ ∃ j, which j = true ∧ j.id = id ∧ db.job? id = some j ∧
      (db.releaseBatch set (db.expiredBatch which limit)).job? id = some (set j)) ∨
    (id ∉ (db.expiredBatch which limit).map Job.id ∧
      (db.releaseBatch set (db.expiredBatch which limit)).job? id = db.job? id) := by
  by_cases taken : id ∈ (db.expiredBatch which limit).map Job.id
  · obtain ⟨j, mem, before, after⟩ := keyed.update_batch keeps (fun a h => (mem_expiredBatch h).1) taken
    exact .inl ⟨taken, j, (mem_expiredBatch mem).2, (lookup_mem before).2, before, after⟩
  · exact .inr ⟨taken, lookup_update_batch_other keeps taken⟩

/-- The reaper's first statement, seen from one row. -/
theorem recoverRetryable_spec (keyed : Keyed Job.id db.jobs) (env : Env) (limit : Int) (id : Uuid) :
    (id ∈ (db.recoverRetryable env limit).2 ∧ ∃ j, db.job? id = some j ∧ expired env j = true ∧
      j.attempts < j.maxAttempts ∧
      (db.recoverRetryable env limit).1.job? id = some (j.setExpiredRetrying env.now)) ∨
    (id ∉ (db.recoverRetryable env limit).2 ∧ (db.recoverRetryable env limit).1.job? id = db.job? id) := by
  have keeps : ∀ j, (Job.setExpiredRetrying env.now j).id = j.id := fun _ => rfl
  obtain ⟨taken, j, which, -, row, after⟩ | out :=
    job?_releaseBatch keyed keeps (retryable env) limit id
  · simp only [retryable, Bool.and_eq_true, decide_eq_true_eq] at which
    exact .inl ⟨taken, j, row, which.1, which.2, after⟩
  · exact .inr out

/-- The reaper's second statement, seen from one row. -/
theorem recoverDeadLetter_spec (keyed : Keyed Job.id db.jobs) (env : Env) (limit : Int) (id : Uuid) :
    (id ∈ (db.recoverDeadLetter env limit).2 ∧ ∃ j, db.job? id = some j ∧ expired env j = true ∧
      j.maxAttempts ≤ j.attempts ∧ j.deadLetter = true ∧
      (db.recoverDeadLetter env limit).1.job? id = some (j.setExpiredDeadLettered env.now)) ∨
    (id ∉ (db.recoverDeadLetter env limit).2 ∧ (db.recoverDeadLetter env limit).1.job? id = db.job? id) := by
  have keeps : ∀ j, (Job.setExpiredDeadLettered env.now j).id = j.id := fun _ => rfl
  obtain ⟨taken, j, which, -, row, after⟩ | out :=
    job?_releaseBatch keyed keeps (exhaustedDeadLetter env) limit id
  · simp only [exhaustedDeadLetter, Bool.and_eq_true, decide_eq_true_eq] at which
    exact .inl ⟨taken, j, row, which.1, which.2.1, which.2.2, after⟩
  · exact .inr out

/-- The reaper's third statement, seen from one row. -/
theorem recoverFailed_spec (keyed : Keyed Job.id db.jobs) (env : Env) (limit : Int) (id : Uuid) :
    (id ∈ (db.recoverFailed env limit).2 ∧ ∃ j, db.job? id = some j ∧ expired env j = true ∧
      j.maxAttempts ≤ j.attempts ∧ j.deadLetter = false ∧
      (db.recoverFailed env limit).1.job? id = some (j.setExpiredFailed env.now)) ∨
    (id ∉ (db.recoverFailed env limit).2 ∧ (db.recoverFailed env limit).1.job? id = db.job? id) := by
  have keeps : ∀ j, (Job.setExpiredFailed env.now j).id = j.id := fun _ => rfl
  obtain ⟨taken, j, which, -, row, after⟩ | out :=
    job?_releaseBatch keyed keeps (exhaustedFailed env) limit id
  · simp only [exhaustedFailed, Bool.and_eq_true, decide_eq_true_eq] at which
    exact .inl ⟨taken, j, row, which.1, which.2.1, which.2.2, after⟩
  · exact .inr out

end Db

section Follow

variable {db : Db} {env : Env} {id : Uuid}

theorem row_step_insert (fresh : db.job? env.uuid = none) (s : Submittable) :
    RowStep env db id (.submitInsert s) ((Call.submitInsert s).step env db).2
      (db.job? id) (((Call.submitInsert s).step env db).1.job? id) := by
  simp only [Call.step]
  obtain ⟨ends, -⟩ | ⟨ends, -⟩ | ⟨ends, -⟩ := db.insertJob_spec env s.job
  · simp only [ends]
    exact .same List.not_mem_nil
  · simp only [ends]
    split <;> exact .same List.not_mem_nil
  · simp only [ends]
    have appended : ({ db with jobs := db.jobs ++ [s.job.row env] } : Db).job? id =
        (db.job? id).or (if (s.job.row env).id = id then some (s.job.row env) else none) := lookup_append
    by_cases isId : (s.job.row env).id = id
    · have absent : db.job? id = none := isId ▸ fresh
      simp only [appended, absent, isId, ↓reduceIte, Option.none_or]
      exact .inserted rfl isId
    · simp only [appended, isId, ↓reduceIte, Option.or_none]
      exact .same (not_mem_one isId)

theorem row_step_lease (keyed : Keyed Job.id db.jobs) (worker : Uuid) (queues : List String) (secs : Int) :
    RowStep env db id (.start (.leaseNext worker queues secs))
      ((Call.start (.leaseNext worker queues secs)).step env db).2
      (db.job? id) (((Call.start (.leaseNext worker queues secs)).step env db).1.job? id) := by
  simp only [Call.step]
  obtain ⟨none, -⟩ | ⟨pick, mem, -, ok, leased⟩ := db.leaseNext_spec env worker queues secs
  · simp only [none]
    exact .same List.not_mem_nil
  · obtain ⟨listed, unpaused, leaseable, due, -⟩ := Db.leaseable_iff.1 ok
    simp only [leased, Db.job?_leaseWrite]
    by_cases isId : pick.id = id
    · subst isId
      simp only [show db.job? pick.id = some pick from keyed.lookup_self mem, Option.map_some, ↓reduceIte]
      exact .leased leaseable due listed unpaused rfl
    · rw [Db.map_other fun j row => by rw [Db.job?_id row]; exact if_neg (Ne.symm isId)]
      exact .same (not_mem_one isId)

theorem row_step_complete (keyed : Keyed Job.id db.jobs) (id' worker : Uuid) (result : Option Json) :
    RowStep env db id (.start (.completeJob id' worker result))
      ((Call.start (.completeJob id' worker result)).step env db).2
      (db.job? id) (((Call.start (.completeJob id' worker result)).step env db).1.job? id) := by
  simp only [Call.step]
  obtain ⟨none, -⟩ | ⟨j, row, holder, processing, done⟩ := Db.completeJob_spec keyed env id' worker result
  · simp only [none]
    exact .same List.not_mem_nil
  · have same := Db.job?_id row
    simp only [done, Db.job?_completeWrite]
    by_cases isId : id' = id
    · subst isId
      simp only [row, Option.map_some, if_pos (Db.heldBy_iff.2 ⟨same, holder, processing⟩)]
      exact .completed processing holder same
    · rw [Db.map_other fun j row => if_neg fun held => isId ?_]
      · exact .same (not_mem_one isId)
      · rw [← (Db.heldBy_iff.1 held).1, Db.job?_id row]

theorem row_step_fail (id' worker : Uuid) (error : String) (timedOut : Bool) :
    RowStep env db id (.start (.failJob id' worker error timedOut))
      ((Call.start (.failJob id' worker error timedOut)).step env db).2
      (db.job? id) (((Call.start (.failJob id' worker error timedOut)).step env db).1.job? id) := by
  simp only [Call.step]
  obtain ⟨⟨e, refused⟩, -⟩ | ⟨j, row, holder, processing, done⟩ := db.failJob_spec env id' worker error timedOut
  · simp only [refused]
    exact .same List.not_mem_nil
  · have same := Db.job?_id row
    simp only [done, Db.job?_failWrite]
    by_cases isId : id' = id
    · subst isId
      simp only [row, Option.map_some, same, ↓reduceIte]
      exact .failed processing holder same
    · rw [Db.map_other fun j row => if_neg fun same => isId (same.symm.trans (Db.job?_id row))]
      exact .same (not_mem_one isId)

theorem row_step_renew (keyed : Keyed Job.id db.jobs) (id' worker : Uuid) (secs : Int) :
    RowStep env db id (.start (.renewLease id' worker secs))
      ((Call.start (.renewLease id' worker secs)).step env db).2
      (db.job? id) (((Call.start (.renewLease id' worker secs)).step env db).1.job? id) := by
  simp only [Call.step, Db.job?_renewLease]
  obtain ⟨zero, miss⟩ | ⟨some, j, row, holder, processing⟩ := Db.renewLease_spec keyed env id' worker secs
  · rw [Db.map_other fun j row => by simp only [miss j (Db.job?_mem row), Bool.false_eq_true, ↓reduceIte]]
    simp only [zero, ↓reduceIte]
    exact .same List.not_mem_nil
  · have same := Db.job?_id row
    simp only [some, ↓reduceIte]
    by_cases isId : id' = id
    · subst isId
      simp only [row, Option.map_some, if_pos (Db.heldBy_iff.2 ⟨same, holder, processing⟩)]
      exact .renewed processing holder same
    · rw [Db.map_other fun j row => if_neg fun held => isId ?_]
      · exact .same (not_mem_one isId)
      · rw [← (Db.heldBy_iff.1 held).1, Db.job?_id row]

theorem row_step_cancel (keyed : Keyed Job.id db.jobs) (id' : Uuid) :
    RowStep env db id (.start (.cancelJob id')) ((Call.start (.cancelJob id')).step env db).2
      (db.job? id) (((Call.start (.cancelJob id')).step env db).1.job? id) := by
  have after := db.job?_cancelJob env id id'
  simp only [Call.step]
  obtain ⟨none, -⟩ | ⟨j, row, cancellable, done⟩ := Db.cancelJob_spec keyed env id'
  · simp only [none]
    exact .same List.not_mem_nil
  · have same := Db.job?_id row
    rcases eq : db.cancelJob env id' with ⟨db', reply⟩
    rw [eq] at done after
    obtain rfl : reply = _ := done
    simp only [after]
    by_cases isId : id' = id
    · subst isId
      simp only [row, Option.map_some, if_pos (And.intro same cancellable)]
      exact .cancelled cancellable same
    · rw [Db.map_other fun j row => if_neg fun hit => isId (hit.1.symm.trans (Db.job?_id row))]
      exact .same (not_mem_one isId)

theorem row_step_requeue (keyed : Keyed Job.id db.jobs) (id' : Uuid) :
    RowStep env db id (.start (.retryJob id')) ((Call.start (.retryJob id')).step env db).2
      (db.job? id) (((Call.start (.retryJob id')).step env db).1.job? id) := by
  have after := db.job?_requeueJob env id id'
  simp only [Call.step]
  obtain ⟨none, -⟩ | ⟨j, row, ended, done⟩ := Db.requeueJob_spec keyed env id'
  · simp only [none]
    exact .same List.not_mem_nil
  · have same := Db.job?_id row
    rcases eq : db.requeueJob env id' with ⟨db', reply⟩
    rw [eq] at done after
    obtain rfl : reply = _ := done
    simp only [after]
    by_cases isId : id' = id
    · subst isId
      simp only [row, Option.map_some, if_pos (And.intro same ended)]
      exact .requeued ended same
    · rw [Db.map_other fun j row => if_neg fun hit => isId (hit.1.symm.trans (Db.job?_id row))]
      exact .same (not_mem_one isId)

theorem row_step_purge (keyed : Keyed Job.id db.jobs) (olderThan : Int) :
    RowStep env db id (.start (.purgeFinished olderThan)) ((Call.start (.purgeFinished olderThan)).step env db).2
      (db.job? id) (((Call.start (.purgeFinished olderThan)).step env db).1.job? id) := by
  have after : (db.purgeFinished olderThan).1.job? id = (db.job? id).filter fun j => !Db.purgeable olderThan j :=
    keyed.lookup_deleteWhere
  simp only [Call.step, after]
  cases row : db.job? id with
  | none => exact .same List.not_mem_nil
  | some j =>
    by_cases gone : Db.purgeable olderThan j = true
    · obtain ⟨ended, old⟩ := of_decide_eq_true gone
      simp only [Option.filter_some, gone, Bool.not_true, Bool.false_eq_true, ↓reduceIte]
      exact .purged ended old
    · simp only [Option.filter_some, gone, Bool.not_false, ↓reduceIte]
      exact .same List.not_mem_nil

theorem row_step_recoverRetryable (keyed : Keyed Job.id db.jobs) (limit : Int) :
    RowStep env db id (.start (.recoverExpiredLeases limit))
      ((Call.start (.recoverExpiredLeases limit)).step env db).2
      (db.job? id) (((Call.start (.recoverExpiredLeases limit)).step env db).1.job? id) := by
  simp only [Call.step]
  split_ifs
  · exact .same List.not_mem_nil
  · obtain ⟨taken, j, row, expired, left, after⟩ | ⟨out, after⟩ := Db.recoverRetryable_spec keyed env limit id
    · simp only [row, after]
      exact .expiredRetrying taken expired left (Db.job?_id row)
    · simp only [after]
      exact .same out

theorem row_step_recoverDeadLetter (keyed : Keyed Job.id db.jobs) (limit : Int) (before : List Uuid) :
    RowStep env db id (.recoverDeadLetter limit before) ((Call.recoverDeadLetter limit before).step env db).2
      (db.job? id) (((Call.recoverDeadLetter limit before).step env db).1.job? id) := by
  simp only [Call.step]
  obtain ⟨taken, j, row, expired, exhausted, deadLetter, after⟩ | ⟨out, after⟩ :=
    Db.recoverDeadLetter_spec keyed env limit id
  · simp only [row, after]
    exact .expiredDeadLettered taken expired exhausted deadLetter (Db.job?_id row)
  · simp only [after]
    refine .same ?_
    simpa only [Call.written, List.drop_left] using out

theorem row_step_recoverFailed (keyed : Keyed Job.id db.jobs) (limit : Int) (before : List Uuid) :
    RowStep env db id (.recoverFailed limit before) ((Call.recoverFailed limit before).step env db).2
      (db.job? id) (((Call.recoverFailed limit before).step env db).1.job? id) := by
  simp only [Call.step]
  obtain ⟨taken, j, row, expired, exhausted, deadLetter, after⟩ | ⟨out, after⟩ :=
    Db.recoverFailed_spec keyed env limit id
  · have some : (before ++ (db.recoverFailed env limit).2).isEmpty = false := by
      rw [Bool.eq_false_iff, ne_eq, List.isEmpty_iff]
      intro empty
      rw [(List.append_eq_nil_iff.1 empty).2] at taken
      exact List.not_mem_nil taken
    simp only [row, after, some, Bool.false_eq_true, ↓reduceIte]
    exact .expiredFailed taken expired exhausted deadLetter (Db.job?_id row)
  · simp only [after]
    split_ifs
    · exact .same List.not_mem_nil
    · refine .same ?_
      simpa only [Call.written, List.drop_left] using out

/-- **Rows follow `RowStep`.** -/
theorem Call.row_step (keyed : Keyed Job.id db.jobs) (fresh : db.job? env.uuid = none) (c : Call) :
    RowStep env db id c (c.step env db).2 (db.job? id) ((c.step env db).1.job? id) := by
  cases c with
  | start request =>
    cases request with
    | ensureQueue name => exact .same List.not_mem_nil
    | setQueuePaused name paused => exact .same List.not_mem_nil
    | submit s => exact .same List.not_mem_nil
    | cancelJob id' => exact row_step_cancel keyed id'
    | retryJob id' => exact row_step_requeue keyed id'
    | purgeFinished olderThan => exact row_step_purge keyed olderThan
    | leaseNext worker queues secs => exact row_step_lease keyed worker queues secs
    | completeJob id' worker result => exact row_step_complete keyed id' worker result
    | failJob id' worker error timedOut => exact row_step_fail id' worker error timedOut
    | renewLease id' worker secs => exact row_step_renew keyed id' worker secs
    | recoverExpiredLeases limit => exact row_step_recoverRetryable keyed limit
    | registerWorker worker => exact .same List.not_mem_nil
    | heartbeat worker => exact .same List.not_mem_nil
    | deregisterWorker worker => exact .same List.not_mem_nil
    | pruneDeadWorkers secs => exact .same List.not_mem_nil
  | readQueue name => exact .same List.not_mem_nil
  | submitReadQueue s =>
    simp only [Call.step]
    split <;> exact .same List.not_mem_nil
  | submitLookup s =>
    simp only [Call.step]
    split <;> exact .same List.not_mem_nil
  | submitInsert s => exact row_step_insert fresh s
  | submitFallback s =>
    simp only [Call.step]
    split <;> exact .same List.not_mem_nil
  | rejected op id' => exact .same List.not_mem_nil
  | removeDeadLetter job => exact .same List.not_mem_nil
  | rereadFailed id' => exact .same List.not_mem_nil
  | recoverDeadLetter limit before => exact row_step_recoverDeadLetter keyed limit before
  | recoverFailed limit before => exact row_step_recoverFailed keyed limit before
  | closeExpired recovered => exact .same List.not_mem_nil

end Follow

end Djq
