import Djq.Storage.RowStep

/-!
# What one unit does to the tables

`RowStep` follows a single row of `jobs`; here a unit is looked at from the
table as a whole: which statement changes it, and what it keeps of it.
-/

namespace Djq

open Relational

/-! ## The database a unit leaves is the one its statement leaves -/

namespace Call

variable (env : Env) (db : Db)

@[simp] theorem submitReadQueue_fst (s : Submittable) : ((submitReadQueue s).step env db).1 = db := by
  simp only [step]
  split <;> rfl

@[simp] theorem submitLookup_fst (s : Submittable) : ((submitLookup s).step env db).1 = db := by
  simp only [step]
  split <;> rfl

@[simp] theorem submitFallback_fst (s : Submittable) : ((submitFallback s).step env db).1 = db := by
  simp only [step]
  split <;> rfl

@[simp] theorem submitInsert_fst (s : Submittable) :
    ((submitInsert s).step env db).1 = (db.insertJob env s.job).1 := by
  simp only [step]
  split <;> rename_i h <;> rw [h]

@[simp] theorem cancelJob_fst (id : Uuid) :
    ((start (.cancelJob id)).step env db).1 = (db.cancelJob env id).1 := by
  simp only [step]
  split <;> rename_i h <;> rw [h]

@[simp] theorem retryJob_fst (id : Uuid) :
    ((start (.retryJob id)).step env db).1 = (db.requeueJob env id).1 := by
  simp only [step]
  split <;> rename_i h <;> rw [h]

theorem retryJob_snd {id : Uuid} {job : Job} (requeued : (db.requeueJob env id).2 = some job) :
    ((start (.retryJob id)).step env db).2 = .next (.removeDeadLetter job) := by
  simp only [step]
  split <;> rename_i h <;> rw [h] at requeued <;> cases requeued
  rfl

@[simp] theorem completeJob_fst (id worker : Uuid) (result : Option Json) :
    ((start (.completeJob id worker result)).step env db).1 = (db.completeJob env id worker result).1 := by
  simp only [step]
  split <;> rename_i h <;> rw [h]

@[simp] theorem failJob_fst (id worker : Uuid) (error : String) (timedOut : Bool) :
    ((start (.failJob id worker error timedOut)).step env db).1 = (db.failJob env id worker error timedOut).1 := by
  simp only [step]
  split <;> rename_i h <;> rw [h]

theorem recoverExpiredLeases_fst (limit : Int) :
    ((start (.recoverExpiredLeases limit)).step env db).1 =
      if limit < 0 then db else (db.recoverRetryable env limit).1 := by
  simp only [step]
  split <;> rfl

end Call

/-! ## The statements leave the other tables alone -/

namespace Db

variable (db : Db) (env : Env)

theorem insertJob_fst (job : NormalizedJob) :
    (db.insertJob env job).1 = db ∨ (db.insertJob env job).1 = { db with jobs := db.jobs ++ [job.row env] } := by
  obtain ⟨ends, -⟩ | ⟨ends, -⟩ | ⟨ends, -⟩ := db.insertJob_spec env job
  · exact .inl (congrArg Prod.fst ends)
  · exact .inl (congrArg Prod.fst ends)
  · exact .inr (congrArg Prod.fst ends)

theorem leaseNext_fst (worker : Uuid) (queues : List String) (secs : Int) :
    (db.leaseNext env worker queues secs).1 = db ∨
      ∃ pick ∈ db.jobs, (db.leaseNext env worker queues secs).1 = db.leaseWrite env.now worker secs pick := by
  obtain ⟨ends, -⟩ | ⟨pick, mem, -, -, ends⟩ := db.leaseNext_spec env worker queues secs
  · exact .inl (congrArg Prod.fst ends)
  · exact .inr ⟨pick, mem, congrArg Prod.fst ends⟩

theorem completeJob_fst (id worker : Uuid) (result : Option Json) :
    (db.completeJob env id worker result).1 = db ∨
      (db.completeJob env id worker result).1 = db.completeWrite env id worker result := by
  unfold completeJob
  split
  · exact .inl rfl
  · exact .inr rfl

theorem failJob_fst (id worker : Uuid) (error : String) (timedOut : Bool) :
    (db.failJob env id worker error timedOut).1 = db ∨
      ∃ current, db.job? id = some current ∧
        (db.failJob env id worker error timedOut).1 = db.failWrite env id error timedOut current := by
  obtain ⟨⟨e, ends⟩, -⟩ | ⟨current, row, -, -, ends⟩ := db.failJob_spec env id worker error timedOut
  · exact .inl (congrArg Prod.fst ends)
  · exact .inr ⟨current, row, congrArg Prod.fst ends⟩

@[simp] theorem insertJob_queues (job : NormalizedJob) : (db.insertJob env job).1.queues = db.queues := by
  obtain eq | eq := db.insertJob_fst env job <;> rw [eq]

@[simp] theorem insertJob_attempts (job : NormalizedJob) : (db.insertJob env job).1.attempts = db.attempts := by
  obtain eq | eq := db.insertJob_fst env job <;> rw [eq]

@[simp] theorem insertJob_deadLetters (job : NormalizedJob) :
    (db.insertJob env job).1.deadLetters = db.deadLetters := by
  obtain eq | eq := db.insertJob_fst env job <;> rw [eq]

@[simp] theorem leaseNext_queues (worker : Uuid) (queues : List String) (secs : Int) :
    (db.leaseNext env worker queues secs).1.queues = db.queues := by
  obtain eq | ⟨_, _, eq⟩ := db.leaseNext_fst env worker queues secs <;> rw [eq]; rfl

@[simp] theorem leaseNext_deadLetters (worker : Uuid) (queues : List String) (secs : Int) :
    (db.leaseNext env worker queues secs).1.deadLetters = db.deadLetters := by
  obtain eq | ⟨_, _, eq⟩ := db.leaseNext_fst env worker queues secs <;> rw [eq]; rfl

@[simp] theorem completeJob_queues (id worker : Uuid) (result : Option Json) :
    (db.completeJob env id worker result).1.queues = db.queues := by
  obtain eq | eq := db.completeJob_fst env id worker result <;> rw [eq]; rfl

@[simp] theorem completeJob_deadLetters (id worker : Uuid) (result : Option Json) :
    (db.completeJob env id worker result).1.deadLetters = db.deadLetters := by
  obtain eq | eq := db.completeJob_fst env id worker result <;> rw [eq]; rfl

@[simp] theorem failJob_queues (id worker : Uuid) (error : String) (timedOut : Bool) :
    (db.failJob env id worker error timedOut).1.queues = db.queues := by
  obtain eq | ⟨_, _, eq⟩ := db.failJob_fst env id worker error timedOut <;> rw [eq]; rfl

end Db

/-! ## The table of jobs -/

/-- What a unit does to the table `jobs`. -/
inductive JobsStep (env : Env) (db : Db) (t : List Job) : Prop where
  | same (eq : t = db.jobs)
  | updated {which : Job → Bool} {set : Job → Job} (keeps : ∀ j, SameSubmission (set j) j)
      (eq : t = updateWhere which set db.jobs)
  | inserted {job : Submittable}
      (free : ∀ j ∈ db.jobs, j.id ≠ env.uuid ∧ j.sameKey job.job.queue job.job.idempotencyKey = false)
      (queue : (db.queue? job.job.queue).isSome = true) (eq : t = db.jobs ++ [job.job.row env])
  | deleted {which : Job → Bool} (eq : t = deleteWhere which db.jobs)

theorem jobs_step_insert (env : Env) (db : Db) (s : Submittable) :
    JobsStep env db (db.insertJob env s.job).1.jobs := by
  obtain ⟨ends, -⟩ | ⟨ends, -⟩ | ⟨ends, free, queue⟩ := db.insertJob_spec env s.job
  · rw [ends]
    exact .same rfl
  · rw [ends]
    exact .same rfl
  · rw [ends]
    exact .inserted free queue rfl

/-- Every unit leaves `jobs` as it is, or is one UPDATE, INSERT or DELETE. -/
theorem Call.jobs_step (env : Env) (db : Db) (c : Call) : JobsStep env db (c.step env db).1.jobs := by
  cases c with
  | start request =>
    cases request with
    | cancelJob id =>
      rw [cancelJob_fst]
      exact .updated (fun j => j.setCancelled_same env.now) rfl
    | retryJob id =>
      rw [retryJob_fst]
      exact .updated (fun j => j.setRequeued_same env.now) rfl
    | purgeFinished olderThan => exact .deleted rfl
    | leaseNext worker queues secs =>
      show JobsStep env db (db.leaseNext env worker queues secs).1.jobs
      obtain eq | ⟨_, _, eq⟩ := db.leaseNext_fst env worker queues secs
      · rw [eq]
        exact .same rfl
      · rw [eq]
        exact .updated (fun j => j.setLeased_same env.now worker secs) rfl
    | completeJob id worker result =>
      rw [completeJob_fst]
      obtain eq | eq := db.completeJob_fst env id worker result
      · rw [eq]
        exact .same rfl
      · rw [eq]
        exact .updated (fun j => j.setCompleted_same env.now result) rfl
    | failJob id worker error timedOut =>
      rw [failJob_fst]
      obtain eq | ⟨current, -, eq⟩ := db.failJob_fst env id worker error timedOut
      · rw [eq]
        exact .same rfl
      · rw [eq]
        exact .updated (fun j => j.failUpdate_same env.now current error) rfl
    | renewLease id worker secs => exact .updated (fun j => j.setRenewed_same env.now secs) rfl
    | recoverExpiredLeases limit =>
      rw [recoverExpiredLeases_fst]
      split
      · exact .same rfl
      · exact .updated (fun j => j.setRetrying_same env.now j.expiryError j.expiryDelaySecs) rfl
    | _ => exact .same rfl
  | submitInsert s =>
    rw [submitInsert_fst]
    exact jobs_step_insert env db s
  | recoverDeadLetter limit before =>
    exact .updated (fun j => j.setDeadLettered_same env.now j.expiryError) rfl
  | recoverFailed limit before => exact .updated (fun j => j.setFailed_same env.now j.expiryError) rfl
  | submitReadQueue s => exact .same (by rw [submitReadQueue_fst])
  | submitLookup s => exact .same (by rw [submitLookup_fst])
  | submitFallback s => exact .same (by rw [submitFallback_fst])
  | _ => exact .same rfl

/-- The table after a unit keeps its primary key, where the UUID drawn is new to it. -/
theorem JobsStep.keyed {env : Env} {db : Db} {t : List Job} (h : JobsStep env db t)
    (keyed : Keyed Job.id db.jobs) : Keyed Job.id t := by
  cases h with
  | same eq => exact eq ▸ keyed
  | updated keeps eq => exact eq ▸ keyed.updateWhere fun j => (keeps j).id
  | inserted free _ eq => exact eq ▸ keyed.append fun j mem => (free j mem).1
  | deleted eq => exact eq ▸ keyed.deleteWhere

/-- Where a row after a unit comes from. -/
theorem JobsStep.origin {env : Env} {db : Db} {t : List Job} (h : JobsStep env db t) {j : Job} (mem : j ∈ t) :
    (∃ old ∈ db.jobs, SameSubmission j old) ∨
      ∃ s : Submittable, j = s.job.row env ∧ (db.queue? s.job.queue).isSome = true := by
  cases h with
  | same eq => exact .inl ⟨j, eq ▸ mem, .refl j⟩
  | updated keeps eq =>
    obtain ⟨old, oldMem, rfl⟩ := mem_updateWhere.1 (eq ▸ mem)
    refine .inl ⟨old, oldMem, ?_⟩
    split
    · exact keeps old
    · exact .refl old
  | @inserted s free queue eq =>
    rw [eq, List.mem_append, List.mem_singleton] at mem
    rcases mem with mem | rfl
    · exact .inl ⟨j, mem, .refl j⟩
    · exact .inr ⟨s, rfl, queue⟩
  | deleted eq => exact .inl ⟨j, (mem_deleteWhere.1 (eq ▸ mem)).1, .refl j⟩

/-! ## The table of queues -/

theorem Db.ensureQueue_kept (db : Db) (env : Env) (name : String) {q : Queue} (mem : q ∈ db.queues) :
    ∃ q' ∈ (db.ensureQueue env name).queues, q'.name = q.name :=
  ⟨q, mem_insertIgnore_of_mem mem, rfl⟩

theorem Db.setQueuePaused_kept (db : Db) (name : String) (paused : Bool) {q : Queue} (mem : q ∈ db.queues) :
    ∃ q' ∈ (db.setQueuePaused name paused).1.queues, q'.name = q.name := by
  refine ⟨_, mem_updateWhere.2 ⟨q, mem, rfl⟩, ?_⟩
  split <;> rfl

/-- No unit deletes a queue. -/
theorem Call.queues_kept (env : Env) (db : Db) (c : Call) {q : Queue} (mem : q ∈ db.queues) :
    ∃ q' ∈ (c.step env db).1.queues, q'.name = q.name := by
  cases c with
  | start request =>
    cases request with
    | ensureQueue name => exact db.ensureQueue_kept env name mem
    | submit s => exact db.ensureQueue_kept env s.job.queue mem
    | setQueuePaused name paused => exact db.setQueuePaused_kept name paused mem
    | recoverExpiredLeases limit =>
      rw [recoverExpiredLeases_fst]
      split <;> exact ⟨q, mem, rfl⟩
    | cancelJob id => exact ⟨q, by rw [cancelJob_fst]; exact mem, rfl⟩
    | retryJob id => exact ⟨q, by rw [retryJob_fst]; exact mem, rfl⟩
    | leaseNext worker queues secs =>
      exact ⟨q, (db.leaseNext_queues env worker queues secs).symm ▸ mem, rfl⟩
    | completeJob id worker result => exact ⟨q, by simpa using mem, rfl⟩
    | failJob id worker error timedOut => exact ⟨q, by simpa using mem, rfl⟩
    | _ => exact ⟨q, mem, rfl⟩
  | submitInsert s => exact ⟨q, by simpa using mem, rfl⟩
  | submitReadQueue s => exact ⟨q, by simpa using mem, rfl⟩
  | submitLookup s => exact ⟨q, by simpa using mem, rfl⟩
  | submitFallback s => exact ⟨q, by simpa using mem, rfl⟩
  | _ => exact ⟨q, mem, rfl⟩

end Djq
