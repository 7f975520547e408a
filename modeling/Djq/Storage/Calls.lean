import Djq.Storage.PgStore

/-!
# Store calls cut at their commits

A call in flight is what the Rust future still has to do: its next unit of SQL
and the locals it will need afterwards. `Call.step` commits that unit and runs
the Rust code up to the next one. Between two steps of a call any other client
may commit, and a call may stop for good before any of its steps (a statement
error that `?` returns, a lost connection, a crash).
-/

namespace Djq

inductive Call where
  /-- Nothing committed yet. -/
  | start (request : Request)
  /-- `ensure_queue`, to read the queue back. -/
  | readQueue (name : String)
  /-- `submit`, to read the ensured queue back. -/
  | submitReadQueue (job : Submittable)
  /-- `submit`, to look the idempotency key up. -/
  | submitLookup (job : Submittable)
  | submitInsert (job : Submittable)
  /-- `submit`, to fetch the row it lost the idempotency race to. -/
  | submitFallback (job : Submittable)
  /-- A guarded UPDATE matched no row; to fetch the job for the error. -/
  | rejected (op : String) (id : Uuid)
  /-- `retry_job` between its UPDATE, which returned `job`, and its DELETE. -/
  | removeDeadLetter (job : Job)
  /-- `fail_job` after its transaction, to re-read the row. -/
  | rereadFailed (id : Uuid)
  /-- `recover_expired_leases` before its second, third and closing statement. -/
  | recoverDeadLetter (limit : Int) (recovered : List Uuid)
  | recoverFailed (limit : Int) (recovered : List Uuid)
  | closeExpired (recovered : List Uuid)

/-- What is left of a call after a unit. -/
inductive Progress where
  | next (call : Call)
  | done (result : Except QueueError Value)

/-- The call still in flight, if it is. -/
def Progress.pending : Progress → Option Call
  | .next call => some call
  | .done _ => none

namespace Call

/-- Commit the next unit of a call. -/
def step (env : Env) (db : Db) : Call → Db × Progress
  | start (.ensureQueue name) => (db.ensureQueue env name, .next (.readQueue name))
  | readQueue name => (db, .done ((found rowNotFound (db.queue? name)).map .queue))
  | start (.setQueuePaused name paused) =>
    let (db, queue) := db.setQueuePaused name paused
    (db, .done ((found (.queueNotFound name) queue).map .queue))
  | start (.submit s) => (db.ensureQueue env s.job.queue, .next (.submitReadQueue s))
  | submitReadQueue s =>
    match db.queue? s.job.queue with
    | none => (db, .done (.error rowNotFound))
    | some _ => (db, .next (if s.job.idempotencyKey.isSome then .submitLookup s else .submitInsert s))
  | submitLookup s =>
    match s.job.idempotencyKey.bind (db.findByKey s.job.queue) with
    | some existing => (db, .done (.ok (.submission ⟨existing, false⟩)))
    | none => (db, .next (.submitInsert s))
  | submitInsert s =>
    match db.insertJob env s.job with
    | (db, .inserted row) => (db, .done (.ok (.submission ⟨row, true⟩)))
    | (db, .otherViolation) => (db, .done (.error constraintViolation))
    | (db, .uniqueViolation) =>
      (db, if s.job.idempotencyKey.isSome then .next (.submitFallback s) else .done (.error duplicateKey))
  | submitFallback s =>
    match s.job.idempotencyKey.bind (db.findByKey s.job.queue) with
    | some existing => (db, .done (.ok (.submission ⟨existing, false⟩)))
    | none => (db, .done (.error rowNotFound))
  | rejected op id => (db, .done (.error (PgStore.rejection op id db)))
  | start (.cancelJob id) =>
    match db.cancelJob env id with
    | (db, some job) => (db, .done (.ok (.job job)))
    | (db, none) => (db, .next (.rejected "cancel" id))
  | start (.retryJob id) =>
    match db.requeueJob env id with
    | (db, some job) => (db, .next (.removeDeadLetter job))
    | (db, none) => (db, .next (.rejected "retry" id))
  | removeDeadLetter job => (db.removeDeadLetter job.id, .done (.ok (.job job)))
  | start (.purgeFinished olderThan) =>
    let (db, rows) := db.purgeFinished olderThan
    (db, .done (.ok (.count rows)))
  | start (.leaseNext worker queues secs) =>
    let (db, job) := db.leaseNext env worker queues secs
    (db, .done (.ok (.leased job)))
  | start (.completeJob id worker result) =>
    match db.completeJob env id worker result with
    | (db, some job) => (db, .done (.ok (.job job)))
    | (db, none) => (db, .next (.rejected "complete" id))
  | start (.failJob id worker error timedOut) =>
    match db.failJob env id worker error timedOut with
    | (db, .error e) => (db, .done (.error e))
    | (db, .ok ()) => (db, .next (.rereadFailed id))
  | rereadFailed id => (db, .done ((found (.jobNotFound id) (db.job? id)).map .job))
  | start (.renewLease id worker secs) =>
    let (db, rows) := db.renewLease env id worker secs
    (db, .done (if rows = 0 then .error (.invalidOperation "renew_lease" .processing) else .ok .unit))
  | start (.recoverExpiredLeases limit) =>
    if limit < 0 then (db, .done (.error negativeLimit))
    else
      let (db, ids) := db.recoverRetryable env limit
      (db, .next (.recoverDeadLetter limit ids))
  | recoverDeadLetter limit recovered =>
    let (db, ids) := db.recoverDeadLetter env limit
    (db, .next (.recoverFailed limit (recovered ++ ids)))
  | recoverFailed limit recovered =>
    let (db, ids) := db.recoverFailed env limit
    (db, if (recovered ++ ids).isEmpty then .done (.ok (.ids [])) else .next (.closeExpired (recovered ++ ids)))
  | closeExpired recovered => (db.closeExpired env recovered, .done (.ok (.ids recovered)))
  | start (.registerWorker worker) => (db.registerWorker env worker, .done (.ok .unit))
  | start (.heartbeat worker) =>
    let (db, known) := db.heartbeat env worker
    (db, .done (.ok (.known known)))
  | start (.deregisterWorker worker) => (db.deregisterWorker worker, .done (.ok .unit))
  | start (.pruneDeadWorkers secs) =>
    let (db, rows) := db.pruneDeadWorkers env secs
    (db, .done (.ok (.count rows)))

/-- The phases of the calls: what may be left of a call after a unit. -/
inductive Follows : Call → Call → Prop where
  | readQueue {name} : Follows (.start (.ensureQueue name)) (.readQueue name)
  | submitReadQueue {s} : Follows (.start (.submit s)) (.submitReadQueue s)
  | submitLookup {s} : Follows (.submitReadQueue s) (.submitLookup s)
  | submitInsert {s} : Follows (.submitReadQueue s) (.submitInsert s)
  | lookupMissed {s} : Follows (.submitLookup s) (.submitInsert s)
  | submitFallback {s} : Follows (.submitInsert s) (.submitFallback s)
  | rejected {request op id} : Follows (.start request) (.rejected op id)
  | removeDeadLetter {id job} : Follows (.start (.retryJob id)) (.removeDeadLetter job)
  | rereadFailed {id worker error timedOut} : Follows (.start (.failJob id worker error timedOut)) (.rereadFailed id)
  | recoverDeadLetter {limit ids} : Follows (.start (.recoverExpiredLeases limit)) (.recoverDeadLetter limit ids)
  | recoverFailed {limit before ids} :
      Follows (.recoverDeadLetter limit before) (.recoverFailed limit (before ++ ids))
  | closeExpired {limit before ids} : Follows (.recoverFailed limit before) (.closeExpired (before ++ ids))

theorem follows {env : Env} {db : Db} {c c' : Call} (next : (c.step env db).2 = .next c') : c.Follows c' := by
  cases c with
  | submitReadQueue s =>
    simp only [step] at next
    split at next
    · cases next
    · obtain rfl := Progress.next.inj next
      split
      · exact .submitLookup
      · exact .submitInsert
  | submitLookup s =>
    simp only [step] at next
    split at next <;> cases next
    exact .lookupMissed
  | submitFallback s =>
    simp only [step] at next
    split at next <;> cases next
  | submitInsert s =>
    simp only [step] at next
    split at next
    · cases next
    · cases next
    · simp only at next
      split at next <;> cases next
      exact .submitFallback
  | recoverDeadLetter limit before =>
    cases next
    exact .recoverFailed
  | recoverFailed limit before =>
    simp only [step] at next
    split at next <;> cases next
    exact .closeExpired
  | start request =>
    cases request with
    | ensureQueue name =>
      cases next
      exact .readQueue
    | submit s =>
      cases next
      exact .submitReadQueue
    | cancelJob id =>
      simp only [step] at next
      split at next <;> cases next
      exact .rejected
    | retryJob id =>
      simp only [step] at next
      split at next <;> cases next
      · exact .removeDeadLetter
      · exact .rejected
    | completeJob id worker result =>
      simp only [step] at next
      split at next <;> cases next
      exact .rejected
    | failJob id worker error timedOut =>
      simp only [step] at next
      split at next <;> cases next
      exact .rereadFailed
    | recoverExpiredLeases limit =>
      simp only [step] at next
      split at next <;> cases next
      exact .recoverDeadLetter
    | _ => cases next
  | _ => cases next

/-- Run a call to its end with no other client in between; `none` when `fuel`
units are not enough. -/
def alone (env : Env) : Nat → Db → Call → Option (Db × Except QueueError Value)
  | 0, _, _ => none
  | fuel + 1, db, c =>
    match c.step env db with
    | (db, .done result) => some (db, result)
    | (db, .next c) => alone env fuel db c

variable {env : Env} {db db' : Db} {c c' : Call} {fuel : Nat} {result : Except QueueError Value}

theorem alone_done (last : c.step env db = (db', .done result)) :
    c.alone env (fuel + 1) db = some (db', result) := by
  rw [alone, last]

theorem alone_next (unit : c.step env db = (db', .next c')) :
    c.alone env (fuel + 1) db = c'.alone env fuel db' := by
  rw [alone, unit]

/-- More fuel does not change where a call ends. -/
theorem alone_more {end' : Db × Except QueueError Value} (h : c.alone env fuel db = some end') :
    c.alone env (fuel + 1) db = some end' := by
  induction fuel generalizing db c with
  | zero => simp [alone] at h
  | succ fuel ih =>
    rcases unit : c.step env db with ⟨db', next | result⟩
    · rw [alone_next unit] at h ⊢
      exact ih h
    · rw [alone_done unit] at h ⊢
      exact h

end Call

/-- `submit` from its INSERT on. -/
theorem Call.alone_submitInsert (env : Env) (db : Db) (s : Submittable) :
    (Call.submitInsert s).alone env 2 db = some (match db.insertJob env s.job with
      | (db, .inserted row) => (db, .ok (.submission ⟨row, true⟩))
      | (db, .otherViolation) => (db, .error constraintViolation)
      | (db, .uniqueViolation) =>
        match s.job.idempotencyKey with
        | none => (db, .error duplicateKey)
        | some key =>
          (db, ((found rowNotFound (db.findByKey s.job.queue key)).map (⟨·, false⟩)).map .submission)) := by
  rcases insert : db.insertJob env s.job with ⟨db', reply⟩
  cases reply with
  | inserted row => exact alone_done (by simp only [step, insert])
  | otherViolation => exact alone_done (by simp only [step, insert])
  | uniqueViolation =>
    cases key : s.job.idempotencyKey with
    | none => exact alone_done (by simp [step, insert, key])
    | some key' =>
      have lost : (submitInsert s).step env db = (db', .next (.submitFallback s)) := by
        simp [step, insert, key]
      rw [alone_next lost]
      cases existing : db'.findByKey s.job.queue key' with
      | none => exact alone_done (by simp [step, key, existing, found, Except.map])
      | some j => exact alone_done (by simp [step, key, existing, found, Except.map])

/-- **A call left alone is its operation.** Five units are enough for any of them. -/
theorem Request.alone_eq_serve (env : Env) (db : Db) (request : Request) :
    (Call.start request).alone env 5 db = some (request.serve env db) := by
  cases request with
  | ensureQueue name => rfl
  | setQueuePaused name paused => rfl
  | submit s =>
    rw [Call.alone_next rfl]
    simp only [Request.serve, PgStore.submit, PgStore.ensureQueue]
    generalize db.ensureQueue env s.job.queue = db
    cases queue : db.queue? s.job.queue with
    | none => exact Call.alone_done (by simp [Call.step, queue, Except.map])
    | some q =>
      cases key : s.job.idempotencyKey with
      | none =>
        have unit : (Call.submitReadQueue s).step env db = (db, .next (.submitInsert s)) := by
          simp [Call.step, queue, key]
        rw [Call.alone_next unit, Call.alone_more (Call.alone_submitInsert env db s)]
        simp only [found, Option.bind_none, key]
        rcases db.insertJob env s.job with ⟨db', reply⟩
        cases reply <;> rfl
      | some key' =>
        have unit : (Call.submitReadQueue s).step env db = (db, .next (.submitLookup s)) := by
          simp [Call.step, queue, key]
        rw [Call.alone_next unit]
        cases existing : db.findByKey s.job.queue key' with
        | some j => exact Call.alone_done (by simp [Call.step, key, existing, Except.map])
        | none =>
          have miss : (Call.submitLookup s).step env db = (db, .next (.submitInsert s)) := by
            simp [Call.step, key, existing]
          rw [Call.alone_next miss, Call.alone_submitInsert]
          simp only [found, Option.bind_some, key, existing]
          rcases db.insertJob env s.job with ⟨db', reply⟩
          cases reply <;> rfl
  | cancelJob id =>
    simp only [Call.alone, Call.step, Request.serve, PgStore.cancelJob]
    rcases db.cancelJob env id with ⟨db', job⟩
    cases job <;> rfl
  | retryJob id =>
    simp only [Call.alone, Call.step, Request.serve, PgStore.retryJob]
    rcases requeued : db.requeueJob env id with ⟨db', job⟩
    cases job with
    | none => rfl
    | some job =>
      have same : job.id = id := by
        obtain ⟨a, _, ok, rfl⟩ := Relational.returning_head (congrArg Prod.snd requeued)
        simp only [decide_eq_true_eq] at ok
        exact ok.1
      simp only [same]
      rfl
  | purgeFinished olderThan => rfl
  | leaseNext worker queues secs => rfl
  | completeJob id worker result =>
    simp only [Call.alone, Call.step, Request.serve, PgStore.completeJob]
    rcases db.completeJob env id worker result with ⟨db', job⟩
    cases job <;> rfl
  | failJob id worker error timedOut =>
    simp only [Call.alone, Call.step, Request.serve, PgStore.failJob]
    rcases db.failJob env id worker error timedOut with ⟨db', _ | _⟩ <;> rfl
  | renewLease id worker secs =>
    simp only [Call.alone, Call.step, Request.serve, PgStore.renewLease]
    split <;> rfl
  | recoverExpiredLeases limit =>
    by_cases negative : limit < 0
    · have unit : (Call.start (.recoverExpiredLeases limit)).step env db = (db, .done (.error negativeLimit)) := by
        simp [Call.step, negative]
      rw [Call.alone_done unit]
      simp [Request.serve, PgStore.recoverExpiredLeases, negative, Except.map]
    · rcases first : db.recoverRetryable env limit with ⟨db₁, retryIds⟩
      rcases second : db₁.recoverDeadLetter env limit with ⟨db₂, dlqIds⟩
      rcases third : db₂.recoverFailed env limit with ⟨db₃, failedIds⟩
      have unit₁ : (Call.start (.recoverExpiredLeases limit)).step env db =
          (db₁, .next (.recoverDeadLetter limit retryIds)) := by
        simp [Call.step, negative, first]
      have unit₂ : (Call.recoverDeadLetter limit retryIds).step env db₁ =
          (db₂, .next (.recoverFailed limit (retryIds ++ dlqIds))) := by
        simp [Call.step, second]
      rw [Call.alone_next unit₁, Call.alone_next unit₂]
      simp only [Request.serve, PgStore.recoverExpiredLeases, negative, ↓reduceIte, first, second, third]
      by_cases empty : (retryIds ++ dlqIds ++ failedIds).isEmpty = true
      · have unit₃ : (Call.recoverFailed limit (retryIds ++ dlqIds)).step env db₂ =
            (db₃, .done (.ok (.ids []))) := by
          simp only [Call.step, third, empty, ↓reduceIte]
        rw [Call.alone_done unit₃]
        simp [List.isEmpty_iff.1 empty, Except.map]
      · have unit₃ : (Call.recoverFailed limit (retryIds ++ dlqIds)).step env db₂ =
            (db₃, .next (.closeExpired (retryIds ++ dlqIds ++ failedIds))) := by
          simp only [Call.step, third, if_neg empty]
        rw [Call.alone_next unit₃]
        simp only [if_neg empty]
        rfl
  | registerWorker worker => rfl
  | heartbeat worker => rfl
  | deregisterWorker worker => rfl
  | pruneDeadWorkers secs => rfl

end Djq
