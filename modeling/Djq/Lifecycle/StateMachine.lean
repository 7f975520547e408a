import Djq.Storage.Dossier
import Djq.System.Events

/-!
# The store against the declared state machine

`status.rs` declares a transition table and asks every storage mutation to
respect it. The SQL never consults the table; each statement has its own source
and target statuses. This module compares them, statement by statement and then
operation by operation.
-/

namespace Djq

open Relational Transition

/-! ## Statement by statement -/

/-- A change of status the table has, or none. -/
def Conforms (source target : JobStatus) : Prop := target = source ∨ source.canTransitionTo target = true

/-- The three writes whose change of status is not in the table. -/
inductive Strays (env : Env) (id : Uuid) : Call → Job → JobStatus → Prop where
  | failed {worker error timedOut j} (processing : j.status = .processing) (holder : j.lockedBy = some worker)
      (exhausted : j.maxAttempts ≤ j.attempts) (files : j.deadLetter = true) :
      Strays env id (.start (.failJob id worker error timedOut)) j .deadLettered
  | expired {limit before j} (exhausted : Db.exhaustedDeadLetter env j = true) :
      Strays env id (.recoverDeadLetter limit before) j .deadLettered
  | retried {j} (ended : j.status = .failed ∨ j.status = .deadLettered) : Strays env id (.start (.retryJob id)) j .queued

theorem conforms_cancelled {s : JobStatus} (cancellable : s ∈ [JobStatus.queued, .scheduled, .retrying, .processing]) :
    Conforms s .cancelled := by
  simp only [List.mem_cons, List.not_mem_nil, or_false] at cancellable
  rcases cancellable with rfl | rfl | rfl | rfl <;> exact .inr rfl

theorem conforms_processing {s : JobStatus} (leaseable : s ∈ [JobStatus.queued, .scheduled, .retrying]) :
    Conforms s .processing := by
  simp only [List.mem_cons, List.not_mem_nil, or_false] at leaseable
  rcases leaseable with rfl | rfl | rfl <;> exact .inr rfl

/-- Every write of a row has its change of status in the table, three excepted. -/
theorem RowStep.status {env : Env} {db : Db} {id : Uuid} {c : Call} {p : Progress} {r r' : Option Job}
    (life : RowStep env db id c p r r') {j j' : Job} (before : r = some j) (after : r' = some j') :
    Conforms j.status j'.status ∨ Strays env id c j j'.status := by
  cases life with
  | same =>
    obtain rfl := Option.some.inj (before.symm.trans after)
    exact .inl (.inl rfl)
  | inserted => cases before
  | purged => cases after
  | leased leaseable =>
    obtain rfl := Option.some.inj before
    obtain rfl := Option.some.inj after
    exact .inl (conforms_processing leaseable)
  | renewed =>
    obtain rfl := Option.some.inj before
    obtain rfl := Option.some.inj after
    exact .inl (.inl rfl)
  | completed processing =>
    obtain rfl := Option.some.inj before
    obtain rfl := Option.some.inj after
    rw [processing]
    exact .inl (.inr rfl)
  | failed processing holder =>
    obtain rfl := Option.some.inj before
    obtain rfl := Option.some.inj after
    unfold Job.failUpdate
    split_ifs with exhausted files
    · exact .inr (.failed processing holder exhausted files)
    · rw [processing]
      exact .inl (.inr rfl)
    · rw [processing]
      exact .inl (.inr rfl)
  | cancelled cancellable =>
    obtain rfl := Option.some.inj before
    obtain rfl := Option.some.inj after
    exact .inl (conforms_cancelled cancellable)
  | requeued ended =>
    obtain rfl := Option.some.inj before
    obtain rfl := Option.some.inj after
    exact .inr (.retried (by simpa using ended))
  | expiredRetrying _ expired =>
    obtain rfl := Option.some.inj before
    obtain rfl := Option.some.inj after
    rw [Db.processing_of_expired expired]
    exact .inl (.inr rfl)
  | expiredDeadLettered _ expired exhausted files =>
    obtain rfl := Option.some.inj before
    obtain rfl := Option.some.inj after
    refine .inr (.expired ?_)
    simp only [Db.exhaustedDeadLetter, expired, exhausted, files, and_self, decide_true, Bool.and_self]
  | expiredFailed _ expired =>
    obtain rfl := Option.some.inj before
    obtain rfl := Option.some.inj after
    rw [Db.processing_of_expired expired]
    exact .inl (.inr rfl)

/-! ## Operation by operation -/

/-- The arguments and states for which an operation makes such a write. -/
def Request.strays (env : Env) (db : Db) : Request → Prop
  | .failJob id worker _ _ => ∃ j, db.job? id = some j ∧ j.status = .processing ∧ j.lockedBy = some worker ∧
      j.maxAttempts ≤ j.attempts ∧ j.deadLetter = true
  | .recoverExpiredLeases limit => 0 < limit ∧ ∃ j ∈ db.jobs, Db.exhaustedDeadLetter env j = true
  | .retryJob id => ∃ j, db.job? id = some j ∧ (j.status = .failed ∨ j.status = .deadLettered)
  | _ => False

/-- The operation changes every job along the table. -/
def Request.conforms (env : Env) (db : Db) (request : Request) : Prop :=
  ∀ id j j', db.job? id = some j → (request.serve env db).1.job? id = some j' → Conforms j.status j'.status

section Operations

variable {env : Env} {db : Db}

/-- The operations whose first unit is their only write to `jobs`. -/
def Request.oneWrite : Request → Bool
  | .submit _ => false
  | .recoverExpiredLeases _ => false
  | _ => true

theorem Request.serve_job? {request : Request} (one : request.oneWrite = true) (id : Uuid) :
    (request.serve env db).1.job? id = ((Call.start request).step env db).1.job? id := by
  cases request with
  | submit => cases one
  | recoverExpiredLeases => cases one
  | cancelJob id' =>
    rw [Call.cancelJob_fst]
    simp only [serve, PgStore.cancelJob]
    rcases db.cancelJob env id' with ⟨db', _ | j⟩ <;> rfl
  | retryJob id' =>
    rw [Call.retryJob_fst]
    simp only [serve, PgStore.retryJob]
    rcases db.requeueJob env id' with ⟨db', _ | j⟩ <;> rfl
  | completeJob id' worker result =>
    rw [Call.completeJob_fst]
    simp only [serve, PgStore.completeJob]
    rcases db.completeJob env id' worker result with ⟨db', _ | j⟩ <;> rfl
  | failJob id' worker error timedOut =>
    rw [Call.failJob_fst]
    simp only [serve, PgStore.failJob]
    rcases db.failJob env id' worker error timedOut with ⟨db', _ | j⟩ <;> rfl
  | _ => rfl

theorem conforms_of_oneWrite (keyed : Keyed Job.id db.jobs) (unused : db.job? env.uuid = none) {request : Request}
    (one : request.oneWrite = true) (stays : ¬ request.strays env db) : request.conforms env db := by
  intro id j j' before after
  rw [Request.serve_job? one] at after
  obtain conforms | strays := (Call.row_step keyed unused (.start request)).status before after
  · exact conforms
  · generalize target : j'.status = status at strays
    cases strays with
    | failed processing holder exhausted files =>
      exact absurd ⟨j, before, processing, holder, exhausted, files⟩ stays
    | retried ended => exact absurd ⟨j, before, ended⟩ stays

/-- `submit` leaves the rows there are as they are. -/
theorem submit_job? (s : Submittable) {id : Uuid} {j : Job} (before : db.job? id = some j) :
    ((Request.submit s).serve env db).1.job? id = some j := by
  have inserted : ∀ db : Db, db.job? id = some j → (db.insertJob env s.job).1.job? id = some j := by
    intro db before
    obtain same | added := db.insertJob_fst env s.job
    · rw [same]
      exact before
    · rw [added]
      have appended : ({ db with jobs := db.jobs ++ [s.job.row env] } : Db).job? id =
          (db.job? id).or (if (s.job.row env).id = id then some (s.job.row env) else none) := lookup_append
      rw [appended, before, Option.some_or]
  have ensured : (db.ensureQueue env s.job.queue).job? id = some j := before
  simp only [Request.serve, PgStore.submit, PgStore.ensureQueue]
  generalize db.ensureQueue env s.job.queue = db at ensured
  split
  · rename_i eq
    obtain ⟨rfl, -⟩ := Prod.mk.inj eq
    exact ensured
  · rename_i eq
    obtain ⟨rfl, -⟩ := Prod.mk.inj eq
    split
    · exact ensured
    · have after := inserted _ ensured
      split
      · rename_i insert
        rw [insert] at after
        exact after
      · rename_i insert
        rw [insert] at after
        exact after
      · rename_i insert
        rw [insert] at after
        split <;> exact after

/-- What a sweep leaves of a row: its second statement strays, the others do not. -/
theorem sweep_job? (keyed : Keyed Job.id db.jobs) {limit : Int} (valid : 0 ≤ limit) {id : Uuid} {j : Job}
    (before : db.job? id = some j) :
    (id ∈ ((db.recoverRetryable env limit).1.recoverDeadLetter env limit).2 ∧ Db.exhaustedDeadLetter env j = true ∧
      ((Request.recoverExpiredLeases limit).serve env db).1.job? id = some (j.setExpiredDeadLettered env.now)) ∨
    (id ∉ ((db.recoverRetryable env limit).1.recoverDeadLetter env limit).2 ∧
      ∃ j', ((Request.recoverExpiredLeases limit).serve env db).1.job? id = some j' ∧ Conforms j.status j'.status) := by
  have nonnegative : ¬ limit < 0 := by omega
  rcases first : db.recoverRetryable env limit with ⟨db₁, retryIds⟩
  rcases second : db₁.recoverDeadLetter env limit with ⟨db₂, dlqIds⟩
  rcases third : db₂.recoverFailed env limit with ⟨db₃, failedIds⟩
  have ends : ((Request.recoverExpiredLeases limit).serve env db).1.job? id = db₃.job? id := by
    simp only [Request.serve, PgStore.recoverExpiredLeases, if_neg nonnegative, first, second, third]
    split <;> rfl
  have taken := Db.sweep_taken keyed first second third id
  rw [ends]
  rw [before] at taken
  simp only
  generalize db₃.job? id = r', db.entries id = f, db₃.entries id = f' at taken
  cases taken with
  | retrying _ once expired =>
    refine .inr ⟨once.1, _, rfl, ?_⟩
    rw [Db.processing_of_expired expired]
    exact .inr rfl
  | deadLettered taken _ expired exhausted files =>
    refine .inl ⟨taken, ?_, rfl⟩
    simp only [Db.exhaustedDeadLetter, expired, exhausted, files, and_self, decide_true, Bool.and_self]
  | failed _ once expired =>
    refine .inr ⟨once.2, _, rfl, ?_⟩
    rw [Db.processing_of_expired expired]
    exact .inr rfl
  | left out => exact .inr ⟨out.2.1, j, rfl, .inl rfl⟩

/-- With a limit of zero the reaper takes nothing. -/
theorem limit_pos {which : Job → Bool} {limit : Int} {id : Uuid} (taken : id ∈ (db.expiredBatch which limit).map Job.id) :
    0 < limit := by
  by_contra negative
  have zero : limit.toNat = 0 := by omega
  simp only [Db.expiredBatch, top, zero, List.take_zero, List.map_nil, List.not_mem_nil] at taken

theorem sweep_conforms_iff (keyed : Keyed Job.id db.jobs) (limit : Int) :
    (Request.recoverExpiredLeases limit).conforms env db ↔ ¬ (Request.recoverExpiredLeases limit).strays env db := by
  constructor
  · rintro conforms ⟨positive, j, mem, exhausted⟩
    have valid : 0 ≤ limit := by omega
    have keyed₁ : Keyed Job.id (db.recoverRetryable env limit).1.jobs := keyed.updateWhere fun _ => rfl
    have row := keyed.lookup_self mem
    simp only [Db.exhaustedDeadLetter, Bool.and_eq_true, decide_eq_true_eq] at exhausted
    -- The row is still there for the second statement, so its batch is not empty.
    have row₁ : (db.recoverRetryable env limit).1.job? j.id = some j := by
      obtain ⟨-, k, row', -, left, -⟩ | ⟨-, same⟩ := Db.recoverRetryable_spec keyed env limit j.id
      · obtain rfl := Option.some.inj (row.symm.trans row')
        omega
      · exact same.trans row
    have candidates : (db.recoverRetryable env limit).1.jobs.filter (Db.exhaustedDeadLetter env) ≠ [] := by
      apply List.ne_nil_of_mem (a := j)
      refine List.mem_filter.2 ⟨Db.job?_mem row₁, ?_⟩
      simpa only [Db.exhaustedDeadLetter, Bool.and_eq_true, decide_eq_true_eq] using exhausted
    have positive' : 0 < limit.toNat := by omega
    have batch : (db.recoverRetryable env limit).1.expiredBatch (Db.exhaustedDeadLetter env) limit ≠ [] :=
      top_ne_nil candidates positive'
    obtain ⟨k, inBatch⟩ := List.exists_mem_of_ne_nil _ batch
    have taken : k.id ∈ ((db.recoverRetryable env limit).1.recoverDeadLetter env limit).2 :=
      List.mem_map_of_mem inBatch
    have there : (db.job? k.id).isSome = true := by
      apply lookup_isSome_iff.2
      obtain ⟨k', mem', same⟩ := mem_updateWhere.1 (Db.mem_expiredBatch inBatch).1
      refine ⟨k', mem', ?_⟩
      rw [← same]
      split <;> rfl
    obtain ⟨k', row'⟩ := Option.isSome_iff_exists.1 there
    obtain ⟨-, exhausted', after⟩ | ⟨out, -⟩ := sweep_job? keyed valid row'
    · have processing : k'.status = .processing := by
        simp only [Db.exhaustedDeadLetter, Bool.and_eq_true] at exhausted'
        exact Db.processing_of_expired exhausted'.1
      rcases conforms k.id k' _ row' after with same | table
      · cases same.trans processing
      · rw [processing] at table
        cases table
    · exact absurd taken out
  · intro stays id j j' before after
    by_cases valid : 0 ≤ limit
    · obtain ⟨taken, exhausted, -⟩ | ⟨-, k, row, conforms⟩ := sweep_job? keyed valid before
      · exact absurd ⟨limit_pos taken, j, Db.job?_mem before, exhausted⟩ stays
      · obtain rfl := Option.some.inj (row.symm.trans after)
        exact conforms
    · have negative : limit < 0 := by omega
      simp only [Request.serve, PgStore.recoverExpiredLeases, if_pos negative] at after
      obtain rfl := Option.some.inj (before.symm.trans after)
      exact .inl rfl

theorem fail_strays {id worker : Uuid} {error : String} {timedOut : Bool}
    (strays : (Request.failJob id worker error timedOut).strays env db) :
    ¬ (Request.failJob id worker error timedOut).conforms env db := by
  obtain ⟨j, row, processing, holder, exhausted, files⟩ := strays
  intro conforms
  obtain ⟨-, free⟩ | ⟨k, row', -, -, done⟩ := db.failJob_spec env id worker error timedOut
  · exact free j row ⟨processing, holder⟩
  · obtain rfl := Option.some.inj (row.symm.trans row')
    have after : ((Request.failJob id worker error timedOut).serve env db).1.job? id =
        some (j.failUpdate env.now error j) := by
      rw [Request.serve_job? rfl, Call.failJob_fst, done, Db.job?_failWrite, row, Option.map_some,
        if_pos (Db.job?_id row)]
    have target : (j.failUpdate env.now error j).status = .deadLettered := by
      simp [Job.failUpdate, exhausted, files]
    rcases conforms id j _ row after with same | table
    · cases target.symm.trans (same.trans processing)
    · rw [processing, target] at table
      cases table

theorem retry_strays {id : Uuid} (strays : (Request.retryJob id).strays env db) :
    ¬ (Request.retryJob id).conforms env db := by
  obtain ⟨j, row, ended⟩ := strays
  intro conforms
  have after : ((Request.retryJob id).serve env db).1.job? id = some (j.setRequeued env.now) := by
    rw [Request.serve_job? rfl, Call.retryJob_fst, Db.job?_requeueJob, row, Option.map_some,
      if_pos ⟨Db.job?_id row, by simpa using ended⟩]
  rcases conforms id j _ row after with same | table
  · rcases ended with ended | ended <;> cases same.trans ended
  · rcases ended with ended | ended <;> rw [ended] at table <;> cases table

end Operations

/-- Every operation, alone on any reachable state, changes every job along the table. -/
def RefinesTable : Prop :=
  ∀ t ls s env request, Run Step (Sys.init t) ls s → env.now = s.clock → env.uuid ∉ s.issued →
    Request.conforms env s.db request

/-- Submit a job with a single attempt and lease it. -/
def lastAttemptScript : List Action :=
  Action.submit 0 (.sample 1 none NewJob.sample_once) 7 ++ Action.call 1 (.leaseNext 1 ["emails"] 60)

/-- `fail_job` on a last attempt goes from `processing` straight to `dead_lettered`. -/
theorem not_refinesTable : ¬ RefinesTable := by
  intro refines
  have run := @Sys.replay_run (Sys.init 0) lastAttemptScript (by decide)
  have conforms := refines 0 _ _ ⟨0, [], 9⟩ (.failJob 7 1 "boom" false) run rfl (by decide)
  rcases conforms 7 ((Job.sample 1 none).setLeased 0 1 60)
    (((Job.sample 1 none).setLeased 0 1 60).setDeadLettered 0 "boom") (by decide) (by decide) with same | table
  · cases same
  · cases table

/-- **When an operation respects the table.** On a reachable state every operation
changes the status of every job along the declared table, or not at all, exactly
when it is none of: `fail_job` by the holder of a job on its last attempt that
dead-letters, a sweep that finds an expired one of these, and `retry_job` of a
failed or dead-lettered job. -/
theorem conforms_iff_not_strays {t : Int} {ls : List Label} {s : Sys} {env : Env}
    (run : Run Step (Sys.init t) ls s) (fresh : env.uuid ∉ s.issued) (request : Request) :
    (∀ id j j', s.db.job? id = some j → (request.serve env s.db).1.job? id = some j' →
      j'.status = j.status ∨ j.status.canTransitionTo j'.status = true) ↔ ¬ request.strays env s.db := by
  have sound := Sys.sound_of_run run
  have unused := sound.unused fresh
  show request.conforms env s.db ↔ _
  cases request with
  | recoverExpiredLeases limit => exact sweep_conforms_iff sound.keyed limit
  | failJob id worker error timedOut =>
    constructor
    · intro conforms strays
      exact fail_strays strays conforms
    · exact conforms_of_oneWrite sound.keyed unused rfl
  | retryJob id =>
    constructor
    · intro conforms strays
      exact retry_strays strays conforms
    · exact conforms_of_oneWrite sound.keyed unused rfl
  | submit new =>
    refine ⟨fun _ => not_false, fun _ id j j' before after => ?_⟩
    obtain rfl := Option.some.inj ((submit_job? new before).symm.trans after)
    exact .inl rfl
  | _ => exact ⟨fun _ => not_false, fun stays => conforms_of_oneWrite sound.keyed unused rfl stays⟩

/-- Completing that same job is in the table. -/
theorem conforms_iff_not_strays_complete :
    (∀ id j j', ((Sys.init 0).replay lastAttemptScript).db.job? id = some j →
      ((Request.completeJob 7 1 none).serve ⟨0, [], 9⟩ ((Sys.init 0).replay lastAttemptScript).db).1.job? id = some j' →
      j'.status = j.status ∨ j.status.canTransitionTo j'.status = true) ↔
    ¬ (Request.completeJob 7 1 none).strays ⟨0, [], 9⟩ ((Sys.init 0).replay lastAttemptScript).db := by
  have run := @Sys.replay_run (Sys.init 0) lastAttemptScript (by decide)
  exact conforms_iff_not_strays run (by decide) (.completeJob 7 1 none)

end Djq
