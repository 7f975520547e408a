import Djq.System.Events

/-!
# Jobs and the dead-letter table

A job is dead-lettered together with the row it is filed under. `retry_job` takes
the two apart: it requeues the job in one commit and removes the row in another.
What keeps the table in step with the jobs is that nothing comes in between.
-/

namespace Djq

open Relational Transition

/-- The job `id` has status `dead_lettered`. -/
def Db.dead (db : Db) (id : Uuid) : Bool := (db.job? id).any fun j => decide (j.status = .deadLettered)

/-- `dead_letter_jobs` holds a row with its id. -/
def Db.filed (db : Db) (id : Uuid) : Bool := (db.deadLetter? id).isSome

theorem Db.dead_some {db : Db} {id : Uuid} {j : Job} (row : db.job? id = some j) :
    db.dead id = decide (j.status = .deadLettered) := by
  simp only [dead, row, Option.any_some]

/-! ## One unit -/

/-- The units that move a job into or out of `dead_lettered`, or remove a row. -/
def Call.movesDead : Call → Bool
  | .start (.failJob _ _ _ _) => true
  | .start (.retryJob _) => true
  | .recoverDeadLetter _ _ => true
  | .removeDeadLetter _ => true
  | _ => false

theorem RowStep.dead_same {env : Env} {db db' : Db} {id : Uuid} {c : Call} {p : Progress}
    (life : RowStep env db id c p (db.job? id) (db'.job? id)) (other : c.movesDead = false) :
    db'.dead id = db.dead id := by
  unfold Db.dead
  generalize db.job? id = r at life
  generalize db'.job? id = r' at life
  cases life with
  | same => rfl
  | @inserted s row eq =>
    rw [eq]
    rcases s.sound.status with waiting | waiting <;> simp [waiting]
  | leased leaseable =>
    simp only [List.mem_cons, List.not_mem_nil, or_false] at leaseable
    rcases leaseable with was | was | was <;> simp [was]
  | renewed processing => simp [processing]
  | completed processing => simp [processing]
  | failed => cases other
  | cancelled cancellable =>
    simp only [List.mem_cons, List.not_mem_nil, or_false] at cancellable
    rcases cancellable with was | was | was | was <;> simp [was]
  | requeued => cases other
  | expiredRetrying _ expired =>
    simp [Db.processing_of_expired expired]
  | expiredDeadLettered => cases other
  | expiredFailed _ expired => simp [Db.processing_of_expired expired]
  | purged ended =>
    simp only [List.mem_cons, List.not_mem_nil, or_false] at ended
    rcases ended with was | was <;> simp [was]

theorem Call.deadLetters_same (env : Env) (db : Db) {c : Call} (other : c.movesDead = false) :
    (c.step env db).1.deadLetters = db.deadLetters := by
  cases c with
  | start request =>
    cases request with
    | failJob => cases other
    | retryJob => cases other
    | cancelJob id =>
      rw [cancelJob_fst]
      rfl
    | completeJob id worker result => simp
    | leaseNext worker queues secs => exact db.leaseNext_deadLetters env worker queues secs
    | recoverExpiredLeases limit =>
      rw [recoverExpiredLeases_fst]
      split <;> rfl
    | _ => rfl
  | submitInsert s => simp
  | submitReadQueue s => simp
  | submitLookup s => simp
  | submitFallback s => simp
  | recoverDeadLetter => cases other
  | removeDeadLetter => cases other
  | _ => rfl

/-- What a unit does to a job and its dead-letter row. -/
inductive FileStep (db db' : Db) (id : Uuid) : Call → Progress → Prop where
  | quiet {c p} (dead : db'.dead id = db.dead id) (filed : db'.filed id = db.filed id)
      (noRetry : ∀ job, p = .next (.removeDeadLetter job) → job.id ≠ id)
      (noRemoval : ∀ job, c = .removeDeadLetter job → job.id ≠ id) : FileStep db db' id c p
  | files {c p} (alive : db.dead id = false) (dead : db'.dead id = true) (filed : db'.filed id = true)
      (noRetry : ∀ job, p ≠ .next (.removeDeadLetter job)) (noRemoval : ∀ job, c ≠ .removeDeadLetter job) :
      FileStep db db' id c p
  | requeues {job} (isId : job.id = id) (alive : db'.dead id = false) (filed : db'.filed id = db.filed id) :
      FileStep db db' id (.start (.retryJob id)) (.next (.removeDeadLetter job))
  | removes {job p} (isId : job.id = id) (dead : db'.dead id = db.dead id) (unfiled : db'.filed id = false)
      (last : p = .done (.ok (.job job))) : FileStep db db' id (.removeDeadLetter job) p

variable {env : Env} {db : Db} {id : Uuid}

theorem file_step_other (keyed : Keyed Job.id db.jobs) (unused : db.job? env.uuid = none) {c : Call}
    (other : c.movesDead = false) : FileStep db (c.step env db).1 id c (c.step env db).2 := by
  refine .quiet ((Call.row_step keyed unused c).dead_same other) ?_ ?_ ?_
  · rw [Db.filed, Db.filed, Db.deadLetter?, Call.deadLetters_same env db other]
    rfl
  · intro job next
    cases Call.follows next
    cases other
  · rintro job rfl
    cases other

theorem file_step_fail (id' worker : Uuid) (error : String) (timedOut : Bool) :
    FileStep db ((Call.start (.failJob id' worker error timedOut)).step env db).1 id
      (.start (.failJob id' worker error timedOut)) ((Call.start (.failJob id' worker error timedOut)).step env db).2 := by
  simp only [Call.step]
  obtain ⟨⟨e, refused⟩, -⟩ | ⟨j, row, -, processing, done⟩ := db.failJob_spec env id' worker error timedOut
  · simp only [refused]
    exact .quiet rfl rfl (by simp) (by simp)
  · simp only [done]
    have after : (db.failWrite env id' error timedOut j).job? id =
        (db.job? id).map fun k => if k.id = id' then j.failUpdate env.now error k else k := Db.job?_failWrite
    by_cases isId : id' = id
    · subst isId
      have alive : db.dead id' = false := by rw [Db.dead_some row, processing]; rfl
      have row' : (db.failWrite env id' error timedOut j).job? id' = some (j.failUpdate env.now error j) := by
        rw [after, row, Option.map_some, if_pos (Db.job?_id row)]
      by_cases last : j.maxAttempts ≤ j.attempts ∧ j.deadLetter = true
      · refine .files alive ?_ ?_ (by simp) (by simp)
        · rw [Db.dead_some row']
          simp [Job.failUpdate, last]
        · simp only [Db.filed, Db.deadLetter?, Db.failWrite, if_pos last]
          exact lookup_insertIgnore_isSome.2 (.inr (Db.job?_id row))
      · refine .quiet ?_ ?_ (by simp) (by simp)
        · rw [alive, Db.dead_some row', Job.failUpdate]
          split_ifs with exhausted files
          · exact absurd ⟨exhausted, files⟩ last
          · simp
          · simp
        · simp only [Db.filed, Db.deadLetter?, Db.failWrite, if_neg last]
    · refine .quiet ?_ ?_ (by simp) (by simp)
      · rw [Db.dead, Db.dead, after, Db.map_other]
        intro k row
        exact if_neg fun same => isId (same.symm.trans (Db.job?_id row))
      · simp only [Db.filed, Db.deadLetter?, Db.failWrite]
        split
        · rw [Bool.eq_iff_iff, lookup_insertIgnore_isSome, Job.deadLetterRow, Db.job?_id row]
          simp [isId]
        · rfl

theorem file_step_retry (keyed : Keyed Job.id db.jobs) (id' : Uuid) :
    FileStep db ((Call.start (.retryJob id')).step env db).1 id (.start (.retryJob id'))
      ((Call.start (.retryJob id')).step env db).2 := by
  have after := db.job?_requeueJob env id id'
  have filed : (db.requeueJob env id').1.filed id = db.filed id := rfl
  rw [Call.retryJob_fst]
  simp only [Call.step]
  obtain ⟨none, -⟩ | ⟨j, row, ended, done⟩ := Db.requeueJob_spec keyed env id'
  · simp only [none]
    exact .quiet rfl rfl (by simp) (by simp)
  · rcases eq : db.requeueJob env id' with ⟨db', reply⟩
    rw [eq] at done after filed
    obtain rfl : reply = _ := done
    by_cases isId : id' = id
    · subst isId
      have row' : db'.job? id' = some (j.setRequeued env.now) := by
        rw [after, row, Option.map_some, if_pos ⟨Db.job?_id row, ended⟩]
      refine .requeues (Db.job?_id row') ?_ filed
      rw [Db.dead_some row']
      rfl
    · refine .quiet ?_ filed ?_ (by simp)
      · rw [Db.dead, Db.dead, after, Db.map_other]
        intro k row
        exact if_neg fun hit => isId (hit.1.symm.trans (Db.job?_id row))
      · rintro job next
        cases next
        intro same
        exact isId ((Db.job?_id row).symm.trans same)

theorem file_step_recover (keyed : Keyed Job.id db.jobs) (limit : Int) (before : List Uuid) :
    FileStep db ((Call.recoverDeadLetter limit before).step env db).1 id (.recoverDeadLetter limit before)
      ((Call.recoverDeadLetter limit before).step env db).2 := by
  have filed : (db.recoverDeadLetter env limit).1.filed id = true ↔
      db.filed id = true ∨ id ∈ (db.recoverDeadLetter env limit).2 := by
    simp only [Db.filed, Db.deadLetter?, Db.recoverDeadLetter, lookup_insertBatch_isSome, Job.deadLetterRow,
      List.mem_map]
  simp only [Call.step]
  obtain ⟨taken, j, row, expired, -, -, row'⟩ | ⟨out, same⟩ := Db.recoverDeadLetter_spec keyed env limit id
  · refine .files ?_ ?_ (filed.2 (.inr taken)) (by simp) (by simp)
    · rw [Db.dead_some row, Db.processing_of_expired expired]
      rfl
    · rw [Db.dead_some row']
      rfl
  · refine .quiet ?_ ?_ (by simp) (by simp)
    · rw [Db.dead, Db.dead, same]
    · rw [Bool.eq_iff_iff, filed]
      exact or_iff_left out

theorem file_step_remove (job : Job) :
    FileStep db ((Call.removeDeadLetter job).step env db).1 id (.removeDeadLetter job)
      ((Call.removeDeadLetter job).step env db).2 := by
  have filed : (db.removeDeadLetter job.id).filed id = true ↔ db.filed id = true ∧ id ≠ job.id := lookup_delete_isSome
  simp only [Call.step]
  by_cases isId : job.id = id
  · refine .removes isId rfl ?_ rfl
    rw [Bool.eq_false_iff]
    intro still
    exact (filed.1 still).2 isId.symm
  · refine .quiet rfl ?_ (by simp) ?_
    · rw [Bool.eq_iff_iff, filed]
      exact and_iff_left (Ne.symm isId)
    · rintro job' eq
      cases eq
      exact isId

/-- **Every unit is one of these.** -/
theorem Call.file_step (keyed : Keyed Job.id db.jobs) (unused : db.job? env.uuid = none) (c : Call) :
    FileStep db (c.step env db).1 id c (c.step env db).2 := by
  cases c with
  | start request =>
    cases request with
    | failJob id' worker error timedOut => exact file_step_fail id' worker error timedOut
    | retryJob id' => exact file_step_retry keyed id'
    | _ => exact file_step_other keyed unused rfl
  | recoverDeadLetter limit before => exact file_step_recover keyed limit before
  | removeDeadLetter job => exact file_step_remove job
  | _ => exact file_step_other keyed unused rfl

/-! ## Every run -/

/-- A `retry_job` of this job is between its two statements. -/
def Sys.retrying (s : Sys) (id : Uuid) : Prop := ∃ i job, s.calls i = some (.removeDeadLetter job) ∧ job.id = id

/-- The step moves the job to `dead_lettered`. -/
def Label.deadLetters (id : Uuid) : Label → Bool
  | .commit _ u => !u.db.dead id && u.after.dead id
  | _ => false

/-- The steps that do not come between the two statements of `retry_job`: it does
not stop there while the table still holds its row, and its job is not
dead-lettered meanwhile. -/
structure RetriesWhole (s : Sys) (l : Label) : Prop where
  noStop : ∀ i job, l = .stop i (.removeDeadLetter job) → s.db.filed job.id = false
  noDeadLetter : ∀ id, s.retrying id → l.deadLetters id = false

/-- The job and its dead-letter row go together, but for a retry that has not removed the row yet. -/
structure Sys.InStep (s : Sys) (id : Uuid) : Prop where
  filed : s.db.dead id = true → s.db.filed id = true
  dead : s.db.filed id = true → s.db.dead id = true ∨ s.retrying id
  alive : s.retrying id → s.db.dead id = false

/-- Who is retrying after call `i` has moved from `c` to `c'`. -/
theorem Sys.retrying_setCall {s s' : Sys} {i : Nat} {c c' : Option Call} (was : s.calls i = c)
    (calls : s'.calls = s.setCall i c') {id : Uuid} (notWas : ∀ job, c = some (.removeDeadLetter job) → job.id ≠ id)
    (notIs : ∀ job, c' = some (.removeDeadLetter job) → job.id ≠ id) : s'.retrying id ↔ s.retrying id := by
  constructor
  · rintro ⟨k, job, inFlight, isId⟩
    by_cases this : k = i
    · subst this
      rw [calls, s.setCall_self] at inFlight
      exact absurd isId (notIs job inFlight)
    · rw [calls, s.setCall_other _ this] at inFlight
      exact ⟨k, job, inFlight, isId⟩
  · rintro ⟨k, job, inFlight, isId⟩
    by_cases this : k = i
    · subst this
      rw [was] at inFlight
      exact absurd isId (notWas job inFlight)
    · refine ⟨k, job, ?_, isId⟩
      rw [calls, s.setCall_other _ this]
      exact inFlight

namespace Sys.InStep

variable {s s' : Sys} {id : Uuid}

/-- A step that leaves the job, its row and its retries alone. -/
theorem same (inv : s.InStep id) (dead : s'.db.dead id = s.db.dead id) (filed : s'.db.filed id = s.db.filed id)
    (retrying : s'.retrying id ↔ s.retrying id) : s'.InStep id := by
  constructor
  · rw [dead, filed]
    exact inv.filed
  · rw [dead, filed, retrying]
    exact inv.dead
  · rw [dead, retrying]
    exact inv.alive

theorem clear (alive : s.db.dead id = false) (unfiled : s.db.filed id = false) : s.InStep id := by
  constructor
  · intro dead
    exact absurd (alive.symm.trans dead) Bool.false_ne_true
  · intro filed
    exact absurd (unfiled.symm.trans filed) Bool.false_ne_true
  · intro _
    exact alive

theorem commit {i : Nat} {c : Call} {p : Progress} (inv : s.InStep id) (file : FileStep s.db s'.db id c p)
    (inFlight : s.calls i = some c) (calls : s'.calls = s.setCall i p.pending)
    (whole : s.retrying id → s.db.dead id = false → s'.db.dead id = false) : s'.InStep id := by
  cases file with
  | quiet dead filed noRetry noRemoval =>
    refine inv.same dead filed (Sys.retrying_setCall inFlight calls ?_ ?_)
    · intro job eq
      exact noRemoval job (Option.some.inj eq)
    · intro job eq
      cases p with
      | done result => cases eq
      | next c' => exact noRetry job (congrArg Progress.next (Option.some.inj eq))
  | files alive dead filed noRetry noRemoval =>
    have retrying : s'.retrying id ↔ s.retrying id := by
      apply Sys.retrying_setCall inFlight calls
      · intro job eq
        exact absurd (Option.some.inj eq) (noRemoval job)
      · intro job eq
        cases p with
        | done result => cases eq
        | next c' => exact absurd (congrArg Progress.next (Option.some.inj eq)) (noRetry job)
    constructor
    · intro _
      exact filed
    · intro _
      exact .inl dead
    · intro retried
      exact whole (retrying.1 retried) alive
  | @requeues job isId alive filed =>
    have retrying : s'.retrying id := by
      refine ⟨i, job, ?_, isId⟩
      rw [calls, s.setCall_self]
      rfl
    constructor
    · intro dead
      exact absurd (alive.symm.trans dead) Bool.false_ne_true
    · intro _
      exact .inr retrying
    · intro _
      exact alive
  | @removes job _ isId dead unfiled last =>
    exact .clear (dead.trans (inv.alive ⟨i, job, inFlight, isId⟩)) unfiled

/-- A stopped call leaves everything in step, if it is not a retry that still has its row to remove. -/
theorem stop {i : Nat} {c : Call} (inv : s.InStep id) (inFlight : s.calls i = some c)
    (whole : ∀ job, c = .removeDeadLetter job → s.db.filed job.id = false) : (s.stop i).InStep id := by
  by_cases retries : ∃ job, c = .removeDeadLetter job ∧ job.id = id
  · obtain ⟨job, rfl, rfl⟩ := retries
    exact .clear (inv.alive ⟨i, job, inFlight, rfl⟩) (whole job rfl)
  · refine inv.same rfl rfl (Sys.retrying_setCall inFlight rfl ?_ ?_)
    · rintro job eq isId
      exact retries ⟨job, Option.some.inj eq, isId⟩
    · rintro job eq
      cases eq

/-- **One step** that does not come between the two statements of a retry. -/
theorem step {l : Label} (sound : s.Sound) (inv : s.InStep id) (step : Restrict RetriesWhole Step s l s') :
    s'.InStep id := by
  obtain ⟨whole, step⟩ := step
  cases step with
  | tick later => exact inv.same rfl rfl Iff.rfl
  | reorder same =>
    refine inv.same ?_ rfl Iff.rfl
    rw [Db.dead, Db.dead, Db.job?, sound.keyed.lookup_perm same]
    rfl
  | begin request =>
    refine inv.same rfl rfl (Sys.retrying_setCall (sound.idle _ (le_refl _)) rfl ?_ ?_)
    · rintro job eq
      cases eq
    · rintro job eq
      cases eq
  | @commit i u inFlight on now fresh =>
    have file : FileStep s.db u.after id u.call u.reply := by
      rw [← on]
      exact u.call.file_step (on ▸ sound.keyed) (on ▸ sound.unused fresh)
    refine inv.commit (i := i) file inFlight rfl fun retrying alive => ?_
    have kept := whole.noDeadLetter id retrying
    simp only [Label.deadLetters, on, alive, Bool.not_false, Bool.true_and] at kept
    exact kept
  | @stop i c inFlight => exact inv.stop inFlight fun job eq => whole.noStop i job (by rw [eq])

end Sys.InStep

theorem Sys.inStep_init (t : Int) (id : Uuid) : (Sys.init t).InStep id := by
  constructor
  · intro dead
    cases dead
  · intro filed
    cases filed
  · rintro ⟨i, job, inFlight, -⟩
    cases inFlight

theorem Sys.inStep_of_run {t : Int} {ls : List Label} {s : Sys}
    (run : Run (Restrict RetriesWhole Step) (Sys.init t) ls s) (id : Uuid) : s.InStep id := by
  induction run with
  | nil => exact Sys.inStep_init t id
  | snoc before last ih => exact ih.step (Sys.sound_of_run before.unrestrict) last

/-! ## What goes wrong, and when it does not -/

/-- Every run, with no retry between its statements at its end, leaves a job
dead-lettered exactly when there is a dead-letter row for it. -/
def DeadLettersInStep : Prop :=
  ∀ t ls s, Run Step (Sys.init t) ls s → (∀ id, ¬ s.retrying id) →
    ∀ id, (∃ j, s.db.job? id = some j ∧ j.status = .deadLettered) ↔ (s.db.deadLetter? id).isSome = true

def Call.isRemoval : Call → Bool
  | .removeDeadLetter _ => true
  | _ => false

/-- No retry is between its statements, as far as the numbers given. -/
def Sys.noRetry (s : Sys) : Bool := (List.range s.nextCall).all fun i => !(s.calls i).any Call.isRemoval

theorem Sys.Sound.noRetry {s : Sys} (sound : s.Sound) (check : s.noRetry = true) (id : Uuid) : ¬ s.retrying id := by
  rintro ⟨i, job, inFlight, -⟩
  have clear := sound.of_given (p := fun c => !c.any Call.isRemoval) check inFlight
  simp [Call.isRemoval] at clear

/-- Exhaust the attempts of a job, so that it is dead-lettered. -/
def exhaustScript : List Action :=
  Action.submit 0 (.sample 1 none NewJob.sample_once) 7 ++ Action.call 1 (.leaseNext 1 ["emails"] 60) ++
    Action.call 2 (.failJob 7 1 "boom" false) ++ [.commit 2 4000]

/-- A retry that stops after its UPDATE leaves the dead-letter row of a queued job. -/
theorem not_deadLettersInStep : ¬ DeadLettersInStep := by
  intro inStep
  have run := @Sys.replay_run (Sys.init 0) (exhaustScript ++ Action.call 3 (.retryJob 7) ++ [.stop 3]) (by decide)
  have idle := (Sys.sound_of_run run).noRetry (by decide)
  obtain ⟨j, row, dead⟩ := (inStep 0 _ _ run idle 7).2 (by decide)
  obtain rfl : ((((Job.sample 1 none).setLeased 0 1 60).setDeadLettered 0 "boom").setRequeued 0) = j :=
    Option.some.inj row
  cases dead

/-- **Jobs and dead-letter rows in step.** In every run in which no `retry_job` is
stopped with its row still to remove, and no job is dead-lettered while a retry of
it is between its two statements, a state with no retry between them has a job
dead-lettered exactly when there is a dead-letter row for it. -/
theorem dead_lettered_iff_filed {t : Int} {ls : List Label} {s : Sys}
    (run : Run (Restrict RetriesWhole Step) (Sys.init t) ls s) (idle : ∀ id, ¬ s.retrying id) (id : Uuid) :
    (∃ j, s.db.job? id = some j ∧ j.status = .deadLettered) ↔ (s.db.deadLetter? id).isSome = true := by
  have inv := Sys.inStep_of_run run id
  have dead : s.db.dead id = true ↔ ∃ j, s.db.job? id = some j ∧ j.status = .deadLettered := by
    simp only [Db.dead, Option.any_eq_true, decide_eq_true_eq]
  rw [← dead]
  constructor
  · exact inv.filed
  · intro filed
    exact (inv.dead filed).resolve_right (idle id)

/-- Nothing is stopped, and nothing is committed during a retry but the retry itself. -/
def retriesWholeCheck (s : Sys) : Label → Bool
  | .stop _ _ => false
  | .commit _ u => s.noRetry || u.call.isRemoval
  | _ => true

theorem retriesWhole_of_check (s : Sys) (l : Label) (sound : s.Sound) (check : retriesWholeCheck s l = true) :
    RetriesWhole s l := by
  constructor
  · rintro i job rfl
    cases check
  · intro id retrying
    cases l with
    | commit i u =>
      rcases Bool.or_eq_true_iff.1 check with clear | removal
      · exact absurd retrying (sound.noRetry clear id)
      · obtain ⟨c, env, db⟩ := u
        cases c with
        | removeDeadLetter job =>
          have same : (Commit.after ⟨.removeDeadLetter job, env, db⟩).dead id = db.dead id := rfl
          simp only [Label.deadLetters, same, Bool.not_and_self]
        | _ => cases removal
    | _ => rfl

/-- Exhausted, and then requeued by a whole retry. -/
theorem dead_lettered_iff_filed_requeued :
    let s := (Sys.init 0).replay (exhaustScript ++ Action.call 3 (.retryJob 7) ++ [.commit 3 4001])
    (∃ j, s.db.job? 7 = some j ∧ j.status = .deadLettered) ↔ (s.db.deadLetter? 7).isSome = true := by
  have passes := @Sys.replay_passes retriesWholeCheck (Sys.init 0)
    (exhaustScript ++ Action.call 3 (.retryJob 7) ++ [.commit 3 4001]) (by decide)
  have run := Sys.run_of_check retriesWhole_of_check passes
  exact dead_lettered_iff_filed run ((Sys.sound_of_run run.unrestrict).noRetry (by decide)) 7

end Djq
