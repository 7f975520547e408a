import Djq.Recovery.Disposal

/-!
# The batch of a sweep

A sweep is given one limit and its three statements take up to that many jobs
each. What it takes in all is the sum over the kinds, so the limit bounds the
sweep only where the kinds are not mixed or there is little to take.
-/

namespace Djq

open Relational Transition

/-! ## The maintenance sweep -/

/-- `MaintenanceConfig`, but for the pause between two sweeps. -/
structure MaintenanceConfig where
  recoverBatch : Int := 100
  workerTtlSecs : Int := 60
  activeWindowSecs : Int := 30

/-- The gauges a sweep refreshes. -/
structure Gauges where
  activeWorkers : Nat
  queueDepth : List (String × Nat)
  deriving DecidableEq

namespace Db

variable (db : Db)

/-- `list_active_workers`. -/
def listActiveWorkers (env : Env) (withinSecs : Int) : List Worker :=
  orderBy (fun a b : Worker => a.registeredAt ≤ b.registeredAt)
    (db.workers.filter fun w => decide (env.now - seconds withinSecs < w.lastHeartbeat))

/-- The number `queue_stats` has for a status of a queue. -/
def queueStats (name : String) (status : JobStatus) : Nat :=
  (db.jobs.filter fun j => decide (j.queue = name ∧ j.status = status)).length

def gauges (env : Env) (cfg : MaintenanceConfig) : Gauges where
  activeWorkers := (db.listActiveWorkers env cfg.activeWindowSecs).length
  queueDepth := db.queues.map fun q =>
    (q.name, db.queueStats q.name .queued + db.queueStats q.name .scheduled + db.queueStats q.name .retrying)

end Db

/-- `maintenance::sweep`, given what each of its steps reads. An error of a step
is logged and the next step goes on. -/
def maintenanceSweep (cfg : MaintenanceConfig) (recover prune refresh : Env) (db : Db) : Db × Gauges :=
  let db := (PgStore.recoverExpiredLeases cfg.recoverBatch recover db).1
  let db := (PgStore.pruneDeadWorkers cfg.workerTtlSecs prune db).1
  (db, db.gauges refresh cfg)

/-! ## What there is to take -/

namespace Db

variable {db : Db} {env : Env}

/-- How many rows there are to take of one kind. -/
def population (env : Env) (db : Db) (o : Verdict) : Nat := (db.jobs.filter (takable env o)).length

theorem population_total : (db.jobs.filter (expired env)).length =
    population env db .retrying + population env db .deadLettered + population env db .failed := by
  unfold population
  induction db.jobs with
  | nil => rfl
  | cons j jobs ih =>
    by_cases lapsed : expired env j = true
    · have kind : ∀ o, takable env o j = decide (j.verdict = o) := by
        intro o
        rw [takable, lapsed, Bool.true_and]
      simp only [List.filter_cons, lapsed, kind, ↓reduceIte, List.length_cons, ih]
      cases j.verdict with
      | _ => simp only [reduceCtorEq, decide_true, decide_false, Bool.false_eq_true, ↓reduceIte, List.length_cons]; omega
    · have kind : ∀ o, takable env o j = false := by
        intro o
        rw [takable, Bool.eq_false_iff.2 lapsed, Bool.false_and]
      simp only [List.filter_cons, lapsed, kind, Bool.false_eq_true, ↓reduceIte, ih]

/-- The jobs that leave `processing` between two states. -/
def movedOut (db db' : Db) : List Uuid :=
  (db.jobs.filter fun j => decide (j.status = .processing) &&
    !(db'.job? j.id).any fun j' => decide (j'.status = .processing)).map Job.id

theorem mem_movedOut {db' : Db} {id : Uuid} (keyed : Keyed Job.id db.jobs) :
    id ∈ db.movedOut db' ↔ ∃ j, db.job? id = some j ∧ j.status = .processing ∧
      ∀ j', db'.job? id = some j' → j'.status ≠ .processing := by
  simp only [movedOut, List.mem_map, List.mem_filter, Bool.and_eq_true, decide_eq_true_eq, Bool.not_eq_true',
    Option.any_eq_false, decide_eq_false_iff_not]
  constructor
  · rintro ⟨j, ⟨mem, processing, after⟩, rfl⟩
    exact ⟨j, keyed.lookup_self mem, processing, after⟩
  · rintro ⟨j, row, processing, after⟩
    obtain ⟨mem, rfl⟩ := lookup_mem row
    exact ⟨j, ⟨mem, processing, after⟩, rfl⟩

end Db

theorem Job.disposed_status_ne (now : Int) (j : Job) : (j.disposed now).status ≠ .processing := by
  unfold Job.disposed
  cases j.verdict with
  | _ => simp

/-- The jobs a sweep moves are those it returns. -/
theorem Disposes.movedOut {now : Int} {db db' : Db} {ids : List Uuid} (keyed : Keyed Job.id db.jobs)
    (disposes : Disposes now db db' ids) : (db.movedOut db').Perm ids := by
  have once : (db.movedOut db').Nodup := (List.filter_sublist.map Job.id).nodup keyed
  rw [List.perm_ext_iff_of_nodup once disposes.once]
  intro id
  rw [Db.mem_movedOut keyed]
  constructor
  · rintro ⟨j, row, processing, after⟩
    by_contra out
    have kept : db'.job? id = db.job? id := congrArg Dossier.row (disposes.left id out)
    exact after j (kept.trans row) processing
  · intro mem
    obtain ⟨j, row, lapsed, gone, -⟩ := disposes.taken id mem
    have processing : j.status = .processing := (of_decide_eq_true lapsed).1
    refine ⟨j, row, processing, ?_⟩
    intro j' after
    obtain rfl := Option.some.inj (gone.symm.trans after)
    exact j.disposed_status_ne now

section Sweep

variable {env : Env} {db : Db} {limit : Int}

variable (env) in
/-- **What one sweep takes**: up to the limit of each kind. -/
theorem sweep_takes (keyed : Keyed Job.id db.jobs) (nonneg : 0 ≤ limit) :
    ∃ ids, ((Request.recoverExpiredLeases limit).serve env db).2 = .ok (.ids ids) ∧
      (db.movedOut ((Request.recoverExpiredLeases limit).serve env db).1).Perm ids ∧
      ids.length = min limit.toNat (db.population env .retrying) +
        min limit.toNat (db.population env .deadLettered) + min limit.toNat (db.population env .failed) := by
  obtain ⟨ids, reply, disposes⟩ := sweep_disposes_of env keyed nonneg
  obtain ⟨taken, kinds, takes⟩ := sweep_takable env keyed nonneg
  refine ⟨ids, reply, disposes.movedOut keyed, ?_⟩
  have all : ids = taken .retrying ++ taken .deadLettered ++ taken .failed := by
    have same := reply.symm.trans kinds
    simpa using same
  have each : ∀ o, (taken o).length = min limit.toNat (db.population env o) := by
    intro o
    rw [(takes o).1, Db.takableIds, List.length_map, Db.population]
  rw [all, List.length_append, List.length_append, each, each, each]

/-- There is too little to take for the limit to be passed, or it is all of one kind. -/
def Db.Unmixed (env : Env) (limit : Int) (db : Db) : Prop :=
  ((db.jobs.filter (expired env)).length : Int) ≤ limit ∨ limit = 0 ∨
    ∃ o, ∀ j ∈ db.jobs, expired env j = true → j.verdict = o

theorem Db.population_eq_zero_iff {o : Verdict} :
    db.population env o = 0 ↔ ∀ j ∈ db.jobs, expired env j = true → j.verdict ≠ o := by
  simp only [population, List.length_eq_zero_iff, List.filter_eq_nil_iff, takable, Bool.and_eq_true,
    decide_eq_true_eq, not_and]

theorem Db.unmixed_iff (nonneg : 0 ≤ limit) :
    db.Unmixed env limit ↔ min limit.toNat (db.population env .retrying) +
        min limit.toNat (db.population env .deadLettered) + min limit.toNat (db.population env .failed) ≤ limit.toNat := by
  have total : (db.jobs.filter (expired env)).length = _ := population_total
  have only : (∃ o, ∀ j ∈ db.jobs, expired env j = true → j.verdict = o) ↔
      ∃ o, ∀ o', o' ≠ o → db.population env o' = 0 := by
    apply exists_congr
    intro o
    constructor
    · intro one o' other
      rw [population_eq_zero_iff]
      intro j mem lapsed is
      exact other (is.symm.trans (one j mem lapsed))
    · intro empty j mem lapsed
      by_contra other
      exact population_eq_zero_iff.1 (empty _ other) j mem lapsed rfl
  rw [Unmixed, only, total]
  constructor
  · rintro (few | zero | ⟨o, empty⟩)
    · omega
    · omega
    · cases o with
      | retrying =>
        rw [empty .deadLettered (by simp), empty .failed (by simp)]
        omega
      | deadLettered =>
        rw [empty .retrying (by simp), empty .failed (by simp)]
        omega
      | failed =>
        rw [empty .retrying (by simp), empty .deadLettered (by simp)]
        omega
  · intro bounded
    by_contra mixed
    rw [not_or, not_or] at mixed
    obtain ⟨many, positive, kinds⟩ := mixed
    have two : ∀ o, ∃ o', o' ≠ o ∧ db.population env o' ≠ 0 := by
      intro o
      by_contra none
      refine kinds ⟨o, ?_⟩
      intro o' other
      by_contra some
      exact none ⟨o', other, some⟩
    obtain ⟨o, -, some⟩ := two .retrying
    obtain ⟨o', other, some'⟩ := two o
    cases o with
    | _ => cases o' with
      | _ => first | exact absurd rfl other | omega

/-- **The batch bound**: a call, and a maintenance sweep, keeps to its limit
exactly when the rows to take are few or of one kind. -/
theorem sweep_bounded_iff (keyed : Keyed Job.id db.jobs) (cfg : MaintenanceConfig) (nonneg : 0 ≤ cfg.recoverBatch)
    (prune refresh : Env) :
    ((∃ ids, ((Request.recoverExpiredLeases cfg.recoverBatch).serve env db).2 = .ok (.ids ids) ∧
        (ids.length : Int) ≤ cfg.recoverBatch) ∧
      ((db.movedOut ((Request.recoverExpiredLeases cfg.recoverBatch).serve env db).1).length : Int) ≤ cfg.recoverBatch ∧
      ((db.movedOut (maintenanceSweep cfg env prune refresh db).1).length : Int) ≤ cfg.recoverBatch) ↔
    db.Unmixed env cfg.recoverBatch := by
  obtain ⟨ids, reply, moved, length⟩ := sweep_takes env keyed nonneg
  have whole : db.movedOut (maintenanceSweep cfg env prune refresh db).1 =
      db.movedOut ((Request.recoverExpiredLeases cfg.recoverBatch).serve env db).1 := rfl
  rw [Db.unmixed_iff nonneg, ← length, whole, moved.length_eq]
  constructor
  · intro bounded
    omega
  · intro bounded
    have fits : (ids.length : Int) ≤ cfg.recoverBatch := by omega
    exact ⟨⟨ids, reply, fits⟩, fits, fits⟩

end Sweep

/-- The three lapsed jobs, before a sweep with room for all of them. -/
theorem sweep_bounded_three :
    let db := (outcome Serial.act (.init 0) lapsedScript).db
    let env : Env := ⟨60000000, [], 20⟩
    (Keyed Job.id db.jobs ∧ 0 ≤ ({ : MaintenanceConfig }).recoverBatch) ∧
    ((db.movedOut (maintenanceSweep {} env env env db).1).length : Int) ≤ ({ : MaintenanceConfig }).recoverBatch := by
  have keyed : Keyed Job.id (outcome Serial.act (.init 0) lapsedScript).db.jobs :=
    (Serial.sound_of_run (@outcome_run _ _ _ Serial.act Serial.Step Serial.act_step (.init 0) lapsedScript
      (by decide))).keyed
  refine ⟨⟨keyed, by decide⟩, ?_⟩
  have few : (outcome Serial.act (.init 0) lapsedScript).db.Unmixed ⟨60000000, [], 20⟩ 100 := .inl (by decide)
  exact ((sweep_bounded_iff keyed {} (by decide) ⟨60000000, [], 20⟩ ⟨60000000, [], 20⟩).2 few).2.2

/-- With a limit of one, a sweep takes the retryable job and one of the exhausted ones. -/
theorem sweep_passes_limit :
    let db := (outcome Serial.act (.init 0) lapsedScript).db
    let env : Env := ⟨60000000, [], 20⟩
    ((Request.recoverExpiredLeases 1).serve env db).2 = .ok (.ids [9, 7]) ∧ ¬ ([9, 7].length : Int) ≤ 1 ∧
    ¬ ((db.movedOut ((Request.recoverExpiredLeases 1).serve env db).1).length : Int) ≤ 1 ∧
    ¬ ((db.movedOut (maintenanceSweep { recoverBatch := 1 } env env env db).1).length : Int) ≤ 1 :=
  ⟨rfl, by decide, by decide, by decide⟩

end Djq
