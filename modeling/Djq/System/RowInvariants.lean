import Djq.System.Events

/-!
# Invariants of the rows of `jobs`

Two invariants that no single statement establishes: which columns a status
comes with, and how far the attempts of a row may have got.
-/

namespace Djq

open Relational Transition

/-! ## Lease and result columns -/

/-- The columns that say whether a row is leased and how it ended go with its status. -/
structure Job.FieldsOk (j : Job) : Prop where
  leased : j.status = .processing → j.lockedBy.isSome ∧ j.lockedAt.isSome ∧ j.leaseExpiresAt.isSome
  free : j.status ≠ .processing → j.lockedBy = none ∧ j.lockedAt = none ∧ j.leaseExpiresAt = none
  completedAt : j.completedAt.isSome ↔ j.status = .completed
  result : j.result ≠ none → j.status = .completed

namespace Job.FieldsOk

variable {j : Job} {now : Int}

theorem submitted {job : NormalizedJob} (sound : job.Sound) (env : Env) : (job.row env).FieldsOk := by
  have waiting : job.status ≠ .processing ∧ job.status ≠ .completed := by
    rcases sound.status with status | status <;> simp [status]
  constructor
  · intro processing
    exact absurd processing waiting.1
  · intro _
    exact ⟨rfl, rfl, rfl⟩
  · constructor
    · intro some
      cases some
    · intro completed
      exact absurd completed waiting.2
  · intro some
    exact absurd rfl some

/-- A row that is not completed carries no trace of a completion. -/
theorem unfinished (ok : j.FieldsOk) (status : j.status ≠ .completed) : j.completedAt = none ∧ j.result = none := by
  constructor
  · rw [← Option.not_isSome_iff_eq_none]
    intro some
    exact status (ok.completedAt.1 some)
  · by_contra some
    exact status (ok.result some)

theorem setLeased (ok : j.FieldsOk) (status : j.status ≠ .completed) (worker : Uuid) (secs : Int) :
    (j.setLeased now worker secs).FieldsOk := by
  obtain ⟨completedAt, result⟩ := ok.unfinished status
  constructor <;> simp [Job.setLeased, completedAt, result]

theorem setRenewed (ok : j.FieldsOk) (processing : j.status = .processing) (secs : Int) :
    (j.setRenewed now secs).FieldsOk := by
  obtain ⟨holder, since, -⟩ := ok.leased processing
  obtain ⟨completedAt, result⟩ := ok.unfinished (by simp [processing])
  constructor <;> simp [Job.setRenewed, processing, holder, since, completedAt, result]

theorem setCompleted (result : Option Json) : (j.setCompleted now result).FieldsOk := by
  constructor <;> simp [Job.setCompleted, Job.release]

/-- Every other UPDATE releases the lease and leaves the row in a status that is
neither `processing` nor `completed`. -/
theorem released {j' : Job} (ok : j.FieldsOk) (status : j.status ≠ .completed)
    (lease : j'.lockedBy = none ∧ j'.lockedAt = none ∧ j'.leaseExpiresAt = none)
    (kept : j'.completedAt = j.completedAt ∧ j'.result = j.result)
    (waiting : j'.status ≠ .processing ∧ j'.status ≠ .completed) : j'.FieldsOk := by
  obtain ⟨completedAt, result⟩ := ok.unfinished status
  constructor
  · intro processing
    exact absurd processing waiting.1
  · intro _
    exact lease
  · rw [kept.1, completedAt]
    simp [waiting.2]
  · intro some
    exact absurd (kept.2.trans result) some

theorem failUpdate (ok : j.FieldsOk) (status : j.status ≠ .completed) (current : Job) (error : String) :
    (current.failUpdate now error j).FieldsOk := by
  unfold Job.failUpdate
  split_ifs
  · exact ok.released status ⟨rfl, rfl, rfl⟩ ⟨rfl, rfl⟩ (by simp)
  · exact ok.released status ⟨rfl, rfl, rfl⟩ ⟨rfl, rfl⟩ (by simp)
  · exact ok.released status ⟨rfl, rfl, rfl⟩ ⟨rfl, rfl⟩ (by simp)

/-- Every step in the life of a row keeps the columns in line. -/
theorem row_step {env : Env} {db : Db} {id : Uuid} {c : Call} {p : Progress} {r r' : Option Job}
    (life : RowStep env db id c p r r') (before : ∀ j, r = some j → j.FieldsOk) :
    ∀ j, r' = some j → j.FieldsOk := by
  intro j' eq
  cases life with
  | same quiet => exact before j' eq
  | inserted row isId =>
    obtain rfl := Option.some.inj eq
    rw [row]
    exact submitted (Submittable.sound _) env
  | leased leaseable =>
    obtain rfl := Option.some.inj eq
    exact (before _ rfl).setLeased (by rintro h; simp [h] at leaseable) _ _
  | renewed processing =>
    obtain rfl := Option.some.inj eq
    exact (before _ rfl).setRenewed processing _
  | completed =>
    obtain rfl := Option.some.inj eq
    exact setCompleted _
  | failed processing =>
    obtain rfl := Option.some.inj eq
    exact (before _ rfl).failUpdate (by simp [processing]) _ _
  | cancelled cancellable =>
    obtain rfl := Option.some.inj eq
    exact (before _ rfl).released (by rintro h; simp [h] at cancellable) ⟨rfl, rfl, rfl⟩ ⟨rfl, rfl⟩
      (by simp)
  | requeued ended =>
    obtain rfl := Option.some.inj eq
    exact (before _ rfl).released (by rintro h; simp [h] at ended) ⟨rfl, rfl, rfl⟩ ⟨rfl, rfl⟩
      (by simp)
  | expiredRetrying taken expired =>
    obtain rfl := Option.some.inj eq
    have processing := Db.processing_of_expired expired
    exact (before _ rfl).released (by simp [processing]) ⟨rfl, rfl, rfl⟩ ⟨rfl, rfl⟩
      (by simp)
  | expiredDeadLettered taken expired =>
    obtain rfl := Option.some.inj eq
    have processing := Db.processing_of_expired expired
    exact (before _ rfl).released (by simp [processing]) ⟨rfl, rfl, rfl⟩ ⟨rfl, rfl⟩
      (by simp)
  | expiredFailed taken expired =>
    obtain rfl := Option.some.inj eq
    have processing := Db.processing_of_expired expired
    exact (before _ rfl).released (by simp [processing]) ⟨rfl, rfl, rfl⟩ ⟨rfl, rfl⟩
      (by simp)
  | purged => cases eq

end Job.FieldsOk

/-- The invariant over every run. -/
theorem Sys.fieldsOk_of_run {t : Int} {ls : List Label} {s : Sys} (run : Run Step (Sys.init t) ls s) :
    ∀ j ∈ s.db.jobs, j.FieldsOk :=
  Sys.row_invariant Job.FieldsOk.row_step run

/-- Submit a job with two attempts and lease it. -/
def leaseScript : List Action :=
  Action.submit 0 (.sample 2 none NewJob.sample_twice) 7 ++ Action.call 1 (.leaseNext 1 ["emails"] 60)

/-- **The lease columns are set exactly while a job is processing, the result
columns only once it is completed**, in every state of every run. -/
theorem lease_and_result_columns {t : Int} {ls : List Label} {s : Sys} (run : Run Step (Sys.init t) ls s) {j : Job}
    (mem : j ∈ s.db.jobs) :
    (j.status = .processing ↔ j.lockedBy.isSome ∧ j.lockedAt.isSome ∧ j.leaseExpiresAt.isSome) ∧
    (j.status ≠ .processing → j.lockedBy = none ∧ j.lockedAt = none ∧ j.leaseExpiresAt = none) ∧
    (j.completedAt.isSome ↔ j.status = .completed) ∧
    (j.result ≠ none → j.status = .completed) := by
  have ok := Sys.fieldsOk_of_run run j mem
  refine ⟨⟨ok.leased, ?_⟩, ok.free, ok.completedAt, ok.result⟩
  intro set
  by_contra other
  have clear := ok.free other
  rw [clear.1] at set
  cases set.1

/-- The job of `leaseScript`. -/
theorem lease_and_result_columns_leased :
    let j := (Job.sample 2 none).setLeased 0 1 60
    j ∈ ((Sys.init 0).replay leaseScript).db.jobs ∧
    (j.status = .processing ↔ j.lockedBy.isSome ∧ j.lockedAt.isSome ∧ j.leaseExpiresAt.isSome) ∧
    (j.status ≠ .processing → j.lockedBy = none ∧ j.lockedAt = none ∧ j.leaseExpiresAt = none) ∧
    (j.completedAt.isSome ↔ j.status = .completed) ∧
    (j.result ≠ none → j.status = .completed) := by
  have run := @Sys.replay_run (Sys.init 0) leaseScript (by decide)
  have mem : (Job.sample 2 none).setLeased 0 1 60 ∈ ((Sys.init 0).replay leaseScript).db.jobs := by decide
  exact ⟨mem, lease_and_result_columns run mem⟩

/-! ## The attempt budget -/

/-- How far the attempts of a row may have got in each status. -/
structure Job.Budget (j : Job) : Prop where
  positive : 1 ≤ j.maxAttempts
  bounds : 0 ≤ j.attempts ∧ j.attempts ≤ j.maxAttempts
  waiting : j.status ∈ [.queued, .scheduled, .retrying] → j.attempts < j.maxAttempts
  started : j.status ∈ [.processing, .completed] → 1 ≤ j.attempts
  failed : j.status = .failed → j.attempts = j.maxAttempts ∧ j.deadLetter = false
  deadLettered : j.status = .deadLettered → j.attempts = j.maxAttempts ∧ j.deadLetter = true

namespace Job.Budget

variable {j : Job} {now : Int}

theorem submitted {job : NormalizedJob} (sound : job.Sound) (env : Env) : (job.row env).Budget := by
  have positive := sound.maxAttempts.1
  constructor
  · exact positive
  · show (0 : Int) ≤ 0 ∧ (0 : Int) ≤ job.maxAttempts
    omega
  · intro _
    show (0 : Int) < job.maxAttempts
    omega
  all_goals
    intro status
    rcases sound.status with waiting | waiting <;> simp [waiting] at status

theorem setLeased (ok : j.Budget) (waiting : j.status ∈ [.queued, .scheduled, .retrying]) (worker : Uuid)
    (secs : Int) : (j.setLeased now worker secs).Budget := by
  have left := ok.waiting waiting
  have bounds := ok.bounds
  constructor
  · exact ok.positive
  · show 0 ≤ j.attempts + 1 ∧ j.attempts + 1 ≤ j.maxAttempts
    omega
  · simp
  · intro _
    show 1 ≤ j.attempts + 1
    omega
  · simp
  · simp

/-- An UPDATE that leaves the attempts as they are. -/
theorem kept {j' : Job} (ok : j.Budget)
    (same : j'.attempts = j.attempts ∧ j'.maxAttempts = j.maxAttempts ∧ j'.deadLetter = j.deadLetter)
    (waiting : j'.status ∈ [.queued, .scheduled, .retrying] → j.attempts < j.maxAttempts)
    (started : j'.status ∈ [.processing, .completed] → 1 ≤ j.attempts)
    (failed : j'.status = .failed → j.maxAttempts ≤ j.attempts ∧ j.deadLetter = false)
    (deadLettered : j'.status = .deadLettered → j.maxAttempts ≤ j.attempts ∧ j.deadLetter = true) : j'.Budget := by
  obtain ⟨attempts, maxAttempts, deadLetter⟩ := same
  have bounds := ok.bounds
  constructor
  · rw [maxAttempts]
    exact ok.positive
  · rw [attempts, maxAttempts]
    exact bounds
  · rw [attempts, maxAttempts]
    exact waiting
  · rw [attempts]
    exact started
  · intro status
    obtain ⟨exhausted, files⟩ := failed status
    rw [attempts, maxAttempts, deadLetter]
    exact ⟨by omega, files⟩
  · intro status
    obtain ⟨exhausted, files⟩ := deadLettered status
    rw [attempts, maxAttempts, deadLetter]
    exact ⟨by omega, files⟩

theorem setRequeued (ok : j.Budget) : (j.setRequeued now).Budget := by
  have positive := ok.positive
  constructor
  · exact positive
  · show (0 : Int) ≤ 0 ∧ (0 : Int) ≤ j.maxAttempts
    omega
  · intro _
    show (0 : Int) < j.maxAttempts
    omega
  · simp
  · simp
  · simp

theorem failUpdate (ok : j.Budget) (error : String) : (j.failUpdate now error j).Budget := by
  unfold Job.failUpdate
  split_ifs with exhausted files
  · exact ok.kept ⟨rfl, rfl, rfl⟩ (by simp) (by simp) (by simp) fun _ => ⟨exhausted, files⟩
  · exact ok.kept ⟨rfl, rfl, rfl⟩ (by simp) (by simp) (fun _ => ⟨exhausted, by simpa using files⟩) (by simp)
  · exact ok.kept ⟨rfl, rfl, rfl⟩ (fun _ => by omega) (by simp) (by simp) (by simp)

/-- Every step in the life of a row keeps it within its budget. -/
theorem row_step {env : Env} {db : Db} {id : Uuid} {c : Call} {p : Progress} {r r' : Option Job}
    (life : RowStep env db id c p r r') (before : ∀ j, r = some j → j.Budget) :
    ∀ j, r' = some j → j.Budget := by
  intro j' eq
  cases life with
  | same quiet => exact before j' eq
  | inserted row isId =>
    obtain rfl := Option.some.inj eq
    rw [row]
    exact submitted (Submittable.sound _) env
  | leased leaseable =>
    obtain rfl := Option.some.inj eq
    exact (before _ rfl).setLeased leaseable _ _
  | renewed processing =>
    obtain rfl := Option.some.inj eq
    have ok := before _ rfl
    exact ok.kept ⟨rfl, rfl, rfl⟩ (by simp [processing]) (fun _ => ok.started (by simp [processing]))
      (by simp [processing]) (by simp [processing])
  | completed processing =>
    obtain rfl := Option.some.inj eq
    have ok := before _ rfl
    exact ok.kept ⟨rfl, rfl, rfl⟩ (by simp) (fun _ => ok.started (by simp [processing]))
      (by simp) (by simp)
  | failed =>
    obtain rfl := Option.some.inj eq
    exact (before _ rfl).failUpdate _
  | cancelled =>
    obtain rfl := Option.some.inj eq
    exact (before _ rfl).kept ⟨rfl, rfl, rfl⟩ (by simp) (by simp) (by simp) (by simp)
  | requeued =>
    obtain rfl := Option.some.inj eq
    exact (before _ rfl).setRequeued
  | expiredRetrying taken expired left =>
    obtain rfl := Option.some.inj eq
    exact (before _ rfl).kept ⟨rfl, rfl, rfl⟩ (fun _ => left) (by simp) (by simp) (by simp)
  | expiredDeadLettered taken expired exhausted files =>
    obtain rfl := Option.some.inj eq
    exact (before _ rfl).kept ⟨rfl, rfl, rfl⟩ (by simp) (by simp) (by simp) fun _ => ⟨exhausted, files⟩
  | expiredFailed taken expired exhausted files =>
    obtain rfl := Option.some.inj eq
    exact (before _ rfl).kept ⟨rfl, rfl, rfl⟩ (by simp) (by simp) (fun _ => ⟨exhausted, files⟩) (by simp)
  | purged => cases eq

end Job.Budget

theorem Sys.budget_of_run {t : Int} {ls : List Label} {s : Sys} (run : Run Step (Sys.init t) ls s) :
    ∀ j ∈ s.db.jobs, j.Budget :=
  Sys.row_invariant Job.Budget.row_step run

/-- What the leases of the row `id` since some earlier state have used up. -/
structure Spent (id : Uuid) (ls : List Label) (s : Sys) : Prop where
  drawn : leaseCount id ls ≠ 0 → id ∈ s.issued
  row : ∀ j, s.db.job? id = some j → (leaseCount id ls : Int) ≤ j.attempts
  leased : ∀ l ∈ ls, ∀ worker job, l.lease = some (worker, job) → job.id = id →
    (leaseCount id ls : Int) ≤ job.maxAttempts

theorem Spent.start {s : Sys} (budget : ∀ j ∈ s.db.jobs, j.Budget) (id : Uuid) : Spent id [] s := by
  constructor
  · intro some
    exact absurd rfl some
  · intro j row
    exact (budget j (Db.job?_mem row)).bounds.1
  · intro l mem
    exact absurd mem List.not_mem_nil

/-- A step that does not lease the row. -/
theorem Spent.other {id : Uuid} {ls : List Label} {s s' : Sys} {l : Label} (spent : Spent id ls s)
    (step : Step s l s') (other : l.lease.map (·.2.id) ≠ some id)
    (rows : ∀ j', s'.db.job? id = some j' →
      (∃ j, s.db.job? id = some j ∧ j'.attempts = j.attempts) ∨ (0 ≤ j'.attempts ∧ id ∉ s.issued)) :
    Spent id (ls ++ [l]) s' := by
  have count : leaseCount id (ls ++ [l]) = leaseCount id ls := by
    rw [leaseCount_snoc, if_neg other, Nat.add_zero]
  constructor
  · rw [count]
    intro some
    exact step.issued (spent.drawn some)
  · intro j' row'
    rw [count]
    obtain ⟨j, row, attempts⟩ | ⟨positive, fresh⟩ := rows j' row'
    · rw [attempts]
      exact spent.row j row
    · have zero : leaseCount id ls = 0 := by
        by_contra some
        exact fresh (spent.drawn some)
      omega
  · intro l' mem worker job leased isId
    rcases List.mem_append.1 mem with mem | mem
    · rw [count]
      exact spent.leased l' mem worker job leased isId
    · obtain rfl := List.mem_singleton.1 mem
      exact absurd (by rw [leased, Option.map_some, isId]) other

/-- A step that leases it. -/
theorem Spent.lease {id : Uuid} {ls : List Label} {s s' : Sys} {l : Label} (spent : Spent id ls s)
    (budget : ∀ j ∈ s'.db.jobs, j.Budget) (drawn : id ∈ s'.issued) {worker : Uuid} {job j : Job}
    (leased : l.lease = some (worker, job)) (isId : job.id = id) (row : s.db.job? id = some j)
    (row' : s'.db.job? id = some job) (attempts : job.attempts = j.attempts + 1)
    (knows : ∀ l' ∈ ls ++ [l], ∀ worker job, l'.lease = some (worker, job) → s'.Knows job) :
    Spent id (ls ++ [l]) s' := by
  have count : leaseCount id (ls ++ [l]) = leaseCount id ls + 1 := by
    rw [leaseCount_snoc, if_pos (by rw [leased, Option.map_some, isId])]
  have before := spent.row j row
  have bounds := (budget job (Db.job?_mem row')).bounds
  constructor
  · intro _
    exact drawn
  · intro j' same
    obtain rfl : job = j' := Option.some.inj (row'.symm.trans same)
    rw [count, attempts]
    push_cast
    omega
  · intro l' mem worker' job' leased' isId'
    have same := ((knows l' mem worker' job' leased').same job (isId' ▸ row')).maxAttempts
    rw [count, ← same]
    push_cast
    omega

/-- Between two operator retries every lease of a row uses up an attempt. -/
theorem Spent.step {t : Int} {pre ls : List Label} {id : Uuid} {s s' : Sys} {l : Label}
    (run : Run Step (Sys.init t) (pre ++ ls) s) (spent : Spent id ls s) (step : Step s l s')
    (noRetry : l.wrote Call.isRetry id = false) : Spent id (ls ++ [l]) s' := by
  have sound := Sys.sound_of_run run
  have budget' := Sys.budget_of_run (run.snoc step)
  have knows := Sys.knows_of_run (run.snoc step)
  obtain ⟨quiet, same⟩ | ⟨i, u, rfl, -, -, -, fresh, -, life⟩ := step.row sound id
  · refine spent.other step ?_ fun j' row' => .inl ⟨j', same ▸ row', rfl⟩
    cases l with
    | commit i u => exact absurd rfl (quiet i u)
    | _ => simp [Label.lease]
  · by_cases leases : (Label.commit i u).lease.map (·.2.id) = some id
    · obtain ⟨⟨worker, job⟩, leased, isId⟩ := Option.map_eq_some_iff.1 leases
      obtain ⟨j, secs, row, row', rfl, -⟩ := life.of_lease leased isId
      have drawn := step.issued (sound.issued j (Db.job?_mem row))
      rw [Db.job?_id row] at drawn
      refine spent.lease budget' drawn leased isId row row' rfl fun l' mem => ?_
      rw [List.append_assoc] at knows
      exact knows l' (List.mem_append_right _ mem)
    · refine spent.other step leases fun j' row' => ?_
      obtain ⟨j, row, attempts⟩ | retried | ⟨-, rfl⟩ := life.attempts_kept leases row'
      · exact .inl ⟨j, row, attempts⟩
      · rw [Label.wrote_commit.2 retried] at noRetry
        cases noRetry
      · exact .inr ⟨(budget' j' (Db.job?_mem row')).bounds.1, fresh⟩

theorem Spent.of_run {t : Int} {pre seg : List Label} {id : Uuid} {s₁ s : Sys}
    (before : Run Step (Sys.init t) pre s₁) (run : Run Step s₁ seg s)
    (noRetry : ∀ l ∈ seg, l.wrote Call.isRetry id = false) : Spent id seg s := by
  induction run with
  | nil => exact .start (Sys.budget_of_run before) id
  | snoc run last ih =>
    have earlier := ih fun l mem => noRetry l (List.mem_append_left _ mem)
    exact earlier.step (before.append run) last (noRetry _ (by simp))

/-- **The attempt budget.** In every state of every run the attempts of a job are
within its budget, and fit its status; and a stretch of a run without an operator
retry of a job leases it at most `max_attempts` times. -/
theorem attempt_budget {t : Int} {pre seg : List Label} {s : Sys} (run : Run Step (Sys.init t) (pre ++ seg) s) :
    (∀ j ∈ s.db.jobs,
      (0 ≤ j.attempts ∧ j.attempts ≤ j.maxAttempts) ∧
      (j.status = .queued ∨ j.status = .scheduled ∨ j.status = .retrying → j.attempts < j.maxAttempts) ∧
      (j.status = .processing ∨ j.status = .completed → 1 ≤ j.attempts) ∧
      (j.status = .failed → j.attempts = j.maxAttempts ∧ j.deadLetter = false) ∧
      (j.status = .deadLettered → j.attempts = j.maxAttempts ∧ j.deadLetter = true)) ∧
    (∀ id, (∀ l ∈ seg, l.wrote Call.isRetry id = false) →
      ∀ l ∈ seg, ∀ worker job, l.lease = some (worker, job) → job.id = id →
        (leaseCount id seg : Int) ≤ job.maxAttempts) := by
  constructor
  · intro j mem
    have ok := Sys.budget_of_run run j mem
    refine ⟨ok.bounds, fun waiting => ok.waiting ?_, fun started => ok.started ?_, ok.failed, ok.deadLettered⟩
    · simpa using waiting
    · simpa using started
  · intro id noRetry l mem worker job leased isId
    obtain ⟨s₁, before, rest⟩ := run.split
    exact (Spent.of_run before rest noRetry).leased l mem worker job leased isId

/-- The job of `leaseScript`, and its lease. -/
theorem attempt_budget_leased :
    let j := (Job.sample 2 none).setLeased 0 1 60
    j ∈ ((Sys.init 0).replay leaseScript).db.jobs ∧ (0 ≤ j.attempts ∧ j.attempts ≤ j.maxAttempts) ∧
    1 ≤ j.attempts ∧ (leaseCount 7 ((Sys.init 0).trace leaseScript) : Int) ≤ j.maxAttempts := by
  have run := @Sys.replay_run (Sys.init 0) leaseScript (by decide)
  have mem : (Job.sample 2 none).setLeased 0 1 60 ∈ ((Sys.init 0).replay leaseScript).db.jobs := by decide
  have nonempty : (Sys.init 0).trace leaseScript ≠ [] := List.ne_nil_of_length_pos (by decide)
  have last : (((Sys.init 0).trace leaseScript).getLast nonempty).lease = some (1, (Job.sample 2 none).setLeased 0 1 60) :=
    rfl
  obtain ⟨rows, leases⟩ := @attempt_budget 0 [] _ _ run
  obtain ⟨bounds, -, started, -⟩ := rows _ mem
  exact ⟨mem, bounds, started (.inl rfl), leases 7 (by decide) _ (List.getLast_mem nonempty) 1 _ last rfl⟩

end Djq
