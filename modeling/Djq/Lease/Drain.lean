import Djq.System.Interleaving
import Djq.Transition.Tally
import Mathlib.Algebra.BigOperators.Group.Finset.Piecewise
import Mathlib.Data.Fintype.BigOperators

/-!
# Workers draining the queue

`k` workers, each looping `lease_next` and `complete_job` until `lease_next`
returns nothing. A transaction is two steps here: its UPDATE, from which on it
holds the lock on the row, and its commit, with any number of steps of the other
workers in between.
-/

namespace Djq

open Relational Transition

/-- What the workers pass to the store. -/
structure Crew (k : Nat) where
  worker : Fin k → Uuid
  queues : Fin k → List String
  leaseSecs : Fin k → Int

/-- Where a worker is in its loop. -/
inductive Phase where
  | idle
  /-- In the transaction of `lease_next`, begun in `env`, with the row of `pick` locked. -/
  | leasing (env : Env) (pick : Job)
  /-- `lease_next` has returned `job`. -/
  | working (job : Job)
  /-- In the transaction of `complete_job`, begun in `env`, with the row of `job` locked. -/
  | completing (env : Env) (job : Job) (result : Option Json)
  /-- `complete_job` has returned an error. -/
  | refused
  /-- `lease_next` has returned `None`. -/
  | finished

namespace Phase

/-- The job a worker is about to lease or has leased. -/
def job : Phase → Option Job
  | leasing _ pick => some pick
  | working job => some job
  | completing _ job _ => some job
  | _ => none

/-- The job a worker has leased. -/
def leased : Phase → Option Job
  | working job => some job
  | completing _ job _ => some job
  | _ => none

/-- The row the open transaction of a worker has locked. -/
def locks : Phase → Option Uuid
  | leasing _ pick => some pick.id
  | completing _ job _ => some job.id
  | _ => none

theorem job_of_leased {p : Phase} {job : Job} (leased : p.leased = some job) : p.job = some job := by
  cases p with
  | working => exact leased
  | completing => exact leased
  | _ => cases leased

theorem job_of_locks {p : Phase} {id : Uuid} (locks : p.locks = some id) : ∃ job, p.job = some job ∧ job.id = id := by
  cases p with
  | leasing => exact ⟨_, rfl, Option.some.inj locks⟩
  | completing => exact ⟨_, rfl, Option.some.inj locks⟩
  | _ => cases locks

end Phase

/-- The store under the workers, and where each of them is. -/
structure Shift (k : Nat) where
  clock : Int
  db : Db
  phase : Fin k → Phase

inductive Turn (k : Nat) where
  | tick (now : Int)
  | reorder
  /-- The UPDATE of `lease_next` finds a row. -/
  | select (i : Fin k) (pick : Job)
  /-- `lease_next` returns `None`. -/
  | leave (i : Fin k)
  /-- `lease_next` commits and returns `job`. -/
  | lease (i : Fin k) (job : Job)
  /-- The UPDATE of `complete_job` finds its row, or the call is refused. -/
  | report (i : Fin k) (id : Uuid) (accepted : Bool)
  /-- `complete_job` commits. -/
  | complete (i : Fin k) (id : Uuid)

/-- The worker whose turn it is. -/
def Turn.worker {k : Nat} : Turn k → Option (Fin k)
  | .tick _ => none
  | .reorder => none
  | .select i _ => some i
  | .leave i => some i
  | .lease i _ => some i
  | .report i _ _ => some i
  | .complete i _ => some i

namespace Shift

variable {k : Nat}

/-- All workers before their first call. -/
def opening (t : Int) (db : Db) : Shift k := ⟨t, db, fun _ => .idle⟩

/-- What a transaction that worker `i` begins reads: the clock, and the rows the
open transactions of the others have locked. -/
def env (s : Shift k) (i : Fin k) : Env where
  now := s.clock
  locked := (List.finRange k).filterMap fun m => if m = i then none else (s.phase m).locks
  uuid := 0

def setPhase (s : Shift k) (i : Fin k) (p : Phase) : Shift k :=
  { s with phase := fun m => if m = i then p else s.phase m }

/-- The UPDATE of `complete_job`. -/
def accepts (s : Shift k) (crew : Crew k) (i : Fin k) (job : Job) (result : Option Json) : Bool :=
  (returning (Db.heldBy job.id (crew.worker i)) (Job.setCompleted s.clock result) s.db.jobs).head?.isSome

/-- No transaction aborts. -/
inductive Step (crew : Crew k) : Shift k → Turn k → Shift k → Prop where
  | tick {s : Shift k} {now : Int} (later : s.clock ≤ now) : Step crew s (.tick now) { s with clock := now }
  | reorder {s : Shift k} {jobs : List Job} (same : jobs.Perm s.db.jobs) :
      Step crew s .reorder { s with db := { s.db with jobs := jobs } }
  | select {s : Shift k} {i : Fin k} {pick : Job} (idle : s.phase i = .idle)
      (picked : s.db.leasePick (s.env i) (crew.queues i) = some pick) :
      Step crew s (.select i pick) (s.setPhase i (.leasing (s.env i) pick))
  | leave {s : Shift k} {i : Fin k} (idle : s.phase i = .idle)
      (picked : s.db.leasePick (s.env i) (crew.queues i) = none) :
      Step crew s (.leave i) (s.setPhase i .finished)
  | lease {s : Shift k} {i : Fin k} {env : Env} {pick : Job} (leasing : s.phase i = .leasing env pick) :
      Step crew s (.lease i (pick.setLeased env.now (crew.worker i) (crew.leaseSecs i)))
        { s.setPhase i (.working (pick.setLeased env.now (crew.worker i) (crew.leaseSecs i))) with
          db := s.db.leaseWrite env.now (crew.worker i) (crew.leaseSecs i) pick }
  | report {s : Shift k} {i : Fin k} {job : Job} (result : Option Json) (working : s.phase i = .working job) :
      Step crew s (.report i job.id (s.accepts crew i job result))
        (s.setPhase i (if s.accepts crew i job result then .completing (s.env i) job result else .refused))
  | complete {s : Shift k} {i : Fin k} {env : Env} {job : Job} {result : Option Json}
      (completing : s.phase i = .completing env job result) :
      Step crew s (.complete i job.id)
        { s.setPhase i .idle with db := s.db.completeWrite env job.id (crew.worker i) result }

variable {crew : Crew k} {s s' : Shift k} {i : Fin k}

@[simp] theorem setPhase_db (p : Phase) : (s.setPhase i p).db = s.db := rfl

@[simp] theorem setPhase_self (p : Phase) : (s.setPhase i p).phase i = p := if_pos rfl

theorem setPhase_other {m : Fin k} (p : Phase) (ne : m ≠ i) : (s.setPhase i p).phase m = s.phase m := if_neg ne

/-- What the new phase has in common with the old one. -/
theorem setPhase_keeps {α : Type} (f : Phase → α) {p : Phase} (same : f p = f (s.phase i)) (m : Fin k) :
    f ((s.setPhase i p).phase m) = f (s.phase m) := by
  by_cases this : m = i
  · rw [this, setPhase_self, same]
  · rw [setPhase_other p this]

theorem mem_locked {id : Uuid} : id ∈ (s.env i).locked ↔ ∃ m, m ≠ i ∧ (s.phase m).locks = some id := by
  simp only [env, List.mem_filterMap, List.mem_finRange, true_and, Option.ite_none_left_eq_some]

theorem setPhase_setPhase (p p' : Phase) : (s.setPhase i p).setPhase i p' = s.setPhase i p' := by
  unfold setPhase
  congr 1
  funext m
  by_cases this : m = i
  · simp only [this, ↓reduceIte]
  · simp only [this, ↓reduceIte]

/-! ## A transaction left alone is the unit of `PgStore` -/

theorem leave_alone (idle : s.phase i = .idle)
    (none : s.db.leaseNext (s.env i) (crew.worker i) (crew.queues i) (crew.leaseSecs i) = (s.db, none)) :
    Step crew s (.leave i) (s.setPhase i .finished) := by
  obtain ⟨-, picked⟩ | ⟨pick, -, -, -, leased⟩ :=
    s.db.leaseNext_spec (s.env i) (crew.worker i) (crew.queues i) (crew.leaseSecs i)
  · exact .leave idle picked
  · cases (Prod.mk.inj (none.symm.trans leased)).2

theorem lease_alone {db' : Db} {job : Job} (idle : s.phase i = .idle)
    (leased : s.db.leaseNext (s.env i) (crew.worker i) (crew.queues i) (crew.leaseSecs i) = (db', some job)) :
    ∃ pick, Run (Step crew) s [.select i pick, .lease i job] { s.setPhase i (.working job) with db := db' } := by
  obtain ⟨none, -⟩ | ⟨pick, -, picked, -, done⟩ :=
    s.db.leaseNext_spec (s.env i) (crew.worker i) (crew.queues i) (crew.leaseSecs i)
  · cases none.symm.trans leased
  · obtain ⟨rfl, same⟩ := Prod.mk.inj (done.symm.trans leased)
    obtain rfl := Option.some.inj same
    have step := @Step.lease k crew (s.setPhase i (.leasing (s.env i) pick)) i _ _ (s.setPhase_self _)
    rw [setPhase_setPhase] at step
    exact ⟨pick, .cons (.select idle picked) (.one step)⟩

theorem complete_alone {db' : Db} {job done : Job} {result : Option Json} (working : s.phase i = .working job)
    (completed : s.db.completeJob (s.env i) job.id (crew.worker i) result = (db', some done)) :
    Run (Step crew) s [.report i job.id true, .complete i job.id] { s.setPhase i .idle with db := db' } := by
  unfold Db.completeJob at completed
  cases hit : (returning (Db.heldBy job.id (crew.worker i)) (Job.setCompleted (s.env i).now result) s.db.jobs).head? with
  | none =>
    rw [hit] at completed
    cases completed
  | some row =>
    rw [hit] at completed
    obtain ⟨rfl, -⟩ := Prod.mk.inj completed
    have accepted : s.accepts crew i job result = true := Option.isSome_iff_exists.2 ⟨row, hit⟩
    have first := @Step.report k crew s i job result working
    rw [accepted, if_pos rfl] at first
    have second := @Step.complete k crew (s.setPhase i (.completing (s.env i) job result)) i _ _ _ (s.setPhase_self _)
    rw [setPhase_setPhase] at second
    exact .cons first (.one second)

/-! ## What holds in every state -/

/-- The workers and the rows agree: no two workers have the same job, and the row
of a worker's job is as the worker knows it. -/
structure Sound (crew : Crew k) (s : Shift k) : Prop where
  keyed : Keyed Job.id s.db.jobs
  apart : ∀ i m a b, (s.phase i).job = some a → (s.phase m).job = some b → a.id = b.id → i = m
  row : ∀ i job, (s.phase i).job = some job → s.db.job? job.id = some job
  leasing : ∀ i env pick, s.phase i = .leasing env pick → pick.status.isLeaseable = true
  leased : ∀ i job, (s.phase i).leased = some job → job.status = .processing ∧ job.lockedBy = some (crew.worker i)
  accepted : ∀ i, s.phase i ≠ .refused

namespace Sound

theorem opening {t : Int} {db : Db} (keyed : Keyed Job.id db.jobs) : (Shift.opening t db).Sound crew := by
  refine ⟨keyed, ?_, ?_, ?_, ?_, ?_⟩
  · intro i m a b job
    cases job
  · intro i job eq
    cases eq
  · intro i env pick eq
    cases eq
  · intro i job eq
    cases eq
  · intro i eq
    cases eq

/-- The row of a leased job is never one that can be leased. -/
theorem not_leaseable (h : s.Sound crew) {job : Job} (leased : (s.phase i).leased = some job) :
    job.status.isLeaseable = false := by
  rw [(h.leased i job leased).1]
  rfl

/-- `complete_job` of a leased job finds its row. -/
theorem accepts (h : s.Sound crew) {job : Job} (working : s.phase i = .working job) (result : Option Json) :
    s.accepts crew i job result = true := by
  have leased : (s.phase i).leased = some job := by
    rw [working]
    rfl
  obtain ⟨processing, holder⟩ := h.leased i job leased
  have row := h.row i job (Phase.job_of_leased leased)
  by_contra refused
  unfold Shift.accepts at refused
  rw [Option.not_isSome_iff_eq_none] at refused
  have miss := returning_none refused job (Db.job?_mem row)
  rw [Db.heldBy_iff.2 ⟨rfl, holder, processing⟩] at miss
  cases miss

/-- A worker moves to a phase of its own; the rows of the others' jobs stay. -/
theorem move (h : s.Sound crew) {t : Shift k} {p : Phase}
    (phases : ∀ m, t.phase m = if m = i then p else s.phase m) (keyed : Keyed Job.id t.db.jobs)
    (others : ∀ m job, m ≠ i → (s.phase m).job = some job → t.db.job? job.id = some job ∧ ∀ a, p.job = some a → a.id ≠ job.id)
    (row : ∀ job, p.job = some job → t.db.job? job.id = some job)
    (leasing : ∀ env pick, p = .leasing env pick → pick.status.isLeaseable = true)
    (leased : ∀ job, p.leased = some job → job.status = .processing ∧ job.lockedBy = some (crew.worker i))
    (accepted : p ≠ .refused) : t.Sound crew := by
  have own : t.phase i = p := (phases i).trans (if_pos rfl)
  have other : ∀ m, m ≠ i → t.phase m = s.phase m := fun m ne => (phases m).trans (if_neg ne)
  constructor
  · exact keyed
  · intro m n a b ja jb same
    by_cases hm : m = i
    · by_cases hn : n = i
      · rw [hm, hn]
      · rw [hm, own] at ja
        rw [other n hn] at jb
        exact absurd same ((others n b hn jb).2 a ja)
    · rw [other m hm] at ja
      by_cases hn : n = i
      · rw [hn, own] at jb
        exact absurd same.symm ((others m a hm ja).2 b jb)
      · rw [other n hn] at jb
        exact h.apart m n a b ja jb same
  · intro m job eq
    by_cases hm : m = i
    · rw [hm, own] at eq
      exact row job eq
    · rw [other m hm] at eq
      exact (others m job hm eq).1
  · intro m env pick eq
    by_cases hm : m = i
    · rw [hm, own] at eq
      exact leasing env pick eq
    · rw [other m hm] at eq
      exact h.leasing m env pick eq
  · intro m job eq
    by_cases hm : m = i
    · rw [hm, own] at eq
      rw [hm]
      exact leased job eq
    · rw [other m hm] at eq
      exact h.leased m job eq
  · intro m
    by_cases hm : m = i
    · rw [hm, own]
      exact accepted
    · rw [other m hm]
      exact h.accepted m

/-- **One step.** -/
theorem step (h : s.Sound crew) {l : Turn k} (step : Step crew s l s') : s'.Sound crew := by
  cases step with
  | tick later => exact ⟨h.keyed, h.apart, h.row, h.leasing, h.leased, h.accepted⟩
  | reorder same =>
    refine ⟨h.keyed.perm same, h.apart, fun i job eq => ?_, h.leasing, h.leased, h.accepted⟩
    exact (h.keyed.lookup_perm same).trans (h.row i job eq)
  | @select i pick idle picked =>
    obtain ⟨mem, ok⟩ := Db.leasePick_spec picked
    obtain ⟨-, -, status, -, free⟩ := Db.leaseable_iff.1 ok
    have leaseable := JobStatus.isLeaseable_iff.2 status
    have row : s.db.job? pick.id = some pick := h.keyed.lookup_self mem
    refine h.move (fun m => rfl) h.keyed ?_ ?_ ?_ ?_ (by simp)
    · intro m job ne eq
      refine ⟨h.row m job eq, ?_⟩
      intro _ taken same
      cases taken
      -- the row another worker has is locked, or processing
      obtain rfl : pick = job := Option.some.inj (row.symm.trans (same ▸ h.row m job eq))
      cases phase : s.phase m with
      | leasing env pick =>
        rw [phase] at eq
        cases eq
        exact free (mem_locked.2 ⟨m, ne, by rw [phase]; rfl⟩)
      | working job =>
        rw [phase] at eq
        cases eq
        have busy := h.not_leaseable (i := m) (by rw [phase]; rfl)
        cases busy.symm.trans leaseable
      | completing env job result =>
        rw [phase] at eq
        cases eq
        exact free (mem_locked.2 ⟨m, ne, by rw [phase]; rfl⟩)
      | _ =>
        rw [phase] at eq
        cases eq
    · intro _ same
      cases same
      exact row
    · rintro _ _ ⟨⟩
      exact leaseable
    · intro _ same
      cases same
  | @leave i idle picked =>
    refine h.move (fun m => rfl) h.keyed ?_ ?_ ?_ ?_ (by simp)
    · intro m job ne eq
      exact ⟨h.row m job eq, by rintro _ ⟨⟩⟩
    · intro _ same
      cases same
    · rintro _ _ ⟨⟩
    · intro _ same
      cases same
  | @lease i env pick leasing =>
    have job : (s.phase i).job = some pick := by
      rw [leasing]
      rfl
    have row := h.row i pick job
    refine h.move (fun m => rfl) (h.keyed.updateWhere fun j => rfl) ?_ ?_ ?_ ?_ (by simp)
    · intro m job' ne eq
      have other : job'.id ≠ pick.id := fun same => ne (h.apart m i job' pick eq job same)
      refine ⟨(Db.leaseWrite_other other).trans (h.row m job' eq), ?_⟩
      intro _ same
      cases same
      exact other.symm
    · intro _ same
      cases same
      exact Db.leaseWrite_row row
    · rintro _ _ ⟨⟩
    · intro _ same
      cases same
      exact ⟨rfl, rfl⟩
  | @report i job result working =>
    rw [h.accepts working result, if_pos rfl]
    have leased : (s.phase i).leased = some job := by
      rw [working]
      rfl
    refine h.move (fun m => rfl) h.keyed ?_ ?_ ?_ ?_ (by simp)
    · intro m job' ne eq
      refine ⟨h.row m job' eq, ?_⟩
      intro _ taken same
      cases taken
      exact ne (h.apart m i job' job eq (Phase.job_of_leased leased) same.symm)
    · intro _ same
      cases same
      exact h.row i job (Phase.job_of_leased leased)
    · rintro _ _ ⟨⟩
    · intro _ same
      cases same
      exact h.leased i job leased
  | @complete i env job result completing =>
    have leased : (s.phase i).leased = some job := by
      rw [completing]
      rfl
    refine h.move (fun m => rfl) (h.keyed.updateWhere fun j => rfl) ?_ ?_ ?_ ?_ (by simp)
    · intro m job' ne eq
      have other : job'.id ≠ job.id := fun same => ne (h.apart m i job' job eq (Phase.job_of_leased leased) same)
      exact ⟨(Db.completeWrite_other other).trans (h.row m job' eq), by rintro _ ⟨⟩⟩
    · intro _ same
      cases same
    · rintro _ _ ⟨⟩
    · intro _ same
      cases same

end Sound

theorem sound_of_run {t : Int} {db : Db} (keyed : Keyed Job.id db.jobs) {ls : List (Turn k)}
    (run : Run (Step crew) (opening t db) ls s) : s.Sound crew :=
  run.invariant (Sound.opening keyed) fun _ _ _ h step => h.step step

/-! ## What becomes of a job -/

/-- How often a run leases the job `id`. -/
def timesLeased (id : Uuid) (ls : List (Turn k)) : Nat :=
  ls.countP fun
    | .lease _ job => decide (job.id = id)
    | _ => false

theorem timesLeased_lease (id : Uuid) (ls : List (Turn k)) (i : Fin k) (job : Job) :
    timesLeased id (ls ++ [.lease i job]) = timesLeased id ls + if job.id = id then 1 else 0 := by
  unfold timesLeased
  rw [List.countP_append, List.countP_singleton]
  simp only [decide_eq_true_eq]

theorem timesLeased_other (id : Uuid) (ls : List (Turn k)) {l : Turn k} (other : ∀ i job, l ≠ .lease i job) :
    timesLeased id (ls ++ [l]) = timesLeased id ls := by
  unfold timesLeased
  rw [List.countP_append, List.countP_singleton]
  cases l with
  | lease i job => exact absurd rfl (other i job)
  | _ => rfl

/-- A job on its way through the workers. As long as it waits, either some
worker has locked it, or no worker that lists its queue has left. -/
inductive Served (crew : Crew k) (j : Job) (ls : List (Turn k)) (s : Shift k) : Prop where
  | waiting (row : s.db.job? j.id = some j) (leaseable : j.status.isLeaseable = true) (due : j.runAt ≤ s.clock)
      (unpaused : ∃ q ∈ s.db.queues, q.name = j.queue ∧ q.paused = false) (never : timesLeased j.id ls = 0)
      (guarded : (∃ m, (s.phase m).job = some j) ∨ ∀ m, j.queue ∈ crew.queues m → s.phase m ≠ .finished)
  | leased {m : Fin k} {job : Job} (held : (s.phase m).leased = some job) (isId : job.id = j.id)
      (once : timesLeased j.id ls = 1)
  | completed {j' : Job} (row : s.db.job? j.id = some j') (status : j'.status = .completed)
      (once : timesLeased j.id ls = 1)

namespace Served

variable {j : Job} {ls ls' : List (Turn k)} {t : Shift k}

/-- A step that concerns other jobs. -/
theorem elsewhere (served : Served crew j ls s) (row : t.db.job? j.id = s.db.job? j.id) (clock : s.clock ≤ t.clock)
    (queues : t.db.queues = s.db.queues)
    (job : ∀ m a, (s.phase m).job = some a → a.id = j.id → (t.phase m).job = some a)
    (leased : ∀ m a, (s.phase m).leased = some a → a.id = j.id → (t.phase m).leased = some a)
    (stay : ∀ m, t.phase m = .finished → s.phase m = .finished)
    (count : timesLeased j.id ls' = timesLeased j.id ls) : Served crew j ls' t := by
  cases served with
  | waiting row' leaseable due unpaused never guarded =>
    refine .waiting (row.trans row') leaseable (due.trans clock) (queues ▸ unpaused) (count.trans never) ?_
    rcases guarded with ⟨m, has⟩ | present
    · exact .inl ⟨m, job m j has rfl⟩
    · exact .inr fun m listed gone => present m listed (stay m gone)
  | leased held isId once => exact .leased (leased _ _ held isId) isId (count.trans once)
  | completed row' status once => exact .completed (row.trans row') status (count.trans once)

/-- A worker moves from a phase to another, neither of which is about this job. -/
theorem move (served : Served crew j ls s) {p : Phase} (row : t.db.job? j.id = s.db.job? j.id)
    (clock : t.clock = s.clock) (queues : t.db.queues = s.db.queues)
    (phases : ∀ m, t.phase m = if m = i then p else s.phase m) (notMine : ∀ a, (s.phase i).job = some a → a.id ≠ j.id)
    (stays : p ≠ .finished) (count : timesLeased j.id ls' = timesLeased j.id ls) : Served crew j ls' t := by
  have other : ∀ m, m ≠ i → t.phase m = s.phase m := fun m ne => (phases m).trans (if_neg ne)
  refine served.elsewhere row (le_of_eq clock.symm) queues ?_ ?_ ?_ count
  · intro m a has isId
    have ne : m ≠ i := by
      rintro rfl
      exact notMine a has isId
    rw [other m ne]
    exact has
  · intro m a has isId
    have ne : m ≠ i := by
      rintro rfl
      exact notMine a (Phase.job_of_leased has) isId
    rw [other m ne]
    exact has
  · intro m gone
    by_cases this : m = i
    · rw [phases m, if_pos this] at gone
      exact absurd gone stays
    · rw [other m this] at gone
      exact gone

/-- **Nobody leaves a job behind.** A worker finds nothing to lease only if
another has locked what waits in its queues. -/
theorem leave (served : Served crew j ls s) (sound : s.Sound crew) (idle : s.phase i = .idle)
    (picked : s.db.leasePick (s.env i) (crew.queues i) = none) :
    Served crew j (ls ++ [.leave i]) (s.setPhase i .finished) := by
  have count : timesLeased j.id (ls ++ [.leave i]) = timesLeased j.id ls := timesLeased_other j.id ls (by simp)
  have busy : ∀ {m}, s.phase m ≠ .idle → (s.setPhase i .finished).phase m = s.phase m := by
    intro m notIdle
    refine setPhase_other _ ?_
    rintro rfl
    exact notIdle idle
  cases served with
  | completed row status once => exact .completed row status (count.trans once)
  | @leased m job held isId once =>
    refine .leased (m := m) ?_ isId (count.trans once)
    rw [busy, held]
    intro isIdle
    rw [isIdle] at held
    cases held
  | waiting row leaseable due unpaused never guarded =>
    have keep : ∀ m, (s.phase m).job = some j → ((s.setPhase i .finished).phase m).job = some j := by
      intro m has
      rw [busy, has]
      intro isIdle
      rw [isIdle] at has
      cases has
    refine .waiting row leaseable due unpaused (count.trans never) ?_
    rcases guarded with ⟨m, has⟩ | present
    · exact .inl ⟨m, keep m has⟩
    · by_cases listed : j.queue ∈ crew.queues i
      · have none := head_orderBy_none picked
        rw [List.filter_eq_nil_iff] at none
        have locked : j.id ∈ (s.env i).locked := by
          by_contra free
          exact none j (Db.job?_mem row)
            (Db.leaseable_iff.2 ⟨listed, unpaused, JobStatus.isLeaseable_iff.1 leaseable, due, free⟩)
        obtain ⟨m, -, locks⟩ := mem_locked.1 locked
        obtain ⟨job, has, isId⟩ := Phase.job_of_locks locks
        obtain rfl := Option.some.inj (row.symm.trans (isId ▸ sound.row m job has))
        exact .inl ⟨m, keep m has⟩
      · right
        intro m listed' gone
        by_cases this : m = i
        · exact listed (this ▸ listed')
        · rw [setPhase_other _ this] at gone
          exact present m listed' gone

/-- The lease of the job itself. -/
theorem lease (served : Served crew j ls s) (sound : s.Sound crew) {env : Env} {pick : Job}
    (leasing : s.phase i = .leasing env pick) (isId : pick.id = j.id) {job : Job} (sameId : job.id = pick.id)
    (leased : (t.phase i).leased = some job) : Served crew j (ls ++ [.lease i job]) t := by
  have row := sound.row i pick (by rw [leasing]; rfl)
  have waits := sound.leasing i env pick leasing
  cases served with
  | waiting _ _ _ _ never =>
    refine .leased leased (sameId.trans isId) ?_
    rw [timesLeased_lease, never, if_pos (sameId.trans isId)]
  | @leased m a held isId' =>
    have same := sound.row m a (Phase.job_of_leased held)
    rw [isId', ← isId] at same
    obtain rfl := Option.some.inj (row.symm.trans same)
    cases waits.symm.trans (sound.not_leaseable held)
  | completed row' status =>
    rw [isId] at row
    obtain rfl := Option.some.inj (row.symm.trans row')
    rw [status] at waits
    cases waits

/-- The completion of the job itself. -/
theorem complete (served : Served crew j ls s) (sound : s.Sound crew) {job : Job}
    (held : (s.phase i).leased = some job) (isId : job.id = j.id) {env : Env} {result : Option Json}
    (row' : t.db.job? job.id = some (job.setCompleted env.now result)) :
    Served crew j (ls ++ [.complete i job.id]) t := by
  have row := sound.row i job (Phase.job_of_leased held)
  have count : timesLeased j.id (ls ++ [.complete i job.id]) = timesLeased j.id ls :=
    timesLeased_other j.id ls (by simp)
  rw [isId] at row row'
  cases served with
  | waiting same leaseable =>
    obtain rfl := Option.some.inj (row.symm.trans same)
    cases leaseable.symm.trans (sound.not_leaseable held)
  | leased _ _ once => exact .completed row' rfl (count.trans once)
  | completed same status =>
    obtain rfl := Option.some.inj (row.symm.trans same)
    cases (sound.leased i job held).1.symm.trans status

/-- **One step.** -/
theorem step (served : Served crew j ls s) (sound : s.Sound crew) {l : Turn k} (step : Step crew s l t) :
    Served crew j (ls ++ [l]) t := by
  cases step with
  | tick later =>
    exact served.elsewhere rfl later rfl (fun _ _ h _ => h) (fun _ _ h _ => h) (fun _ h => h)
      (timesLeased_other j.id ls (by simp))
  | reorder same =>
    exact served.elsewhere (sound.keyed.lookup_perm same) (le_refl _) rfl (fun _ _ h _ => h) (fun _ _ h _ => h)
      (fun _ h => h) (timesLeased_other j.id ls (by simp))
  | select idle picked =>
    refine served.move rfl rfl rfl (fun _ => rfl) ?_ (by simp) (timesLeased_other j.id ls (by simp))
    intro a has
    rw [idle] at has
    cases has
  | leave idle picked => exact served.leave sound idle picked
  | @lease i env pick leasing =>
    by_cases isId : pick.id = j.id
    · exact served.lease sound leasing isId rfl (by rw [setPhase_self]; rfl)
    · refine served.move (Db.leaseWrite_other (Ne.symm isId)) rfl rfl (fun _ => rfl) ?_ (by simp) ?_
      · intro a has
        rw [leasing] at has
        cases has
        exact isId
      · simp [timesLeased_lease, Job.setLeased, isId]
  | @report i job result working =>
    rw [sound.accepts working result, if_pos rfl]
    refine served.elsewhere rfl (le_refl _) rfl ?_ ?_ ?_ (timesLeased_other j.id ls (by simp))
    · intro m a has _
      rw [setPhase_keeps Phase.job (by rw [working]; rfl)]
      exact has
    · intro m a has _
      rw [setPhase_keeps Phase.leased (by rw [working]; rfl)]
      exact has
    · intro m gone
      by_cases this : m = i
      · rw [this, setPhase_self] at gone
        cases gone
      · rw [setPhase_other _ this] at gone
        exact gone
  | @complete i env job result completing =>
    have held : (s.phase i).leased = some job := by
      rw [completing]
      rfl
    obtain ⟨processing, holder⟩ := sound.leased i job held
    have row := sound.row i job (Phase.job_of_leased held)
    by_cases isId : job.id = j.id
    · exact served.complete sound held isId (Db.completeWrite_row row processing holder)
    · refine served.move (Db.completeWrite_other (Ne.symm isId)) rfl rfl (fun _ => rfl) ?_ (by simp)
        (timesLeased_other j.id ls (by simp))
      intro a has
      rw [completing] at has
      cases has
      exact isId

end Served

/-- A job that can be leased when the workers begin. -/
structure Eligible (crew : Crew k) (t : Int) (db : Db) (j : Job) : Prop where
  stored : j ∈ db.jobs
  leaseable : j.status.isLeaseable = true
  due : j.runAt ≤ t
  listed : ∃ i, j.queue ∈ crew.queues i
  unpaused : ∃ q ∈ db.queues, q.name = j.queue ∧ q.paused = false
  budget : j.attempts < j.maxAttempts

theorem served_of_run {t : Int} {db : Db} (keyed : Keyed Job.id db.jobs) {j : Job} (eligible : Eligible crew t db j)
    {ls : List (Turn k)} (run : Run (Step crew) (opening t db) ls s) : Served crew j ls s := by
  induction run with
  | nil =>
    refine .waiting (keyed.lookup_self eligible.stored) eligible.leaseable eligible.due eligible.unpaused rfl ?_
    exact .inr fun m _ gone => by cases gone
  | snoc before last ih => exact ih.step (sound_of_run keyed before) last

/-! ## How long it takes -/

/-- How many turns a worker has left with the job it is at. -/
def rank : Phase → Nat
  | .idle => 1
  | .leasing _ _ => 0
  | .working _ => 3
  | .completing _ _ _ => 2
  | .refused => 0
  | .finished => 0

/-- At most so many turns of workers are left. -/
def left (s : Shift k) : Nat := 4 * s.db.jobs.countP (fun j => j.status.isLeaseable) + ∑ i, rank (s.phase i)

theorem sum_rank {t : Shift k} {p : Phase} (phases : ∀ m, t.phase m = if m = i then p else s.phase m) :
    ∑ m, rank (t.phase m) + rank (s.phase i) = ∑ m, rank (s.phase m) + rank p := by
  have others : ∀ m ∈ Finset.univ, m ≠ i → rank (t.phase m) = rank (s.phase m) := by
    intro m _ other
    rw [phases m, if_neg other]
  have own : t.phase i = p := (phases i).trans (if_pos rfl)
  have change := sum_change (Finset.mem_univ i) others
  rwa [own] at change

/-- Every turn of a worker brings the end nearer. -/
theorem Sound.left_step {t : Shift k} (h : s.Sound crew) {l : Turn k} (step : Step crew s l t) :
    t.left + (if l.worker.isSome then 1 else 0) ≤ s.left := by
  unfold left
  cases step with
  | tick later => exact le_refl _
  | reorder same =>
    show 4 * List.countP _ _ + _ ≤ _
    rw [same.countP_eq]
  | @select i pick idle picked =>
    have sum := sum_rank (s := s) (i := i) (p := .leasing (s.env i) pick) (t := s.setPhase i _) fun m => rfl
    rw [idle] at sum
    simp only [setPhase_db, rank, Turn.worker, Option.isSome_some, ↓reduceIte] at sum ⊢
    omega
  | @leave i idle picked =>
    have sum := sum_rank (s := s) (i := i) (p := .finished) (t := s.setPhase i _) fun m => rfl
    rw [idle] at sum
    simp only [setPhase_db, rank, Turn.worker, Option.isSome_some, ↓reduceIte] at sum ⊢
    omega
  | @lease i env pick leasing =>
    have row := h.row i pick (by rw [leasing]; rfl)
    have fewer : (s.db.leaseWrite env.now (crew.worker i) (crew.leaseSecs i) pick).jobs.countP
        (fun j => j.status.isLeaseable) < s.db.jobs.countP (fun j => j.status.isLeaseable) :=
      countP_updateWhere_lt (by simp [JobStatus.isLeaseable]) (Db.job?_mem row) (decide_eq_true rfl)
        (h.leasing i env pick leasing) rfl
    have sum := sum_rank (s := s) (i := i) (p := .working (pick.setLeased env.now (crew.worker i) (crew.leaseSecs i)))
      (t := s.setPhase i _) fun m => rfl
    rw [leasing] at sum
    simp only [rank, Turn.worker, Option.isSome_some, ↓reduceIte] at sum ⊢
    omega
  | @report i job result working =>
    rw [h.accepts working result, if_pos rfl]
    have sum := sum_rank (s := s) (i := i) (p := .completing (s.env i) job result) (t := s.setPhase i _) fun m => rfl
    rw [working] at sum
    simp only [setPhase_db, rank, Turn.worker, Option.isSome_some, ↓reduceIte] at sum ⊢
    omega
  | @complete i env job result completing =>
    have same : (s.db.completeWrite env job.id (crew.worker i) result).jobs.countP (fun j => j.status.isLeaseable) =
        s.db.jobs.countP (fun j => j.status.isLeaseable) := by
      apply countP_updateWhere
      intro a _ held
      rw [(Db.heldBy_iff.1 held).2.2]
      rfl
    have sum := sum_rank (s := s) (i := i) (p := .idle) (t := s.setPhase i _) fun m => rfl
    rw [completing] at sum
    simp only [rank, Turn.worker, Option.isSome_some, ↓reduceIte] at sum ⊢
    rw [same]
    omega

theorem turns_bounded {t : Int} {db : Db} (keyed : Keyed Job.id db.jobs) {ls : List (Turn k)}
    (run : Run (Step crew) (opening t db) ls s) :
    ls.countP (fun l => l.worker.isSome) + s.left ≤ 4 * db.jobs.length + k := by
  induction run with
  | nil =>
    have fewer := @List.countP_le_length _ (fun j : Job => j.status.isLeaseable) db.jobs
    have idle : ∑ i, rank ((opening t db : Shift k).phase i) = Finset.univ.card * 1 :=
      Finset.sum_const_nat fun _ _ => rfl
    rw [Finset.card_univ, Fintype.card_fin] at idle
    unfold left
    rw [idle]
    simp only [opening, List.countP_nil]
    omega
  | @snoc ls s l t before last ih =>
    have step := (sound_of_run keyed before).left_step last
    rw [List.countP_append, List.countP_singleton]
    omega

/-- A worker that has not left always has a turn to take. -/
theorem Sound.goes_on (h : s.Sound crew) (stays : s.phase i ≠ .finished) :
    ∃ l t, Turn.worker l = some i ∧ Step crew s l t := by
  cases phase : s.phase i with
  | idle =>
    cases picked : s.db.leasePick (s.env i) (crew.queues i) with
    | none => exact ⟨_, _, rfl, .leave phase picked⟩
    | some pick => exact ⟨_, _, rfl, .select phase picked⟩
  | leasing env pick => exact ⟨_, _, rfl, .lease phase⟩
  | working job => exact ⟨_, _, rfl, .report none phase⟩
  | completing env job result => exact ⟨_, _, rfl, .complete phase⟩
  | refused => exact absurd phase (h.accepted i)
  | finished => exact absurd phase stays

/-! ## Every job once -/

/-- What every run of the workers comes to. -/
structure Drains (crew : Crew k) (t : Int) (db : Db) (ls : List (Turn k)) (s : Shift k) : Prop where
  /-- No `complete_job` is refused. -/
  accepted : ∀ i id accepted, .report i id accepted ∈ ls → accepted = true
  /-- No job is handed out twice. -/
  atMostOnce : ∀ j, Eligible crew t db j → timesLeased j.id ls ≤ 1
  /-- When all workers have left, every job has been leased once and is completed. -/
  drained : (∀ i, s.phase i = .finished) → ∀ j, Eligible crew t db j →
    timesLeased j.id ls = 1 ∧ ∃ j', s.db.job? j.id = some j' ∧ j'.status = .completed
  /-- Until then every worker that has not left has a turn to take. -/
  goesOn : ∀ i, s.phase i ≠ .finished → ∃ l s', Turn.worker l = some i ∧ Step crew s l s'
  /-- And there are only so many turns. -/
  ends : ls.countP (fun l => l.worker.isSome) ≤ 4 * db.jobs.length + k

/-- **Concurrent workers drain the queue.** -/
theorem drains {t : Int} {db : Db} (keyed : Keyed Job.id db.jobs) {ls : List (Turn k)}
    (run : Run (Step crew) (opening t db) ls s) : Drains crew t db ls s := by
  have sound := sound_of_run keyed run
  constructor
  · intro i id accepted mem
    obtain ⟨pre, post, rfl⟩ := List.append_of_mem mem
    obtain ⟨r, r', before, step, -⟩ := run.at_label
    generalize eq : Turn.report i id accepted = l at step
    cases step with
    | report result working =>
      cases eq
      exact (sound_of_run keyed before).accepts working result
    | _ => cases eq
  · intro j eligible
    cases served_of_run keyed eligible run with
    | waiting _ _ _ _ never => omega
    | leased _ _ once => omega
    | completed _ _ once => omega
  · intro left j eligible
    cases served_of_run keyed eligible run with
    | waiting _ _ _ _ _ guarded =>
      rcases guarded with ⟨m, has⟩ | present
      · rw [left m] at has
        cases has
      · obtain ⟨i, listed⟩ := eligible.listed
        exact absurd (left i) (present i listed)
    | @leased m job held =>
      rw [left m] at held
      cases held
    | @completed j' row status once => exact ⟨once, j', row, status⟩
  · intro i stays
    exact sound.goes_on stays
  · have bound := turns_bounded keyed run
    omega

/-- Two workers that take the sample job. -/
def twoWorkers : Crew 2 := ⟨fun i => i.val + 1, fun _ => ["emails"], fun _ => 30⟩

def oneJob : Db := { Db.empty with queues := [⟨"emails", false, none, 0⟩], jobs := [Job.sample 3 none] }

/-- The second worker sees nothing to lease while the first holds the row, and leaves. -/
theorem drains_two_workers : ∃ ls s, Run (Step twoWorkers) (opening 0 oneJob) ls s ∧ (∀ i, s.phase i = .finished) ∧
    Eligible twoWorkers 0 oneJob (Job.sample 3 none) ∧ Drains twoWorkers 0 oneJob ls s := by
  have start : Run (Step twoWorkers) (opening 0 oneJob) [] (opening 0 oneJob) := .nil
  have selected := start.snoc (@Step.select 2 twoWorkers _ 0 (Job.sample 3 none) rfl (by decide))
  have skipped := selected.snoc (@Step.leave 2 twoWorkers _ 1 rfl (by decide))
  have leased := skipped.snoc (@Step.lease 2 twoWorkers _ 0 _ (Job.sample 3 none) rfl)
  have reported := leased.snoc (@Step.report 2 twoWorkers _ 0 ((Job.sample 3 none).setLeased 0 1 30) none rfl)
  have completed := reported.snoc (@Step.complete 2 twoWorkers _ 0 ⟨0, [], 0⟩ _ none rfl)
  have run := completed.snoc (@Step.leave 2 twoWorkers _ 0 rfl (by decide))
  have eligible : Eligible twoWorkers 0 oneJob (Job.sample 3 none) :=
    ⟨by decide, rfl, by decide, ⟨0, by decide⟩, by decide, by decide⟩
  have keyed : Keyed Job.id oneJob.jobs := List.nodup_singleton 7
  exact ⟨_, _, run, Fin.forall_fin_two.2 ⟨rfl, rfl⟩, eligible, drains keyed run⟩

end Shift

end Djq
