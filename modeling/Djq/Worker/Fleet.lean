import Djq.Lease.Protection
import Djq.Transition.Replay
import Mathlib.Data.List.DropRight

/-!
# Worker processes

`WorkerRuntime::run` and `execute_job` over the store of `Interleaving`: each
lease starts an execution, which renews the lease, runs the handler and reports.
Any store call may return `QueueError::Storage` instead of its reply, before or
after what it writes is committed. No process dies and none is shut down.
-/

namespace Djq

open Relational Transition

/-- Outcome reported by a worker after executing a job. -/
inductive ExecutionOutcome where
  | success (result : Option Json)
  | failure (error : String)
  | timeout

/-- The store call `report_outcome` makes. -/
def reportOutcome (job : Job) (worker : Uuid) : ExecutionOutcome → Request
  | .success result => .completeJob job.id worker result
  | .failure error => .failJob job.id worker error false
  | .timeout => .failJob job.id worker "execution timed out" true

/-- The outcome where the registry has no handler for the job. -/
def noHandler (job : Job) : ExecutionOutcome :=
  .failure ("no handler for job_type \x27" ++ job.jobType ++ "\x27")

/-- How far an attempt has come. -/
inductive Stage where
  /-- `lease_next` leased the job and returned `Storage`: there is no execution. -/
  | lost
  /-- `execute_job` has the job and has yet to renew. -/
  | leased
  | renewing (i : Nat)
  /-- "could not renew lease; skipping (lease lost)". -/
  | skipped
  /-- The handler has been invoked. -/
  | handling
  /-- The outcome, the handler's or that there is no handler, is reported by call `i`. -/
  | reported (i : Nat)
  deriving DecidableEq

/-- The handler was invoked, or it was reported that there is none. -/
def Stage.ran : Stage → Bool
  | .handling => true
  | .reported _ => true
  | _ => false

/-- What became of a lease. -/
structure Execution where
  /-- The call of `lease_next`. -/
  number : Nat
  worker : Uuid
  job : Job
  stage : Stage
  deriving DecidableEq

structure Fleet where
  sys : Sys
  /-- In the order of the leases. -/
  executions : List Execution

def Progress.isOk : Progress → Bool
  | .done (.ok _) => true
  | _ => false

namespace Fleet

def init (t : Int) : Fleet := ⟨Sys.init t, []⟩

/-- The handlers each worker has. -/
abbrev Registry := Uuid → String → Bool

variable (registry : Registry) (s : Fleet)

/-- Move the executions that `which` selects to another stage. -/
def move (which : Execution → Bool) (stage : Stage) : List Execution :=
  updateWhere which (fun e => { e with stage := stage }) s.executions

/-- The executions of a job. -/
def ofJob (id : Uuid) : List Execution := s.executions.filter fun e => decide (e.job.id = id)

/-- The execution of the latest lease of a job. -/
def latest (id : Uuid) : Option Execution := (s.ofJob id).getLast?

/-- The executions of the attempts a job has consumed since it was submitted or last requeued. -/
def consumed (j : Job) : List Execution := (s.ofJob j.id).rtake j.attempts.toNat

/-- A unit commits, and its reply reaches the caller unless it is `lost`. With
its answer an execution goes on, up to its next `await`. -/
def commit (i : Nat) (u : Commit) (lost : Bool) : Fleet :=
  match u.lease with
  | some (worker, job) =>
    ⟨s.sys.commit i u, s.executions ++ [⟨i, worker, job, if lost then .lost else .leased⟩]⟩
  | none =>
    match s.executions.find? fun e => decide (e.stage = .renewing i) with
    | none => ⟨s.sys.commit i u, s.executions⟩
    | some e =>
      if lost || !u.reply.isOk then ⟨s.sys.commit i u, s.move (fun e => decide (e.stage = .renewing i)) .skipped⟩
      else if registry e.worker e.job.jobType then
        ⟨s.sys.commit i u, s.move (fun e => decide (e.stage = .renewing i)) .handling⟩
      else
        ⟨(s.sys.commit i u).begin (reportOutcome e.job e.worker (noHandler e.job)),
          s.move (fun e => decide (e.stage = .renewing i)) (.reported s.sys.nextCall)⟩

/-- A call returns `Storage` between two units, or before its first. -/
def stop (i : Nat) : Fleet := ⟨s.sys.stop i, s.move (fun e => decide (e.stage = .renewing i)) .skipped⟩

/-- An execution begins its renewal. -/
def renew (e : Execution) : Fleet :=
  ⟨s.sys.begin (.renewLease e.job.id e.worker (coverSecs e.job)),
    s.move (fun x => decide (x = e)) (.renewing s.sys.nextCall)⟩

/-- The handler of an execution has returned, or run out of time, and it begins its report. -/
def report (e : Execution) (outcome : ExecutionOutcome) : Fleet :=
  ⟨s.sys.begin (reportOutcome e.job e.worker outcome),
    s.move (fun x => decide (x = e)) (.reported s.sys.nextCall)⟩

end Fleet

/-- The calls only an execution makes. -/
def Request.ofExecution : Request → Bool
  | .completeJob _ _ _ => true
  | .failJob _ _ _ _ => true
  | .renewLease _ _ _ => true
  | _ => false

inductive Fleet.Label where
  | tick (now : Int)
  | reorder
  | begin (i : Nat) (request : Request)
  | renew (e : Execution)
  | report (e : Execution) (outcome : ExecutionOutcome)
  | commit (i : Nat) (u : Commit) (lost : Bool)
  | stop (i : Nat) (c : Call)

/-- Workers poll for leases and operators call whenever they like. -/
inductive Fleet.Step (registry : Fleet.Registry) : Fleet → Fleet.Label → Fleet → Prop where
  | tick {s : Fleet} {now : Int} (later : s.sys.clock ≤ now) :
      Step registry s (.tick now) ⟨{ s.sys with clock := now }, s.executions⟩
  | reorder {s : Fleet} {jobs : List Job} (same : jobs.Perm s.sys.db.jobs) :
      Step registry s .reorder ⟨{ s.sys with db := { s.sys.db with jobs := jobs } }, s.executions⟩
  | begin {s : Fleet} {request : Request} (outside : request.ofExecution = false) :
      Step registry s (.begin s.sys.nextCall request) ⟨s.sys.begin request, s.executions⟩
  | renew {s : Fleet} {e : Execution} (there : e ∈ s.executions) (leased : e.stage = .leased) :
      Step registry s (.renew e) (s.renew e)
  | report {s : Fleet} {e : Execution} (outcome : ExecutionOutcome) (there : e ∈ s.executions)
      (handling : e.stage = .handling) : Step registry s (.report e outcome) (s.report e outcome)
  | commit {s : Fleet} {i : Nat} {u : Commit} {lost : Bool} (inFlight : s.sys.calls i = some u.call)
      (on : u.db = s.sys.db) (now : u.env.now = s.sys.clock) (fresh : u.env.uuid ∉ s.sys.issued)
      (last : lost = true → u.reply.pending = none) :
      Step registry s (.commit i u lost) (s.commit registry i u lost)
  | stop {s : Fleet} {i : Nat} {c : Call} (inFlight : s.sys.calls i = some c) :
      Step registry s (.stop i c) (s.stop i)

/-! ## Replaying concrete runs -/

namespace Fleet

inductive Action where
  | tick (now : Int)
  | begin (request : Request)
  | renew (number : Nat)
  | report (number : Nat) (outcome : ExecutionOutcome)
  | commit (i : Nat) (uuid : Uuid)
  | stop (i : Nat)

/-- Do an action, if it is enabled; no row is locked by anyone else and no reply is lost. -/
def act (registry : Registry) (s : Fleet) : Action → Option (Label × Fleet)
  | .tick now =>
    if s.sys.clock ≤ now then some (.tick now, ⟨{ s.sys with clock := now }, s.executions⟩) else none
  | .begin request =>
    if request.ofExecution then none else some (.begin s.sys.nextCall request, ⟨s.sys.begin request, s.executions⟩)
  | .renew number =>
    (s.executions.find? fun e => decide (e.number = number ∧ e.stage = .leased)).map fun e => (.renew e, s.renew e)
  | .report number outcome =>
    (s.executions.find? fun e => decide (e.number = number ∧ e.stage = .handling)).map fun e =>
      (.report e outcome, s.report e outcome)
  | .commit i uuid =>
    match s.sys.calls i with
    | none => none
    | some c =>
      if uuid ∈ s.sys.issued then none
      else
        let u : Commit := ⟨c, ⟨s.sys.clock, [], uuid⟩, s.sys.db⟩
        some (.commit i u false, s.commit registry i u false)
  | .stop i => (s.sys.calls i).map fun c => (.stop i c, s.stop i)

theorem act_step (registry : Registry) (s : Fleet) (a : Action) (l : Label) (s' : Fleet)
    (done : s.act registry a = some (l, s')) : Step registry s l s' := by
  cases a with
  | tick now =>
    simp only [act, Option.ite_none_right_eq_some, Option.some.injEq, Prod.mk.injEq] at done
    obtain ⟨later, rfl, rfl⟩ := done
    exact .tick later
  | begin request =>
    simp only [act, Option.ite_none_left_eq_some, Option.some.injEq, Prod.mk.injEq] at done
    obtain ⟨outside, rfl, rfl⟩ := done
    exact .begin (Bool.eq_false_iff.2 outside)
  | renew number =>
    simp only [act, Option.map_eq_some_iff, Prod.mk.injEq] at done
    obtain ⟨e, found, rfl, rfl⟩ := done
    have leased := List.find?_some found
    simp only [decide_eq_true_eq] at leased
    exact .renew (List.mem_of_find?_eq_some found) leased.2
  | report number outcome =>
    simp only [act, Option.map_eq_some_iff, Prod.mk.injEq] at done
    obtain ⟨e, found, rfl, rfl⟩ := done
    have handling := List.find?_some found
    simp only [decide_eq_true_eq] at handling
    exact .report outcome (List.mem_of_find?_eq_some found) handling.2
  | commit i uuid =>
    cases inFlight : s.sys.calls i with
    | none => simp [act, inFlight] at done
    | some c =>
      simp only [act, inFlight, Option.ite_none_left_eq_some, Option.some.injEq, Prod.mk.injEq] at done
      obtain ⟨fresh, rfl, rfl⟩ := done
      exact .commit inFlight rfl rfl fresh (by simp)
  | stop i =>
    simp only [act, Option.map_eq_some_iff, Prod.mk.injEq] at done
    obtain ⟨c, inFlight, rfl, rfl⟩ := done
    exact .stop inFlight

end Fleet

/-! ## What a commit does -/

section Commit

variable {registry : Fleet.Registry} {s : Fleet} {i : Nat} {u : Commit} {lost : Bool}

theorem Fleet.commit_lease {worker : Uuid} {job : Job} (lease : u.lease = some (worker, job)) :
    s.commit registry i u lost =
      ⟨s.sys.commit i u, s.executions ++ [⟨i, worker, job, if lost then .lost else .leased⟩]⟩ := by
  simp only [commit, lease]

/-- What becomes of the execution a reply goes to. -/
theorem Fleet.commit_other (noLease : u.lease = none) :
    (s.commit registry i u lost).executions = s.executions ∨
    (∃ e ∈ s.executions, e.stage = .renewing i) ∧ ∃ stage,
      (s.commit registry i u lost).executions = s.move (fun e => decide (e.stage = .renewing i)) stage ∧
      (∀ k, stage ≠ .renewing k) ∧ ((stage = .skipped ∧ (lost = true ∨ u.reply.isOk = false)) ∨ stage.ran = true) := by
  unfold commit
  rw [noLease]
  simp only
  cases found : s.executions.find? fun e => decide (e.stage = .renewing i) with
  | none => exact .inl rfl
  | some e =>
    have there : ∃ e ∈ s.executions, e.stage = .renewing i :=
      ⟨e, List.mem_of_find?_eq_some found, by simpa using List.find?_some found⟩
    refine .inr ⟨there, ?_⟩
    simp only
    split
    · rename_i refused
      refine ⟨.skipped, rfl, by simp, .inl ⟨rfl, ?_⟩⟩
      simpa using refused
    · split
      · exact ⟨.handling, rfl, by simp, .inr rfl⟩
      · exact ⟨.reported s.sys.nextCall, rfl, by simp, .inr rfl⟩

/-- The store commits the unit; where there is no handler a report is begun on top. -/
theorem Fleet.commit_sys : (s.commit registry i u lost).sys = s.sys.commit i u ∨
    ∃ request, (s.commit registry i u lost).sys = (s.sys.commit i u).begin request := by
  unfold commit
  split
  · exact .inl rfl
  · split
    · exact .inl rfl
    · split
      · exact .inl rfl
      · split
        · exact .inl rfl
        · exact .inr ⟨_, rfl⟩

theorem Fleet.commit_db : (s.commit registry i u lost).sys.db = u.after := by
  obtain eq | ⟨request, eq⟩ := @Fleet.commit_sys registry s i u lost
  · rw [eq]
    rfl
  · rw [eq]
    rfl

end Commit

/-! ## Runs of the store -/

/-- What the processes do is a run of the store. -/
theorem Fleet.Step.sys {registry : Fleet.Registry} {s s' : Fleet} {l : Fleet.Label} (step : Step registry s l s') :
    ∃ ls, Run Djq.Step s.sys ls s'.sys := by
  cases step with
  | tick later => exact ⟨_, .one (.tick later)⟩
  | reorder same => exact ⟨_, .one (.reorder same)⟩
  | begin outside => exact ⟨_, .one (.begin _)⟩
  | renew there leased => exact ⟨_, .one (.begin _)⟩
  | report outcome there handling => exact ⟨_, .one (.begin _)⟩
  | @commit i u lost inFlight on now fresh last =>
    have unit : Djq.Step s.sys (.commit i u) (s.sys.commit i u) := .commit inFlight on now fresh
    obtain eq | ⟨request, eq⟩ := @Fleet.commit_sys registry s i u lost
    · rw [eq]
      exact ⟨_, .one unit⟩
    · rw [eq]
      exact ⟨_, (Run.one unit).snoc (.begin request)⟩
  | stop inFlight => exact ⟨_, .one (.stop inFlight)⟩

theorem Fleet.sys_of_run {registry : Fleet.Registry} {t : Int} {ls : List Fleet.Label} {s : Fleet}
    (run : Run (Fleet.Step registry) (Fleet.init t) ls s) : ∃ ls', Run Djq.Step (Sys.init t) ls' s.sys := by
  induction run with
  | nil => exact ⟨[], .nil⟩
  | snoc before last ih =>
    obtain ⟨ls₁, first⟩ := ih
    obtain ⟨ls₂, second⟩ := last.sys
    exact ⟨ls₁ ++ ls₂, first.append second⟩

theorem Fleet.sound_of_run {registry : Fleet.Registry} {t : Int} {ls : List Fleet.Label} {s : Fleet}
    (run : Run (Fleet.Step registry) (Fleet.init t) ls s) : s.sys.Sound := by
  obtain ⟨ls', run'⟩ := Fleet.sys_of_run run
  exact Sys.sound_of_run run'

end Djq
