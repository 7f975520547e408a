import Djq.Lifecycle.Reread
import Djq.Worker.Fleet
import Mathlib.Data.Fintype.BigOperators

/-!
# The counters of the workers

`report_outcome` and `record_failure` count in the process that reports, some
counters before the store has decided and some by the row it returns. The totals
over all processes are compared with what the runs did to the rows.
-/

namespace Djq

open Relational Transition

/-- The collectors with a queue label that a report touches. -/
inductive Counter where
  | jobsCompleted
  | jobsFailed
  | jobsRetried
  | jobsDeadLettered
  deriving DecidableEq

/-- The collectors of a process; of `processing_duration` the number of observations. -/
structure Metrics where
  counters : Counter → String → Nat
  jobsTimedOut : Nat
  processingDuration : Nat

namespace Metrics

def new : Metrics := ⟨fun _ _ => 0, 0, 0⟩

/-- `with_label_values(&[queue]).inc()`. -/
def inc (m : Metrics) (counter : Counter) (queue : String) : Metrics :=
  { m with counters := fun c q => m.counters c q + if c = counter ∧ q = queue then 1 else 0 }

def observe (m : Metrics) : Metrics := { m with processingDuration := m.processingDuration + 1 }

/-- `report_outcome` up to its store call. -/
def called (m : Metrics) (job : Job) : ExecutionOutcome → Metrics
  | .success _ => m.observe
  | .failure _ => m.observe.inc .jobsFailed job.queue
  | .timeout => { m.observe with jobsTimedOut := m.jobsTimedOut + 1 }.inc .jobsFailed job.queue

end Metrics

/-- The counter `record_failure` chooses by the status it is returned. -/
def JobStatus.failureCounter : JobStatus → Option Counter
  | .retrying => some .jobsRetried
  | .deadLettered => some .jobsDeadLettered
  | _ => none

/-- The counter the row `id` stands for, read after a failure. -/
def Db.failureCounter (db : Db) (id : Uuid) : Option Counter := (db.job? id).bind fun j => j.status.failureCounter

/-- The counter of an answer of the store. -/
def ExecutionOutcome.counter : ExecutionOutcome → Except QueueError Value → Option Counter
  | .success _, .ok _ => some .jobsCompleted
  | .failure _, .ok (.job updated) => updated.status.failureCounter
  | .timeout, .ok (.job updated) => updated.status.failureCounter
  | _, _ => none

/-- `report_outcome` from the answer of the store on. -/
def Metrics.answered (m : Metrics) (job : Job) (outcome : ExecutionOutcome) (result : Except QueueError Value) :
    Metrics :=
  match outcome.counter result with
  | some counter => m.inc counter job.queue
  | none => m

def ExecutionOutcome.failed : ExecutionOutcome → Bool
  | .success _ => false
  | .failure _ => true
  | .timeout => true

/-- A call of `report_outcome`. -/
structure Report (P : Type) where
  process : P
  worker : Uuid
  job : Job
  outcome : ExecutionOutcome

/-- The store and the processes that report to it. -/
structure Metered (P : Type) where
  sys : Sys
  metrics : P → Metrics
  /-- The reports, by the number of their store call. -/
  reports : Nat → Option (Report P)
  /-- What `lease_next` has returned, with the worker it went to. -/
  leases : List (Uuid × Job)

/-- The store calls that only a report makes. -/
def Request.ofReport : Request → Bool
  | .completeJob _ _ _ => true
  | .failJob _ _ _ _ => true
  | _ => false

namespace Metered

variable {P : Type} [DecidableEq P]

def init (P : Type) (t : Int) : Metered P := ⟨Sys.init t, fun _ => .new, fun _ => none, []⟩

variable (s : Metered P)

/-- The metrics once a unit has committed: the last of a report answers it. -/
def answer (i : Nat) (u : Commit) : P → Metrics :=
  match s.reports i, u.reply with
  | some r, .done result => Function.update s.metrics r.process ((s.metrics r.process).answered r.job r.outcome result)
  | _, _ => s.metrics

/-- `report_outcome` is called. -/
def report (r : Report P) : Metered P where
  sys := s.sys.begin (reportOutcome r.job r.worker r.outcome)
  metrics := Function.update s.metrics r.process ((s.metrics r.process).called r.job r.outcome)
  reports := Function.update s.reports s.sys.nextCall (some r)
  leases := s.leases

/-- A counter, summed over the processes. -/
def total [Fintype P] (counter : Counter) (queue : String) : Nat := ∑ p, (s.metrics p).counters counter queue

inductive Label (P : Type) where
  | store (l : Djq.Label)
  | report (i : Nat) (r : Report P)

/-- What the store sees. -/
def Label.seen : Label P → Djq.Label
  | .store l => l
  | .report i r => .begin i (reportOutcome r.job r.worker r.outcome)

def Label.commit : Label P → Option Commit
  | .store (.commit _ u) => some u
  | _ => none

/-- Processes report what they were leased; leases, sweeps and the calls of
operators are made by anyone. -/
inductive Step : Metered P → Label P → Metered P → Prop where
  | quiet {s l sys} (step : Djq.Step s.sys l sys) (calm : ∀ i u, l ≠ .commit i u)
      (outside : ∀ i request, l = .begin i request → request.ofReport = false) :
      Step s (.store l) { s with sys := sys }
  | commit {s i u sys} (step : Djq.Step s.sys (.commit i u) sys) :
      Step s (.store (.commit i u)) ⟨sys, s.answer i u, s.reports, s.leases ++ u.lease.toList⟩
  | report {s r} (leased : (r.worker, r.job) ∈ s.leases) : Step s (.report s.sys.nextCall r) (s.report r)

end Metered

/-! ## What the runs do -/

/-- How many rows of the queue the unit moves from `processing` to `target`. -/
def Commit.moved (u : Commit) (target : JobStatus) (queue : String) : Nat :=
  u.db.jobs.countP fun j =>
    decide (j.queue = queue ∧ j.status = .processing ∧ (u.after.job? j.id).map Job.status = some target)

/-- A row leaves `processing` for one of the counted statuses by a report or a sweep. -/
theorem RowStep.counted {env : Env} {db : Db} {id : Uuid} {c : Call} {p : Progress} {j j' : Job}
    (life : RowStep env db id c p (some j) (some j')) (processing : j.status = .processing)
    (moves : j'.status ∈ [.completed, .retrying, .deadLettered]) :
    (∃ worker result, c = .start (.completeJob id worker result)) ∨
    (∃ worker error timedOut, c = .start (.failJob id worker error timedOut)) ∨
    (∃ limit ids, c = .start (.recoverExpiredLeases limit) ∧ p = .next (.recoverDeadLetter limit ids) ∧ id ∈ ids) ∨
    ∃ limit before ids, c = .recoverDeadLetter limit before ∧ p = .next (.recoverFailed limit (before ++ ids)) ∧
      id ∈ ids := by
  have stays : ∀ {k : Job}, k.status = .processing → k.status ∉ [.completed, .retrying, .deadLettered] := by
    intro k here
    rw [here]
    decide
  cases life with
  | same => exact absurd moves (stays processing)
  | leased leaseable =>
    rw [processing] at leaseable
    exact absurd leaseable (by decide)
  | renewed => exact absurd moves (stays processing)
  | completed => exact .inl ⟨_, _, rfl⟩
  | failed => exact .inr (.inl ⟨_, _, _, rfl⟩)
  | cancelled => exact absurd moves (by simp [Job.setCancelled])
  | requeued ended =>
    rw [processing] at ended
    exact absurd ended (by decide)
  | expiredRetrying taken => exact .inr (.inr (.inl ⟨_, _, rfl, rfl, taken⟩))
  | expiredDeadLettered taken => exact .inr (.inr (.inr ⟨_, _, _, rfl, rfl, taken⟩))
  | expiredFailed => exact absurd moves (by simp [Job.setExpiredFailed])

namespace Commit

variable {u : Commit} {queue : String} {target : JobStatus}

end Commit

/-! ## What is in flight -/

/-- A store call that only a report makes. -/
def Call.ofReport : Call → Bool
  | .start request => request.ofReport
  | .rereadFailed _ => true
  | _ => false

namespace Metered

variable {P : Type}

/-- What a call may be in flight for. -/
inductive Pending (r : Report P) : Call → Prop where
  | called : Pending r (.start (reportOutcome r.job r.worker r.outcome))
  | refused {op id} (success : r.outcome.failed = false) : Pending r (.rejected op id)
  | reread (failure : r.outcome.failed = true) : Pending r (.rereadFailed r.job.id)

/-- The calls of reports, and the leases they report on. -/
structure Kept (s : Metered P) : Prop where
  given : ∀ i r, s.reports i = some r → i < s.sys.nextCall
  leased : ∀ i r, s.reports i = some r → (r.worker, r.job) ∈ s.leases
  pending : ∀ i r c, s.reports i = some r → s.sys.calls i = some c → Pending r c
  owned : ∀ i c, s.sys.calls i = some c → c.ofReport = true → ∃ r, s.reports i = some r

variable {s s' : Metered P} {l : Label P}

theorem Kept.init (t : Int) : (init P t).Kept := by
  constructor
  · intro i r isReport
    cases isReport
  · intro i r isReport
    cases isReport
  · intro i r c isReport
    cases isReport
  · intro i c inFlight
    cases inFlight

/-- What is left of a report's call, or of another. -/
theorem pending_next {r : Report P} {u : Commit} {c : Call} (pending : Pending r u.call)
    (next : u.reply = .next c) : Pending r c := by
  have failed : ∀ {error timedOut}, u.call = .start (.failJob r.job.id r.worker error timedOut) →
      r.outcome.failed = true → Pending r c := by
    intro error timedOut call failure
    obtain ⟨⟨e, ends⟩, -⟩ | ⟨j, -, waits, -⟩ := Commit.failJob_cases call
    · cases next.symm.trans ends
    · obtain rfl := Progress.next.inj (next.symm.trans waits)
      exact .reread failure
  generalize call : u.call = before at pending
  cases pending with
  | called =>
    cases outcome : r.outcome with
    | success result =>
      have follows := Call.follows next
      rw [call, outcome] at follows
      cases follows with
      | rejected => exact .refused (by rw [outcome]; rfl)
    | failure error => exact failed (by rw [call, outcome]; rfl) (by rw [outcome]; rfl)
    | timeout => exact failed (by rw [call, outcome]; rfl) (by rw [outcome]; rfl)
  | refused =>
    have follows := Call.follows next
    rw [call] at follows
    cases follows
  | reread => cases next.symm.trans (Commit.rereadFailed_reply call)

theorem ofReport_next {u : Commit} {c : Call} (next : u.reply = .next c) (report : c.ofReport = true) :
    u.call.ofReport = true := by
  have follows := Call.follows next
  generalize u.call = before at follows
  cases follows with
  | rereadFailed => rfl
  | _ => cases report

/-- A report that is called has not been called before. -/
theorem Kept.unreported (kept : s.Kept) : s.reports s.sys.nextCall = none := by
  cases isReport : s.reports s.sys.nextCall with
  | none => rfl
  | some r => exact absurd (kept.given _ r isReport) (Nat.lt_irrefl _)

/-- A step that moves the call `i` and calls no report. -/
theorem Kept.moved (kept : s.Kept) {i : Nat} {pending : Option Call} (calls : s'.sys.calls = s.sys.setCall i pending)
    (later : s.sys.nextCall ≤ s'.sys.nextCall) (reports : s'.reports = s.reports) (leases : s.leases ⊆ s'.leases)
    (goesOn : ∀ r c, s.reports i = some r → pending = some c → Pending r c)
    (owned : ∀ c, pending = some c → c.ofReport = true → ∃ r, s.reports i = some r) : s'.Kept := by
  have others : ∀ k c, s'.sys.calls k = some c → s.sys.calls k = some c ∨ (k = i ∧ pending = some c) := by
    intro k c inFlight
    rw [calls] at inFlight
    by_cases this : k = i
    · subst this
      exact .inr ⟨rfl, (s.sys.setCall_self _ _).symm.trans inFlight⟩
    · exact .inl ((s.sys.setCall_other _ this).symm.trans inFlight)
  constructor
  · intro k r isReport
    exact Nat.lt_of_lt_of_le (kept.given k r (reports ▸ isReport)) later
  · intro k r isReport
    exact leases (kept.leased k r (reports ▸ isReport))
  · intro k r c isReport inFlight
    rw [reports] at isReport
    rcases others k c inFlight with same | ⟨rfl, moved⟩
    · exact kept.pending k r c isReport same
    · exact goesOn r c isReport moved
  · intro k c inFlight report
    rw [reports]
    rcases others k c inFlight with same | ⟨rfl, moved⟩
    · exact kept.owned k c same report
    · exact owned c moved report

variable [DecidableEq P]

theorem Kept.report (kept : s.Kept) {r : Report P} (leased : (r.worker, r.job) ∈ s.leases) : (s.report r).Kept := by
  have others : ∀ i, i ≠ s.sys.nextCall →
      (s.report r).reports i = s.reports i ∧ (s.report r).sys.calls i = s.sys.calls i := fun i old =>
    ⟨Function.update_of_ne old _ _, s.sys.setCall_other _ old⟩
  have own : (s.report r).reports s.sys.nextCall = some r := Function.update_self _ _ _
  have call : (s.report r).sys.calls s.sys.nextCall =
    some (.start (reportOutcome r.job r.worker r.outcome)) := s.sys.setCall_self _ _
  constructor
  · intro i r' isReport
    by_cases new : i = s.sys.nextCall
    · exact new ▸ Nat.lt_succ_self _
    · exact Nat.lt_succ_of_lt (kept.given i r' ((others i new).1.symm.trans isReport))
  · intro i r' isReport
    by_cases new : i = s.sys.nextCall
    · subst new
      obtain rfl := Option.some.inj (own.symm.trans isReport)
      exact leased
    · exact kept.leased i r' ((others i new).1.symm.trans isReport)
  · intro i r' c isReport inFlight
    by_cases new : i = s.sys.nextCall
    · subst new
      obtain rfl := Option.some.inj (own.symm.trans isReport)
      obtain rfl := Option.some.inj (call.symm.trans inFlight)
      exact .called
    · exact kept.pending i r' c ((others i new).1.symm.trans isReport) ((others i new).2.symm.trans inFlight)
  · intro i c inFlight report
    by_cases new : i = s.sys.nextCall
    · exact ⟨r, new ▸ own⟩
    · obtain ⟨r', isReport⟩ := kept.owned i c ((others i new).2.symm.trans inFlight) report
      exact ⟨r', (others i new).1.trans isReport⟩

theorem Kept.step (kept : s.Kept) (step : Step s l s') : s'.Kept := by
  cases step with
  | quiet step calm outside =>
    cases step with
    | tick => exact ⟨kept.given, kept.leased, kept.pending, kept.owned⟩
    | reorder => exact ⟨kept.given, kept.leased, kept.pending, kept.owned⟩
    | begin request =>
      refine kept.moved rfl (Nat.le_succ _) rfl (List.Subset.refl _) ?_ ?_
      · intro r c isReport
        cases kept.unreported.symm.trans isReport
      · intro c begun report
        obtain rfl := Option.some.inj begun
        cases (outside _ _ rfl).symm.trans report
    | commit => exact absurd rfl (calm _ _)
    | stop => exact kept.moved rfl le_rfl rfl (List.Subset.refl _) (by simp) (by simp)
  | @commit k u _ step =>
    obtain ⟨before, -, -, -, rfl⟩ := step.commit_inv
    have next : ∀ c, u.reply.pending = some c → u.reply = .next c := by
      intro c pending
      cases reply : u.reply with
      | done => rw [reply] at pending; cases pending
      | next c' =>
        rw [reply] at pending
        obtain rfl := Option.some.inj pending
        rfl
    refine kept.moved rfl le_rfl rfl (List.subset_append_left _ _) ?_ ?_
    · intro r c isReport pending
      exact pending_next (kept.pending k r u.call isReport before) (next c pending)
    · intro c pending report
      exact kept.owned k u.call before (ofReport_next (next c pending) report)
  | report leased => exact kept.report leased

/-! ## The store behind the reports -/

theorem seen_run {t : Int} {ls : List (Label P)} (run : Run Step (init P t) ls s) :
    Run Djq.Step (Sys.init t) (ls.map Label.seen) s.sys := by
  induction run with
  | nil => exact .nil
  | snoc _ last ih =>
    rw [List.map_append]
    cases last with
    | quiet step => exact ih.snoc step
    | commit step => exact ih.snoc step
    | report => exact ih.snoc (.begin _)

theorem leases_eq {t : Int} {ls : List (Label P)} (run : Run Step (init P t) ls s) :
    s.leases = (ls.map Label.seen).filterMap Djq.Label.lease := by
  induction run with
  | nil => rfl
  | @snoc ls s l s' _ last ih =>
    rw [List.map_append, List.filterMap_append, ← ih]
    have none : ∀ {l' : Djq.Label}, l'.lease = none → s.leases = s.leases ++ [l'].filterMap Djq.Label.lease := by
      intro l' none
      rw [List.filterMap_cons_none none, List.filterMap_nil, List.append_nil]
    cases last with
    | @quiet l _ _ calm _ =>
      apply none
      cases l with
      | commit => exact absurd rfl (calm _ _)
      | _ => rfl
    | @commit i u _ _ =>
      show s.leases ++ (Djq.Label.commit i u).lease.toList = s.leases ++ [Djq.Label.commit i u].filterMap Djq.Label.lease
      cases lease : (Djq.Label.commit i u).lease with
      | none => rw [List.filterMap_cons_none lease]; rfl
      | some x => rw [List.filterMap_cons_some lease]; rfl
    | report => exact none rfl

theorem kept_of_run {t : Int} {ls : List (Label P)} (run : Run Step (init P t) ls s) : s.Kept :=
  run.invariant (Kept.init t) fun _ _ _ kept step => kept.step step

/-- A report knows its job. -/
theorem knows_of_run {t : Int} {ls : List (Label P)} (run : Run Step (init P t) ls s) {i : Nat} {r : Report P}
    (isReport : s.reports i = some r) : s.sys.Knows r.job := by
  have leased := (kept_of_run run).leased i r isReport
  rw [leases_eq run] at leased
  obtain ⟨l, mem, lease⟩ := List.mem_filterMap.1 leased
  exact Sys.knows_of_run (seen_run run) l mem r.worker r.job lease

/-! ## Replaying concrete runs -/

inductive Action (P : Type) where
  | store (a : Djq.Action)
  /-- The worker of the latest lease reports. -/
  | report (process : P) (outcome : ExecutionOutcome)

/-- Do an action, if it is enabled. -/
def act {P : Type} [DecidableEq P] (s : Metered P) : Action P → Option (Label P × Metered P)
  | .store a =>
    match s.sys.act a with
    | none => none
    | some (.commit i u, sys) => some (.store (.commit i u), ⟨sys, s.answer i u, s.reports, s.leases ++ u.lease.toList⟩)
    | some (.begin i request, sys) =>
      if request.ofReport then none else some (.store (.begin i request), { s with sys := sys })
    | some (l, sys) => some (.store l, { s with sys := sys })
  | .report process outcome =>
    s.leases.getLast?.map fun (worker, job) =>
      (.report s.sys.nextCall ⟨process, worker, job, outcome⟩, s.report ⟨process, worker, job, outcome⟩)

theorem act_step (s : Metered P) (a : Action P) (l : Label P) (s' : Metered P) (done : s.act a = some (l, s')) :
    Step s l s' := by
  cases a with
  | store a =>
    simp only [act] at done
    split at done
    · cases done
    · rename_i did
      cases done
      exact .commit (Sys.act_step did)
    · rename_i did
      obtain ⟨outside, eq⟩ := Option.ite_none_left_eq_some.1 done
      cases eq
      refine .quiet (Sys.act_step did) (by simp) ?_
      rintro _ _ ⟨⟩
      exact eq_false_of_ne_true outside
    · rename_i noCommit noBegin did
      cases done
      exact .quiet (Sys.act_step did) noCommit fun i request eq => absurd eq (noBegin i request)
  | report process outcome =>
    obtain ⟨⟨worker, job⟩, last, eq⟩ := Option.map_eq_some_iff.1 done
    cases eq
    exact .report (List.mem_of_getLast? last)

end Metered

end Djq
