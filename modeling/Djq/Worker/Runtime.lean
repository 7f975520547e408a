import Djq.Worker.Fleet
import Mathlib.Data.List.TakeWhile

/-!
# The run loop of a worker

`WorkerRuntime::run` and the tasks it spawns, `crates/worker/src/runtime.rs`. A
permit has one owner at a time: the semaphore, the loop or a task. What the store
and the handlers return, when the token is cancelled, and which of its ready
branches a `select!` takes are left open. Nothing closes the semaphore, and the
heartbeat holds no permit.
-/

namespace Djq

open Transition

/-- Where `run` is. -/
inductive RunPhase where
  /-- `register_worker` has been called. -/
  | registering
  /-- The `select!` at the head of the loop. -/
  | head
  /-- `lease_next` has been called. -/
  | leasing
  /-- The `select!` that sleeps for `poll_interval`. -/
  | sleeping
  /-- The `try_join_next` at the end of an iteration. -/
  | reaping
  /-- `join_next`, within `shutdown_grace`. -/
  | draining
  /-- `deregister_worker` has been called. -/
  | deregistering
  | returned
  deriving DecidableEq

/-- The loop is left for good. -/
def RunPhase.left : RunPhase → Bool
  | .draining => true
  | .deregistering => true
  | .returned => true
  | _ => false

/-- The ways that neither a `select!` of the loop nor `lease_next` decides on. -/
def RunPhase.leads : RunPhase → RunPhase → Bool
  | .registering, .head => true
  | .registering, .returned => true
  | .sleeping, .reaping => true
  | .reaping, .head => true
  | .draining, .deregistering => true
  | .deregistering, .returned => true
  | _, _ => false

theorem RunPhase.leads_cases {p q : RunPhase} (leads : p.leads q = true) :
    p ≠ .leasing ∧ q ≠ .leasing ∧ p ≠ .head ∧ (p.left = true → q.left = true) := by
  cases p <;> cases q <;> simp_all [RunPhase.leads, RunPhase.left]

/-- Where `execute_job` is. -/
inductive TaskStage where
  | renewing
  | handling
  | reporting (outcome : ExecutionOutcome)
  /-- The permit is dropped and the task yet to complete. -/
  | released
  | completed

def TaskStage.executing : TaskStage → Bool
  | .renewing => true
  | .handling => true
  | .reporting _ => true
  | .released => false
  | .completed => false

/-- A spawned task with what its future owns; `joined` ones have left the `JoinSet`. -/
structure Task where
  job : Job
  stage : TaskStage
  permit : Bool
  joined : Bool

inductive TaskEvent where
  /-- `renew_lease` returns. -/
  | renewed (ok : Bool)
  /-- The handler returns, or runs out of time. -/
  | handled (outcome : ExecutionOutcome)
  /-- `report_outcome` returns. -/
  | reported
  | panicked
  | aborted
  | completed

namespace Task

def spawn (job : Job) : Task := ⟨job, .renewing, true, false⟩

def executing (t : Task) : Bool := t.stage.executing

/-- The permit is dropped: at the end of the body, or with the future that owns it. -/
def release (t : Task) : Task := { t with stage := .released, permit := false }

/-- What an event does to a task, where it can happen. -/
def next (registry : String → Bool) (aborting : Bool) (t : Task) (e : TaskEvent) : Option Task :=
  match t.stage, e with
  | .renewing, .renewed true =>
    some { t with stage := if registry t.job.jobType then .handling else .reporting (noHandler t.job) }
  | .renewing, .renewed false => some t.release
  | .handling, .handled outcome => some { t with stage := .reporting outcome }
  | .reporting _, .reported => some t.release
  | .released, .completed => some { t with stage := .completed }
  | stage, .panicked => if stage.executing then some t.release else none
  | stage, .aborted => if stage.executing && aborting then some t.release else none
  | _, _ => none

/-- A task goes on executing, gives its permit back, or completes. -/
theorem next_cases {registry : String → Bool} {aborting : Bool} {t t' : Task} {e : TaskEvent}
    (did : t.next registry aborting e = some t') :
    (t.executing = true ∧ ∃ stage, stage.executing = true ∧ t' = { t with stage := stage }) ∨
      (t.executing = true ∧ t' = t.release) ∨ (t.stage = .released ∧ t' = { t with stage := .completed }) := by
  unfold next at did
  split at did
  · rename_i here
    cases did
    refine .inl ⟨by rw [executing, here]; rfl, _, ?_, rfl⟩
    split <;> rfl
  · rename_i here
    cases did
    exact .inr (.inl ⟨by rw [executing, here]; rfl, rfl⟩)
  · rename_i here
    cases did
    exact .inl ⟨by rw [executing, here]; rfl, _, rfl, rfl⟩
  · rename_i here
    cases did
    exact .inr (.inl ⟨by rw [executing, here]; rfl, rfl⟩)
  · rename_i here
    cases did
    exact .inr (.inr ⟨here, rfl⟩)
  · obtain ⟨executes, eq⟩ := Option.ite_none_right_eq_some.1 did
    cases eq
    exact .inr (.inl ⟨executes, rfl⟩)
  · obtain ⟨executes, eq⟩ := Option.ite_none_right_eq_some.1 did
    cases eq
    exact .inr (.inl ⟨(Bool.and_eq_true_iff.1 executes).1, rfl⟩)
  · cases did

/-- A task owns its permit as long as it executes, and takes none over. -/
theorem next_owned {registry : String → Bool} {aborting : Bool} {t t' : Task} {e : TaskEvent}
    (did : t.next registry aborting e = some t') (owned : t.permit = t.executing) :
    t'.job = t.job ∧ t'.permit = t'.executing ∧ (t'.permit = true → t.permit = true) := by
  obtain ⟨executes, stage, executing, rfl⟩ | ⟨-, rfl⟩ | ⟨released, rfl⟩ := next_cases did
  · exact ⟨rfl, owned.trans (executes.trans executing.symm), id⟩
  · exact ⟨rfl, rfl, fun held => absurd held Bool.false_ne_true⟩
  · have free : t.executing = false := by rw [Task.executing, released]; rfl
    exact ⟨rfl, owned.trans free, id⟩

end Task

structure Runtime where
  phase : RunPhase
  cancelled : Bool
  /-- The permits the semaphore has. -/
  permits : Nat
  /-- The loop owns a permit. -/
  permit : Bool
  /-- In the order they were spawned in. -/
  tasks : List Task
  /-- The tasks have been told to abort. -/
  aborting : Bool

namespace Runtime

def init (concurrency : Nat) : Runtime := ⟨.registering, false, concurrency, false, [], false⟩

inductive Label where
  /-- `register_worker` returns. -/
  | registered (ok : Bool)
  /-- The shutdown token is cancelled. -/
  | cancel
  /-- A `select!` takes the branch of the token. -/
  | stop
  /-- The `select!` at the head takes the branch of the semaphore: `lease_next` is called. -/
  | acquire
  /-- `lease_next` returns. -/
  | leased (result : Except QueueError (Option Job))
  /-- `lease_next` panics. -/
  | unwound
  | slept
  /-- The `JoinSet` yields a task. -/
  | join (k : Nat)
  /-- `try_join_next` returns nothing. -/
  | reaped
  /-- `join_next` returns nothing. -/
  | drained
  | graceElapsed
  /-- `deregister_worker` returns. -/
  | deregistered
  | task (k : Nat) (e : TaskEvent)

/-- The job a label brings to the worker. -/
def Label.job : Label → Option Job
  | .leased (.ok job) => job
  | _ => none

def Label.isAcquire : Label → Bool
  | .acquire => true
  | _ => false

def Label.isStop : Label → Bool
  | .stop => true
  | _ => false

variable (registry : String → Bool) (s : Runtime)

/-- The loop drops its permit. -/
def dropPermit : Runtime := { s with permit := false, permits := s.permits + s.permit.toNat }

/-- No task of the `JoinSet` has completed. -/
def noneCompleted : Bool :=
  s.tasks.all fun t => t.joined || match t.stage with
    | .completed => false
    | _ => true

/-- The `JoinSet` yields a task that has completed. -/
def join (k : Nat) : Option Runtime :=
  match s.tasks[k]? with
  | some ⟨job, .completed, permit, false⟩ => some { s with tasks := s.tasks.set k ⟨job, .completed, permit, true⟩ }
  | _ => none

/-- What a label does, where it can happen. -/
def next (l : Label) : Option Runtime :=
  match s.phase, l with
  | _, .cancel => some { s with cancelled := true }
  | _, .task k e =>
    match s.tasks[k]? with
    | none => none
    | some t =>
      (t.next registry s.aborting e).map fun t' =>
        { s with tasks := s.tasks.set k t', permits := s.permits + (t.permit && !t'.permit).toNat }
  | .registering, .registered ok => some { s with phase := if ok then .head else .returned }
  | .head, .stop => if s.cancelled then some { s with phase := .draining } else none
  | .head, .acquire =>
    if 0 < s.permits then some { s with phase := .leasing, permits := s.permits - 1, permit := true } else none
  | .leasing, .leased (.ok (some job)) =>
    -- the closure of the task takes the permit over
    some { s with phase := .reaping, permit := false, tasks := s.tasks ++ [.spawn job] }
  | .leasing, .leased (.ok none) => some { s.dropPermit with phase := .sleeping }
  | .leasing, .leased (.error _) => some { s.dropPermit with phase := .sleeping }
  | .leasing, .unwound => some { s.dropPermit with phase := .returned, aborting := true }
  | .sleeping, .stop => if s.cancelled then some { s with phase := .draining } else none
  | .sleeping, .slept => some { s with phase := .reaping }
  | .reaping, .join k => s.join k
  | .reaping, .reaped => if s.noneCompleted then some { s with phase := .head } else none
  | .draining, .join k => s.join k
  | .draining, .drained => if s.tasks.all Task.joined then some { s with phase := .deregistering } else none
  | .draining, .graceElapsed => some { s with phase := .deregistering, aborting := true }
  | .deregistering, .deregistered => some { s with phase := .returned }
  | _, _ => none

def Step (s : Runtime) (l : Label) (s' : Runtime) : Prop := s.next registry l = some s'

/-! ## What a step can be -/

/-- What a step does. -/
inductive Change (s : Runtime) : Label → Runtime → Prop where
  | cancel : Change s .cancel { s with cancelled := true }
  | stop (outside : s.phase = .head ∨ s.phase = .sleeping) : Change s .stop { s with phase := .draining }
  | acquire (head : s.phase = .head) (free : 0 < s.permits) :
      Change s .acquire { s with phase := .leasing, permits := s.permits - 1, permit := true }
  | spawn {job} (leasing : s.phase = .leasing) :
      Change s (.leased (.ok (some job)))
        { s with phase := .reaping, permit := false, tasks := s.tasks ++ [.spawn job] }
  | drop {l phase aborting} (quiet : l.job = none) (leasing : s.phase = .leasing)
      (other : phase = .sleeping ∨ phase = .returned) :
      Change s l { s.dropPermit with phase := phase, aborting := aborting }
  | task {k e t t'} (there : s.tasks[k]? = some t) (did : t.next registry s.aborting e = some t') :
      Change s (.task k e)
        { s with tasks := s.tasks.set k t', permits := s.permits + (t.permit && !t'.permit).toNat }
  | join {k t} (outside : s.phase = .reaping ∨ s.phase = .draining) (there : s.tasks[k]? = some t) :
      Change s (.join k) { s with tasks := s.tasks.set k { t with joined := true } }
  | goOn {l phase aborting} (quiet : l.job = none) (leads : s.phase.leads phase = true) :
      Change s l { s with phase := phase, aborting := aborting }

variable {registry s} {s' : Runtime} {l : Label}

theorem join_change {k : Nat} (outside : s.phase = .reaping ∨ s.phase = .draining) (joined : s.join k = some s') :
    Change registry s (.join k) s' := by
  unfold join at joined
  split at joined
  · rename_i there
    cases joined
    exact .join outside there
  · cases joined

theorem Step.change (step : Step registry s l s') : Change registry s l s' := by
  unfold Step next at step
  split at step
  · cases step
    exact .cancel
  · split at step
    · cases step
    · rename_i t there
      obtain ⟨t', did, rfl⟩ := Option.map_eq_some_iff.1 step
      exact .task there did
  · rename_i ok registering
    cases step
    exact .goOn rfl (by rw [registering]; cases ok <;> rfl)
  · rename_i head
    obtain ⟨-, eq⟩ := Option.ite_none_right_eq_some.1 step
    cases eq
    exact .stop (.inl head)
  · rename_i head
    obtain ⟨free, eq⟩ := Option.ite_none_right_eq_some.1 step
    cases eq
    exact .acquire head free
  · rename_i leasing
    cases step
    exact .spawn leasing
  · rename_i leasing
    cases step
    exact .drop rfl leasing (.inl rfl)
  · rename_i leasing
    cases step
    exact .drop rfl leasing (.inl rfl)
  · rename_i leasing
    cases step
    exact .drop rfl leasing (.inr rfl)
  · rename_i sleeping
    obtain ⟨-, eq⟩ := Option.ite_none_right_eq_some.1 step
    cases eq
    exact .stop (.inr sleeping)
  · rename_i sleeping
    cases step
    exact .goOn rfl (by rw [sleeping]; rfl)
  · rename_i reaping
    exact join_change (.inl reaping) step
  · rename_i reaping
    obtain ⟨-, eq⟩ := Option.ite_none_right_eq_some.1 step
    cases eq
    exact .goOn rfl (by rw [reaping]; rfl)
  · rename_i draining
    exact join_change (.inr draining) step
  · rename_i draining
    obtain ⟨-, eq⟩ := Option.ite_none_right_eq_some.1 step
    cases eq
    exact .goOn rfl (by rw [draining]; rfl)
  · rename_i draining
    cases step
    exact .goOn rfl (by rw [draining]; rfl)
  · rename_i deregistering
    cases step
    exact .goOn rfl (by rw [deregistering]; rfl)
  · cases step

/-! ## Permits -/

theorem countP_set_add (p : Task → Bool) {tasks : List Task} {k : Nat} {t : Task} (t' : Task)
    (there : tasks[k]? = some t) :
    (tasks.set k t').countP p + (p t).toNat = tasks.countP p + (p t').toNat := by
  obtain ⟨inside, at_k⟩ := List.getElem?_eq_some_iff.1 there
  have counted : p t = true → 1 ≤ tasks.countP p := by
    intro holds
    exact List.countP_pos_iff.2 ⟨t, List.mem_of_getElem? there, holds⟩
  rw [List.countP_set inside, at_k]
  cases before : p t with
  | false => cases p t' <;> simp
  | true =>
    have := counted before
    cases p t' <;> simp <;> omega

theorem map_set_same {f : Task → Job} {tasks : List Task} {k : Nat} {t t' : Task} (there : tasks[k]? = some t)
    (same : f t' = f t) : (tasks.set k t').map f = tasks.map f := by
  obtain ⟨inside, rfl⟩ := List.getElem?_eq_some_iff.1 there
  rw [List.map_set, same, ← List.map_set, List.set_getElem_self]

/-- Every permit has its owner, and every job that was leased its task. -/
structure Accounted (c : Nat) (ls : List Label) (s : Runtime) : Prop where
  held : s.permit = true ↔ s.phase = .leasing
  owned : ∀ t ∈ s.tasks, t.permit = t.executing
  total : s.permits + s.permit.toNat + s.tasks.countP Task.permit = c
  spawned : s.tasks.map Task.job = ls.filterMap Label.job

theorem Accounted.init (c : Nat) : Accounted c [] (init c) where
  held := by simp [Runtime.init]
  owned := by simp [Runtime.init]
  total := by simp [Runtime.init]
  spawned := rfl

/-- A task is replaced by one that has gone on, and gives back what it no longer owns. -/
theorem Accounted.replace {c k : Nat} {ls : List Label} {t : Task} (accounted : Accounted c ls s)
    (there : s.tasks[k]? = some t) (t' : Task) (job : t'.job = t.job) (owned : t'.permit = t'.executing)
    (fewer : t'.permit = true → t.permit = true) :
    Accounted c ls { s with tasks := s.tasks.set k t', permits := s.permits + (t.permit && !t'.permit).toNat } where
  held := accounted.held
  owned := by
    intro x mem
    rcases List.mem_or_eq_of_mem_set mem with old | rfl
    · exact accounted.owned x old
    · exact owned
  total := by
    have total := accounted.total
    have count := countP_set_add Task.permit t' there
    have given : (t.permit && !t'.permit).toNat + t'.permit.toNat = t.permit.toNat := by
      cases before : t.permit <;> cases after : t'.permit <;> simp [before, after] at fewer ⊢
    simp only
    omega
  spawned := (map_set_same there job).trans accounted.spawned

/-- A label that brings no job. -/
theorem Accounted.quietly {c : Nat} {ls : List Label} (accounted : Accounted c ls s) (quiet : l.job = none) :
    Accounted c (ls ++ [l]) s where
  held := accounted.held
  owned := accounted.owned
  total := accounted.total
  spawned := by
    rw [List.filterMap_append, List.filterMap_cons_none quiet, List.filterMap_nil, List.append_nil,
      accounted.spawned]

theorem Accounted.step {c : Nat} {ls : List Label} (accounted : Accounted c ls s) (step : Step registry s l s') :
    Accounted c (ls ++ [l]) s' := by
  have ⟨held, owned, total, spawned⟩ := accounted
  cases step.change with
  | cancel => exact ⟨held, owned, total, (accounted.quietly rfl).spawned⟩
  | stop outside =>
    have elsewhere : s.phase ≠ .leasing := by rcases outside with here | here <;> simp [here]
    exact ⟨held.trans (iff_of_false elsewhere nofun), owned, total, (accounted.quietly rfl).spawned⟩
  | goOn quiet leads =>
    obtain ⟨before, after, -⟩ := RunPhase.leads_cases leads
    exact ⟨held.trans (iff_of_false before after), owned, total, (accounted.quietly quiet).spawned⟩
  | acquire head free =>
    have none : s.permit = false := by
      rw [← Bool.not_eq_true, held, head]
      simp
    refine ⟨by simp, owned, ?_, (accounted.quietly rfl).spawned⟩
    rw [none, Bool.toNat_false] at total
    simp only [Bool.toNat_true]
    omega
  | @spawn job leasing =>
    refine ⟨by simp, ?_, ?_, ?_⟩
    · intro t mem
      rcases List.mem_append.1 mem with old | new
      · exact owned t old
      · obtain rfl := List.mem_singleton.1 new
        rfl
    · rw [held.2 leasing, Bool.toNat_true] at total
      rw [List.countP_append, List.countP_singleton, Bool.toNat_false]
      simp only [Task.spawn, if_true]
      omega
    · rw [List.map_append, List.filterMap_append, spawned]
      rfl
  | @drop _ phase _ quiet leasing other =>
    have elsewhere : phase ≠ .leasing := by rcases other with rfl | rfl <;> simp
    refine ⟨iff_of_false Bool.false_ne_true elsewhere, owned, ?_, (accounted.quietly quiet).spawned⟩
    simp only [dropPermit, Bool.toNat_false]
    omega
  | @task k e t t' there did =>
    obtain ⟨job, still, fewer⟩ := Task.next_owned did (owned t (List.mem_of_getElem? there))
    exact (accounted.replace there t' job still fewer).quietly rfl
  | @join k t _ there =>
    have still := owned t (List.mem_of_getElem? there)
    have joined := (accounted.replace there { t with joined := true } rfl still id).quietly (l := .join k) rfl
    simpa using joined

theorem accounted_of_run {c : Nat} {ls : List Label} (run : Run (Step registry) (init c) ls s) : Accounted c ls s := by
  induction run with
  | nil => exact .init c
  | snoc _ last ih => exact ih.step last

/-- Every executing task owns a permit. -/
theorem Accounted.executing_le {c : Nat} {ls : List Label} (accounted : Accounted c ls s) :
    s.tasks.countP Task.executing ≤ c := by
  have executing : s.tasks.countP Task.executing = s.tasks.countP Task.permit := by
    apply List.countP_congr
    intro t mem
    rw [accounted.owned t mem]
  have total := accounted.total
  omega

/-- **Permits are conserved.** In every state the free permits, the one the loop
owns and those of the tasks add up to the concurrency. The loop owns one exactly
while it leases, a task exactly while it executes, and each job that was leased
was given to one task. -/
theorem permits_conserved (registry : String → Bool) (c : Nat) {ls : List Label} {s : Runtime}
    (run : Run (Step registry) (init c) ls s) :
    s.permits + s.permit.toNat + s.tasks.countP Task.permit = c ∧
    (s.permit = true ↔ s.phase = .leasing) ∧ (∀ t ∈ s.tasks, t.permit = t.executing) ∧
    s.tasks.countP Task.executing ≤ c ∧ s.tasks.map Task.job = ls.filterMap Label.job := by
  have accounted := accounted_of_run run
  exact ⟨accounted.total, accounted.held, accounted.owned, accounted.executing_le, accounted.spawned⟩

/-- Play a script of labels. -/
def act (registry : String → Bool) (s : Runtime) (l : Label) : Option (Label × Runtime) :=
  (s.next registry l).map fun s' => (l, s')

theorem act_step (registry : String → Bool) (s : Runtime) (a l : Label) (s' : Runtime)
    (done : act registry s a = some (l, s')) : Step registry s l s' := by
  obtain ⟨s', next, eq⟩ := Option.map_eq_some_iff.1 done
  cases eq
  exact next

/-- Two slots: no job, an error and two jobs, of which one panics and one is aborted. -/
def twoSlots : List Label :=
  [.registered true, .acquire, .leased (.ok none), .slept, .reaped, .acquire,
    .leased (.error (.storage "pool timed out")), .slept, .reaped, .acquire, .leased (.ok (some (Job.sample 3 none))),
    .reaped, .acquire, .task 0 (.renewed true), .task 0 .panicked, .leased (.ok (some (Job.sample 3 none))),
    .task 0 .completed, .join 0, .cancel, .reaped, .stop, .task 1 (.renewed true), .graceElapsed, .task 1 .aborted,
    .deregistered]

theorem permits_conserved_twoSlots :
    let s := outcome (act fun _ => true) (init 2) twoSlots
    s.permits + s.permit.toNat + s.tasks.countP Task.permit = 2 ∧
    s.tasks.map Task.job = (script (act fun _ => true) (init 2) twoSlots).filterMap Label.job := by
  have run := @outcome_run _ _ _ (act fun _ => true) _ (act_step fun _ => true) (init 2) twoSlots (by decide)
  have conserved := permits_conserved (fun _ => true) 2 run
  exact ⟨conserved.1, conserved.2.2.2.2⟩

/-! ## Shutdown -/

/-- No `lease_next` before the drain. -/
def LeasesNoMore (ls : List Label) : Prop := ∀ l ∈ ls.takeWhile fun l => !l.isStop, l.isAcquire = false

instance (ls : List Label) : Decidable (LeasesNoMore ls) := inferInstanceAs (Decidable (∀ l ∈ _, _))

/-- When the `select!` at the head is resolved with the token cancelled, no permit is free. -/
def NoneFree (s : Runtime) (l : Label) : Prop :=
  s.phase = .head → s.cancelled = true → (l.isAcquire || l.isStop) = true → s.permits = 0

theorem leasesNoMore_snoc {ls : List Label} :
    LeasesNoMore (ls ++ [l]) ↔ LeasesNoMore ls ∧ ((∃ k ∈ ls, k.isStop = true) ∨ l.isAcquire = false) := by
  unfold LeasesNoMore
  rw [List.takeWhile_append]
  by_cases stopped : ∃ k ∈ ls, k.isStop = true
  · have shorter : ¬ (ls.takeWhile fun l => !l.isStop).length = ls.length := by
      intro same
      obtain ⟨k, mem, stops⟩ := stopped
      have all := List.takeWhile_eq_self_iff.1 ((List.takeWhile_prefix _).eq_of_length same) k mem
      rw [stops] at all
      exact Bool.false_ne_true all
    rw [if_neg shorter]
    simp [stopped]
  · have whole : (ls.takeWhile fun l => !l.isStop) = ls := by
      rw [List.takeWhile_eq_self_iff]
      intro k mem
      simpa using fun stops => stopped ⟨k, mem, stops⟩
    rw [whole, if_pos rfl]
    simp only [stopped, false_or, List.forall_mem_append]
    cases l <;> simp [Label.isStop, Label.isAcquire]

/-- At the head, a slot is acquired, the loop is left, or a task or the token moves. -/
theorem Step.at_head (step : Step registry s l s') (head : s.phase = .head) (cancelled : s.cancelled = true) :
    (l.isAcquire = true ∧ 0 < s.permits) ∨
      (l.isAcquire = false ∧ s'.cancelled = true ∧ s'.phase = if l.isStop then .draining else .head) := by
  cases step.change with
  | cancel => exact .inr ⟨rfl, rfl, head⟩
  | stop => exact .inr ⟨rfl, cancelled, rfl⟩
  | acquire _ free => exact .inl ⟨rfl, free⟩
  | spawn leasing => cases head.symm.trans leasing
  | drop _ leasing => cases head.symm.trans leasing
  | task => exact .inr ⟨rfl, cancelled, head⟩
  | join => exact .inr ⟨rfl, cancelled, head⟩
  | goOn _ leads => exact absurd head (RunPhase.leads_cases leads).2.2.1

theorem Step.stays_left (step : Step registry s l s') (left : s.phase.left = true) : s'.phase.left = true := by
  cases step.change with
  | cancel => exact left
  | stop => rfl
  | acquire head => exact absurd left (by simp [head, RunPhase.left])
  | spawn leasing => exact absurd left (by simp [leasing, RunPhase.left])
  | drop _ leasing => exact absurd left (by simp [leasing, RunPhase.left])
  | task => exact left
  | join => exact left
  | goOn _ leads => exact (RunPhase.leads_cases leads).2.2.2 left

/-- What a run without a lease leads to, from a head with the token cancelled. -/
def WoundDown (ls : List Label) (s : Runtime) : Prop :=
  (s.phase = .head ∧ s.cancelled = true ∧ ∀ l ∈ ls, l.isStop = false) ∨
    (s.phase.left = true ∧ ∃ l ∈ ls, l.isStop = true)

theorem WoundDown.step {ls : List Label} (down : WoundDown ls s) (step : Step registry s l s')
    (none : LeasesNoMore (ls ++ [l])) : WoundDown (ls ++ [l]) s' := by
  rcases down with ⟨head, cancelled, running⟩ | ⟨left, k, mem, stops⟩
  · obtain ⟨acquires, -⟩ | ⟨-, cancelled', phase⟩ := step.at_head head cancelled
    · rcases (leasesNoMore_snoc.1 none).2 with ⟨k, mem, stops⟩ | other
      · cases (running k mem).symm.trans stops
      · cases other.symm.trans acquires
    · cases stops : l.isStop with
      | false =>
        rw [stops, if_neg Bool.false_ne_true] at phase
        refine .inl ⟨phase, cancelled', ?_⟩
        intro k mem
        rcases List.mem_append.1 mem with earlier | last
        · exact running k earlier
        · obtain rfl := List.mem_singleton.1 last
          exact stops
      | true =>
        rw [stops, if_pos rfl] at phase
        exact .inr ⟨by rw [phase]; rfl, l, List.mem_append_right _ (List.mem_singleton_self l), stops⟩
  · exact .inr ⟨step.stays_left left, k, List.mem_append_left _ mem, stops⟩

theorem LeasesNoMore.earlier {ls : List Label} (none : LeasesNoMore (ls ++ [l])) : LeasesNoMore ls :=
  (leasesNoMore_snoc.1 none).1

theorem woundDown_of_run {ls : List Label} {t : Runtime} (head : s.phase = .head) (cancelled : s.cancelled = true)
    (run : Run (Step registry) s ls t) (none : LeasesNoMore ls) : WoundDown ls t := by
  induction run with
  | nil => exact .inl ⟨head, cancelled, fun _ mem => absurd mem List.not_mem_nil⟩
  | snoc _ last ih => exact (ih none.earlier).step last none

theorem WoundDown.leases_iff {ls : List Label} (down : WoundDown ls s) (none : LeasesNoMore ls) :
    ¬ LeasesNoMore (ls ++ [l]) ↔ s.phase = .head ∧ l.isAcquire = true := by
  rw [leasesNoMore_snoc, not_and, not_or]
  constructor
  · intro fails
    obtain ⟨running, acquires⟩ := fails none
    rcases down with ⟨head, -⟩ | ⟨-, stopped⟩
    · exact ⟨head, by simpa using acquires⟩
    · exact absurd stopped running
  · rintro ⟨head, acquires⟩ -
    rcases down with ⟨-, -, running⟩ | ⟨left, -⟩
    · refine ⟨?_, by simp [acquires]⟩
      rintro ⟨k, mem, stops⟩
      cases (running k mem).symm.trans stops
    · exact absurd left (by simp [head, RunPhase.left])

theorem WoundDown.cancelled {ls : List Label} (down : WoundDown ls s) (head : s.phase = .head) :
    s.cancelled = true := by
  rcases down with ⟨-, cancelled, -⟩ | ⟨left, -⟩
  · exact cancelled
  · exact absurd left (by simp [head, RunPhase.left])

variable (registry) in
theorem step_acquire (head : s.phase = .head) (free : 0 < s.permits) :
    Step registry s .acquire { s with phase := .leasing, permits := s.permits - 1, permit := true } := by
  simp [Step, next, head, free]

variable (registry) in
/-- With a slot, some task gives its permit back if none is free. -/
theorem exists_free {c : Nat} {ls : List Label} (accounted : Accounted c ls s) (head : s.phase = .head)
    (slot : c ≠ 0) : ∃ ls t, Run (Step registry) s ls t ∧ LeasesNoMore ls ∧ t.phase = .head ∧ 0 < t.permits := by
  by_cases free : 0 < s.permits
  · exact ⟨[], s, .nil, by decide, head, free⟩
  · have none : s.permit = false := by
      rw [← Bool.not_eq_true, accounted.held, head]
      simp
    have total := accounted.total
    rw [none, Bool.toNat_false] at total
    have some : 0 < s.tasks.countP Task.permit := by omega
    obtain ⟨t, mem, permit⟩ := List.countP_pos_iff.1 some
    obtain ⟨k, there⟩ := List.getElem?_of_mem mem
    have executing : t.stage.executing = true := (accounted.owned t mem).symm.trans permit
    have panics : t.next registry s.aborting .panicked = Option.some t.release := by
      unfold Task.next
      cases stage : t.stage <;> rw [stage] at executing <;> first | rfl | cases executing
    have step : Step registry s (.task k .panicked)
        { s with tasks := s.tasks.set k t.release, permits := s.permits + 1 } := by
      simp [Step, next, there, panics, permit, Task.release]
    exact ⟨[.task k .panicked], _, .one step, by simp [LeasesNoMore, Label.isStop, Label.isAcquire], head,
      Nat.succ_pos _⟩

/-- One slot is busy and the other free when the token is cancelled. -/
def cancelledAtWork : List Label :=
  [.registered true, .acquire, .leased (.ok (some (Job.sample 3 none))), .cancel, .reaped]

/-- **Shutdown stops leasing where no permit is free.** From a head that finds the
token cancelled no job is leased before the drain, as long as the `select!` is
resolved with every permit taken. Where one is free, both branches are ready; and
with a slot at all some run comes to that. -/
theorem shutdown_stops_leasing_iff (registry : String → Bool) {c : Nat} {before : List Label} {s : Runtime}
    (run : Run (Step registry) (init c) before s) (head : s.phase = .head) (cancelled : s.cancelled = true) :
    (∀ ls t, Run (Restrict NoneFree (Step registry)) s ls t → LeasesNoMore ls) ∧
    (∀ ls t, Run (Step registry) s ls t → LeasesNoMore ls → t.phase = .head →
      ((∀ l u, Step registry t l u → LeasesNoMore (ls ++ [l])) ↔ t.permits = 0)) ∧
    ((∀ ls t, Run (Step registry) s ls t → LeasesNoMore ls) ↔ c = 0) := by
  have taken : ∀ ls t, Run (Restrict NoneFree (Step registry)) s ls t → LeasesNoMore ls := by
    intro ls t rest
    induction rest with
    | nil => decide
    | @snoc ls t l u rest last ih =>
      have down := woundDown_of_run head cancelled rest.unrestrict ih
      by_contra leases
      obtain ⟨atHead, acquires⟩ := (down.leases_iff ih).1 leases
      have full : t.permits = 0 := last.1 atHead (down.cancelled atHead) (by rw [acquires, Bool.true_or])
      obtain ⟨-, free⟩ | ⟨other, -⟩ := last.2.at_head atHead (down.cancelled atHead)
      · omega
      · cases other.symm.trans acquires
  have raced : ∀ ls t, Run (Step registry) s ls t → LeasesNoMore ls → t.phase = .head →
      ((∀ l u, Step registry t l u → LeasesNoMore (ls ++ [l])) ↔ t.permits = 0) := by
    intro ls t rest none atHead
    have down := woundDown_of_run head cancelled rest none
    constructor
    · intro all
      by_contra free
      have step := step_acquire registry atHead (Nat.pos_of_ne_zero free)
      exact (down.leases_iff none).2 ⟨atHead, rfl⟩ (all .acquire _ step)
    · intro full l u step
      by_contra leases
      obtain ⟨-, acquires⟩ := (down.leases_iff none).1 leases
      obtain ⟨-, free⟩ | ⟨other, -⟩ := step.at_head atHead (down.cancelled atHead)
      · omega
      · cases other.symm.trans acquires
  refine ⟨taken, raced, ?_, ?_⟩
  · intro never
    by_contra slot
    obtain ⟨ls, t, rest, none, atHead, free⟩ := exists_free registry (accounted_of_run run) head slot
    have all := fun l u step => never (ls ++ [l]) u (rest.snoc step)
    exact free.ne' ((raced ls t rest none atHead).1 all)
  · rintro rfl ls t rest
    refine taken ls t (rest.restrict ?_)
    intro ls t l rest _ _ _
    have total := (accounted_of_run (run.append rest)).total
    omega

theorem shutdown_stops_leasing_one :
    let s := outcome (act fun _ => true) (init 1) cancelledAtWork
    ∀ ls t, Run (Restrict NoneFree (Step fun _ => true)) s ls t → LeasesNoMore ls := by
  have run := @outcome_run _ _ _ (act fun _ => true) _ (act_step fun _ => true) (init 1) cancelledAtWork (by decide)
  exact (shutdown_stops_leasing_iff (fun _ => true) run (by decide) (by decide)).1

/-- The loop returns to its head with the token cancelled and leases another job. -/
theorem leases_after_shutdown :
    let s := outcome (act fun _ => true) (init 2) cancelledAtWork
    s.phase = .head ∧ s.cancelled = true ∧ Run (Step fun _ => true) (init 2) cancelledAtWork s ∧
      ∃ ls t, Run (Step fun _ => true) s ls t ∧ ¬ LeasesNoMore ls := by
  have run := @outcome_run _ _ _ (act fun _ => true) _ (act_step fun _ => true) (init 2) cancelledAtWork (by decide)
  refine ⟨by decide, by decide, run, [.acquire], _, .one (step_acquire _ (by decide) (by decide)), by decide⟩

end Runtime

end Djq
