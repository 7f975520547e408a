import Djq.Lifecycle.History
import Djq.System.Atomic
import Djq.Transition.Simulation

/-!
# From interleavings to one operation at a time

Where no sweep comes in, a run of interleaved calls comes to the same jobs, attempts,
workers and queues as the run that serves whole operations one after the other: each
of them between the first and the last unit of its call, with the answer its client
has got. The dead letters alone, which `retry_job` deletes in a statement of its own,
can tell the two apart.
-/

namespace Djq

open Relational Transition

/-! ## What the dead letters decide -/

section Live

variable {env : Env} {db : Db}

/-- No unit reads the dead letters but to write them. -/
theorem Call.step_withLetters (ds : List DeadLetterJob) (c : Call) :
    ∃ ds', c.step env { db with deadLetters := ds } = ({ (c.step env db).1 with deadLetters := ds' }, (c.step env db).2) := by
  have unread : ∀ {p : Db × Progress} {q : Db × Progress}, q = ({ p.1 with deadLetters := ds }, p.2) →
      ∃ ds', q = ({ p.1 with deadLetters := ds' }, p.2) := fun same => ⟨ds, same⟩
  cases c with
  | start request =>
    cases request with
    | cancelJob id =>
      have same : { db with deadLetters := ds }.cancelJob env id =
          ({ (db.cancelJob env id).1 with deadLetters := ds }, (db.cancelJob env id).2) := rfl
      apply unread
      simp only [step, same]
      rcases db.cancelJob env id with ⟨db₁, job⟩
      cases job <;> rfl
    | retryJob id =>
      have same : { db with deadLetters := ds }.requeueJob env id =
          ({ (db.requeueJob env id).1 with deadLetters := ds }, (db.requeueJob env id).2) := rfl
      apply unread
      simp only [step, same]
      rcases db.requeueJob env id with ⟨db₁, job⟩
      cases job <;> rfl
    | leaseNext worker names secs =>
      have same : { db with deadLetters := ds }.leaseNext env worker names secs =
          ({ (db.leaseNext env worker names secs).1 with deadLetters := ds }, (db.leaseNext env worker names secs).2) := by
        have pick : { db with deadLetters := ds }.leasePick env names = db.leasePick env names := rfl
        unfold Db.leaseNext
        rw [pick]
        cases db.leasePick env names <;> rfl
      apply unread
      simp only [step, same]
    | completeJob id worker result =>
      have same : { db with deadLetters := ds }.completeJob env id worker result =
          ({ (db.completeJob env id worker result).1 with deadLetters := ds },
            (db.completeJob env id worker result).2) := by
        unfold Db.completeJob
        simp only
        split <;> rfl
      apply unread
      simp only [step, same]
      rcases db.completeJob env id worker result with ⟨db₁, job⟩
      cases job <;> rfl
    | failJob id worker error timedOut =>
      have same : ∃ ds', { db with deadLetters := ds }.failJob env id worker error timedOut =
          ({ (db.failJob env id worker error timedOut).1 with deadLetters := ds' },
            (db.failJob env id worker error timedOut).2) := by
        have fetch : { db with deadLetters := ds }.job? id = db.job? id := rfl
        unfold Db.failJob
        rw [fetch]
        cases db.job? id with
        | none => exact ⟨ds, rfl⟩
        | some current =>
          simp only
          split
          · exact ⟨ds, rfl⟩
          · exact ⟨_, rfl⟩
      obtain ⟨ds', same⟩ := same
      refine ⟨ds', ?_⟩
      simp only [step, same]
      rcases db.failJob env id worker error timedOut with ⟨db₁, _ | _⟩ <;> rfl
    | recoverExpiredLeases limit =>
      apply unread
      simp only [step]
      split <;> rfl
    | _ => exact ⟨ds, rfl⟩
  | submitReadQueue s =>
    have same : { db with deadLetters := ds }.queue? s.job.queue = db.queue? s.job.queue := rfl
    apply unread
    simp only [step, same]
    cases db.queue? s.job.queue <;> rfl
  | submitLookup s =>
    have same : { db with deadLetters := ds }.findByKey s.job.queue = db.findByKey s.job.queue := rfl
    apply unread
    simp only [step, same]
    cases s.job.idempotencyKey.bind (db.findByKey s.job.queue) <;> rfl
  | submitFallback s =>
    have same : { db with deadLetters := ds }.findByKey s.job.queue = db.findByKey s.job.queue := rfl
    apply unread
    simp only [step, same]
    cases s.job.idempotencyKey.bind (db.findByKey s.job.queue) <;> rfl
  | submitInsert s =>
    have same : { db with deadLetters := ds }.insertJob env s.job =
        ({ (db.insertJob env s.job).1 with deadLetters := ds }, (db.insertJob env s.job).2) := by
      have queue : { db with deadLetters := ds }.queue? (s.job.row env).queue = db.queue? (s.job.row env).queue := rfl
      unfold Db.insertJob
      simp only [queue]
      split_ifs <;> rfl
    apply unread
    simp only [step, same]
    rcases db.insertJob env s.job with ⟨db₁, reply⟩
    cases reply <;> rfl
  | removeDeadLetter job => exact ⟨_, rfl⟩
  | recoverDeadLetter limit before => exact ⟨_, rfl⟩
  | _ => exact ⟨ds, rfl⟩

theorem Call.step_live {a b : Db} (same : a.live = b.live) (c : Call) :
    (c.step env a).1.live = (c.step env b).1.live ∧ (c.step env a).2 = (c.step env b).2 := by
  have eq : b = { a with deadLetters := b.deadLetters } := by
    obtain ⟨queues, jobs, attempts, -, workers, attemptSeq⟩ := Db.mk.inj same
    obtain ⟨⟩ := b
    simp only at queues jobs attempts workers attemptSeq
    subst queues jobs attempts workers attemptSeq
    rfl
  obtain ⟨ds, unit⟩ := @step_withLetters env a b.deadLetters c
  rw [eq, unit]
  exact ⟨rfl, rfl⟩

theorem Call.alone_live {fuel : Nat} {a b a' : Db} {c : Call} {result : Except QueueError Value} (same : a.live = b.live)
    (ends : c.alone env fuel a = some (a', result)) :
    ∃ b', c.alone env fuel b = some (b', result) ∧ a'.live = b'.live := by
  induction fuel generalizing a b c with
  | zero => cases ends
  | succ fuel ih =>
    obtain ⟨after, reply⟩ := @step_live env a b same c
    rcases unit : c.step env a with ⟨a₁, next | last⟩
    · rcases unit' : c.step env b with ⟨b₁, next' | last'⟩
      · rw [unit, unit'] at after reply
        obtain rfl := Progress.next.inj reply
        rw [alone_next unit] at ends
        rw [alone_next unit']
        exact ih after ends
      · rw [unit, unit'] at reply
        cases reply
    · rcases unit' : c.step env b with ⟨b₁, next' | last'⟩
      · rw [unit, unit'] at reply
        cases reply
      · rw [unit, unit'] at after reply
        obtain rfl := Progress.done.inj reply
        rw [alone_done unit] at ends
        obtain ⟨rfl, rfl⟩ := Prod.mk.inj (Option.some.inj ends)
        exact ⟨b₁, alone_done unit', after⟩

/-- Nor does an operation read them. -/
theorem Request.serve_live {a b : Db} (same : a.live = b.live) (request : Request) :
    (request.serve env a).1.live = (request.serve env b).1.live ∧ (request.serve env a).2 = (request.serve env b).2 := by
  obtain ⟨b', alone, live⟩ := Call.alone_live same (request.alone_eq_serve env a)
  rw [request.alone_eq_serve env b] at alone
  obtain eq := Option.some.inj alone
  rw [eq]
  exact ⟨live, rfl⟩

end Live

/-! ## What a unit stands for -/

/-- The units of a sweep. -/
def Call.sweeps : Call → Bool
  | .start (.recoverExpiredLeases _) => true
  | .recoverDeadLetter _ _ => true
  | .recoverFailed _ _ => true
  | .closeExpired _ => true
  | _ => false

theorem Request.prompt_or {request : Request} (noSweep : (Call.start request).sweeps = false) :
    request.prompt = true ∨ (∃ name, request = .ensureQueue name) ∨ ∃ s, request = .submit s := by
  cases request with
  | ensureQueue name => exact .inr (.inl ⟨name, rfl⟩)
  | submit s => exact .inr (.inr ⟨s, rfl⟩)
  | recoverExpiredLeases => cases noSweep
  | _ => exact .inl rfl

/-- A unit of a submission that does not end it with success leaves the database, once the queue is there. -/
theorem Commit.after_of_unanswered {u : Commit} {s : Submittable} (busy : u.call.submission = some s)
    (started : ∀ request, u.call ≠ .start request) (unanswered : u.reply.succeeds = false) : u.after = u.db := by
  obtain ⟨c, env, db⟩ := u
  simp only [after]
  cases c with
  | start request => exact absurd rfl (started request)
  | submitReadQueue s' => rw [Call.submitReadQueue_fst]
  | submitLookup s' => rw [Call.submitLookup_fst]
  | submitFallback s' => rw [Call.submitFallback_fst]
  | submitInsert s' =>
    rw [Call.submitInsert_fst]
    obtain ⟨ends, -⟩ | ⟨ends, -⟩ | ⟨ends, -⟩ := db.insertJob_spec env s'.job
    · rw [ends]
    · rw [ends]
    · simp only [reply, Call.step, ends] at unanswered
      cases unanswered
  | _ => cases busy

/-- A unit stands for an operation that does what the unit does, or leaves all tables but the dead letters. -/
structure Commit.Stands (u : Commit) : Prop where
  silent : u.operation = none → u.after.live = u.db.live
  acts : ∀ request, u.operation = some request → (request.serve u.env u.db).1.live = u.after.live

theorem Commit.Stands.of_some {u : Commit} {request : Request} (this : u.operation = some request)
    (same : (request.serve u.env u.db).1.live = u.after.live) : u.Stands := by
  constructor
  · intro none
    cases this.symm.trans none
  · intro request' this'
    obtain rfl := Option.some.inj (this.symm.trans this')
    exact same

theorem Commit.Stands.of_none {u : Commit} (none : u.operation = none) (same : u.after.live = u.db.live) : u.Stands := by
  constructor
  · exact fun _ => same
  · intro request this
    cases none.symm.trans this

theorem Commit.Sound.stands_submission {u : Commit} (sound : u.Sound) {s : Submittable} (busy : u.call.submission = some s)
    (started : ∀ request, u.call ≠ .start request) : u.Stands := by
  have this := Commit.operation_of_submission busy started
  cases answered : u.reply.succeeds with
  | false =>
    rw [if_neg (by simp [answered])] at this
    exact .of_none this (congrArg Db.live (Commit.after_of_unanswered busy started answered))
  | true =>
    rw [if_pos answered] at this
    obtain ⟨value, ends⟩ := Progress.succeeds_iff.1 answered
    exact .of_some this (congrArg Db.live (sound.submitted busy ends).1)

/-- **One unit** of no sweep does what its operation would, if it stands for one. -/
theorem Commit.Sound.stands {u : Commit} (sound : u.Sound) (noSweep : u.call.sweeps = false) : u.Stands := by
  obtain ⟨c, env, db⟩ := u
  cases c with
  | start request =>
    obtain prompt | ⟨name, rfl⟩ | ⟨s, rfl⟩ := Request.prompt_or noSweep
    · exact .of_some (Commit.operation_of_prompt prompt rfl) (request.serve_of_prompt prompt env db).1
    · exact .of_some rfl rfl
    · exact .of_some rfl rfl
  | readQueue name =>
    have this : Commit.operation ⟨.readQueue name, env, db⟩ = some (.ensureQueue name) := rfl
    refine .of_some this ?_
    show (db.ensureQueue env name).live = db.live
    rw [Db.ensureQueue_present (sound.ensured name rfl)]
  | submitReadQueue s => exact sound.stands_submission rfl (by simp)
  | submitLookup s => exact sound.stands_submission rfl (by simp)
  | submitInsert s => exact sound.stands_submission rfl (by simp)
  | submitFallback s => exact sound.stands_submission rfl (by simp)
  | rejected op id => exact .of_none rfl rfl
  | removeDeadLetter job => exact .of_none rfl rfl
  | rereadFailed id => exact .of_none rfl rfl
  | _ => cases noSweep

/-! ## The run of whole operations -/

/-- What a step shows: the operation it stands for, with what it reads of the clock and the tables. -/
def Label.served : Label → Option Served
  | .commit _ u => u.operation.map fun request => ⟨request, u.env, u.db.live⟩
  | _ => none

def Serial.Label.served : Serial.Label → Option Served
  | .serve o => some ⟨o.request, o.env, o.db.live⟩
  | _ => none

/-- The same clock and the same tables but for the dead letters. -/
structure Sys.Follows (s : Sys) (serial : Serial) : Prop where
  clock : serial.clock = s.clock
  live : serial.db.live = s.db.live
  issued : ∀ id ∈ serial.issued, id ∈ s.issued

def Label.sweeps : Label → Bool
  | .commit _ u => u.call.sweeps
  | _ => false

theorem Step.follows {s s' : Sys} {l : Label} {serial : Serial} (follows : s.Follows serial) (step : Step s l s')
    (sound : ∀ i u, l = .commit i u → u.Sound) (noSweep : l.sweeps = false) :
    ∃ ks serial', Run Serial.Step serial ks serial' ∧ ks.filterMap Serial.Label.served = l.served.toList ∧
      s'.Follows serial' := by
  obtain ⟨clock, live, issued⟩ := follows
  cases step with
  | tick later => exact ⟨_, _, .one (.tick (clock ▸ later)), rfl, rfl, live, issued⟩
  | @reorder jobs same =>
    have same' : jobs.Perm serial.db.jobs := (Db.SameWork.of_live live).jobs ▸ same
    refine ⟨_, _, .one (.reorder same'), rfl, clock, ?_, issued⟩
    show { serial.db.live with jobs := jobs } = { s.db.live with jobs := jobs }
    rw [live]
  | begin => exact ⟨[], serial, .nil, rfl, clock, live, issued⟩
  | stop => exact ⟨[], serial, .nil, rfl, clock, live, issued⟩
  | @commit i u inFlight on now fresh =>
    have stands := (sound i u rfl).stands noSweep
    have drawn : ∀ id ∈ serial.issued, id ∈ u.env.uuid :: s.issued := fun id mem => List.mem_cons_of_mem _ (issued id mem)
    rw [← on] at live
    cases this : u.operation with
    | none =>
      refine ⟨[], serial, .nil, ?_, clock, live.trans (stands.silent this).symm, drawn⟩
      rw [Label.served, this]
      rfl
    | some request =>
      have serve := stands.acts request this
      obtain ⟨after, -⟩ := @Request.serve_live u.env serial.db u.db live request
      refine ⟨_, _, .one (.serve (o := ⟨request, u.env, serial.db⟩) rfl (now.trans clock.symm) ?_), ?_, clock, ?_, ?_⟩
      · exact fun mem => fresh (issued _ mem)
      · rw [Label.served, this, ← live]
        rfl
      · exact after.trans serve
      · intro id mem
        rcases List.mem_cons.1 mem with rfl | mem
        · exact List.mem_cons_self
        · exact drawn id mem

/-- The operations a call stands for, one after the other: it makes sure of a queue before it reads or fills it. -/
def Request.plan : Request → List Request
  | .ensureQueue name => [.ensureQueue name, .ensureQueue name]
  | .submit s => [.ensureQueue s.job.queue, .submit s]
  | request => [request]

theorem Request.plan_of_prompt {request : Request} (prompt : request.prompt = true) : request.plan = [request] := by
  cases request with
  | ensureQueue name => cases prompt
  | submit s => cases prompt
  | _ => rfl

theorem Call.Ran.silent_of_prompt {request : Request} (prompt : request.prompt = true) {vs : List Commit} {c : Call}
    {p : Progress} (follows : (Call.start request).Follows c) (ran : c.Ran vs p) : vs.filterMap Commit.operation = [] := by
  obtain ⟨-, last⟩ := Call.passive_of_prompt prompt follows
  obtain ⟨rfl, -⟩ | ⟨u, ws, rfl, rfl, ⟨-, rfl⟩ | ⟨c', next, -⟩⟩ := ran.forward
  · rfl
  · exact List.filterMap_cons_none (Call.live_of_prompt prompt follows u.env u.db).2
  · exact absurd (Call.follows next) (last c')

theorem Call.Ran.plan_prompt {request : Request} (prompt : request.prompt = true) {us : List Commit} {p : Progress}
    (ran : (Call.start request).Ran us p) : us.filterMap Commit.operation <+: request.plan := by
  obtain ⟨rfl, -⟩ | ⟨u, vs, rfl, first, rest⟩ := ran.forward
  · exact List.nil_prefix
  have silent : vs.filterMap Commit.operation = [] := by
    obtain ⟨-, rfl⟩ | ⟨c', next, ran⟩ := rest
    · rfl
    · exact ran.silent_of_prompt prompt (first ▸ Call.follows next)
  have whole : (u :: vs).filterMap Commit.operation = request.plan := by
    rw [List.filterMap_cons_some (Commit.operation_of_prompt prompt first), silent, Request.plan_of_prompt prompt]
  exact whole ▸ List.prefix_rfl

theorem Call.Ran.plan_ensureQueue {name : String} {us : List Commit} {p : Progress}
    (ran : (Call.start (.ensureQueue name)).Ran us p) :
    us.filterMap Commit.operation <+: (Request.ensureQueue name).plan := by
  obtain ⟨rfl, -⟩ | ⟨⟨c, env, db⟩, vs, rfl, rfl, ⟨-, rfl⟩ | ⟨c', next, ran⟩⟩ := ran.forward
  · exact List.nil_prefix
  · exact ⟨[.ensureQueue name], rfl⟩
  obtain rfl := Progress.next.inj next
  obtain ⟨rfl, -⟩ | ⟨⟨c, env', db'⟩, ws, rfl, rfl, ⟨-, rfl⟩ | ⟨c', next, -⟩⟩ := ran.forward
  · exact ⟨[.ensureQueue name], rfl⟩
  · exact List.prefix_rfl
  · cases next

/-- What a submission has done when something is left of it, and when it has succeeded. -/
theorem Call.Ran.submission_operations {s : Submittable} {us : List Commit} {p : Progress}
    (ran : (Call.start (.submit s)).Ran us p) :
    (us = [] ∧ p = .next (.start (.submit s))) ∨
    (us.filterMap Commit.operation = [.ensureQueue s.job.queue] ∧
      ∀ c, p = .next c → c.submission = some s ∧ ∀ request, c ≠ .start request) ∨
    (us.filterMap Commit.operation = [.ensureQueue s.job.queue, .submit s] ∧ p.succeeds = true) := by
  induction ran with
  | start => exact .inl ⟨rfl, rfl⟩
  | @unit us u before ih =>
    rw [List.filterMap_append]
    obtain ⟨rfl, here⟩ | ⟨done, under⟩ | ⟨-, ended⟩ := ih
    · obtain ⟨c, env, db⟩ := u
      obtain rfl := Progress.next.inj here
      refine .inr (.inl ⟨rfl, fun c next => ?_⟩)
      obtain rfl := Progress.next.inj next
      exact ⟨rfl, by simp⟩
    · obtain ⟨busy, started⟩ := under u.call rfl
      have this := Commit.operation_of_submission busy started
      cases answered : u.reply.succeeds with
      | false =>
        rw [if_neg (by simp [answered])] at this
        refine .inr (.inl ⟨?_, fun c next => ⟨Call.submission_next busy next, fun request => ?_⟩⟩)
        · rw [done, List.filterMap_cons_none this]
          rfl
        · exact (Call.follows next).not_start request
      | true =>
        rw [if_pos answered] at this
        refine .inr (.inr ⟨?_, rfl⟩)
        rw [done, List.filterMap_cons_some this]
        rfl
    · cases ended

theorem Call.Ran.plan {request : Request} {us : List Commit} {p : Progress} (ran : (Call.start request).Ran us p)
    (noSweep : ∀ u ∈ us, u.call.sweeps = false) : us.filterMap Commit.operation <+: request.plan := by
  cases request with
  | ensureQueue name => exact ran.plan_ensureQueue
  | submit s =>
    obtain ⟨rfl, -⟩ | ⟨done, -⟩ | ⟨done, -⟩ := ran.submission_operations
    · exact List.nil_prefix
    · rw [done]
      exact ⟨[.submit s], rfl⟩
    · rw [done]
      exact List.prefix_rfl
  | recoverExpiredLeases limit =>
    obtain ⟨rfl, -⟩ | ⟨u, vs, rfl, first, -⟩ := ran.forward
    · exact List.nil_prefix
    · have sweeps : u.call.sweeps = true := first ▸ rfl
      cases (noSweep u List.mem_cons_self).symm.trans sweeps
  | _ => exact ran.plan_prompt rfl

theorem Sys.Follows.history {s : Sys} {serial : Serial} (follows : s.Follows serial) (id : Uuid) :
    serial.db.job? id = s.db.job? id ∧ serial.db.history id = s.db.history id := by
  have same := Db.SameWork.of_live follows.live
  constructor
  · exact congrArg (lookup Job.id id) same.jobs
  · exact congrArg (List.filter fun a => decide (a.jobId = id)) same.attempts

end Djq
