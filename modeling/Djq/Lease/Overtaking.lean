import Djq.Lifecycle.Backoff
import Djq.Relational.Flow
import Djq.Transition.Tally

/-!
# How often a waiting job is passed over

`lease_next` takes the first job in its order, so a lease that passes over a job it
could have taken takes one ahead of it. How often this happens to a job is bounded
by the jobs ahead of it and those that come in ahead later; a job of the same or a
lower priority that returns from a failed attempt never does.
-/

namespace Djq

open Relational Transition

/-- A waiting job that `lease_next` may take before `j`, ties included. -/
def Job.ahead (j k : Job) : Bool :=
  decide (k.id ≠ j.id ∧ k.status ∈ [.queued, .scheduled, .retrying] ∧ Db.leaseOrder k j)

theorem Job.ahead_iff {j k : Job} : j.ahead k = true ↔
    k.id ≠ j.id ∧ k.status ∈ [.queued, .scheduled, .retrying] ∧ Db.leaseOrder k j :=
  decide_eq_true_iff

def Call.isSubmission : Call → Bool
  | .submitInsert _ => true
  | _ => false

/-- A row the unit has written and put ahead of `j`: a new submission, a retry by an
operator, or the return of a job of a higher priority from an attempt. -/
def Commit.arrival (u : Commit) (j k : Job) : Bool :=
  decide (k.id ∈ u.written) && j.ahead k &&
    (u.call.isSubmission || u.call.isRetry || decide (j.priority < k.priority))

namespace Label

/-- How many jobs come in ahead of `j`. -/
def arrivals (j : Job) : Label → Nat
  | .commit _ u => u.after.jobs.countP (u.arrival j)
  | _ => 0

/-- A lease that could have taken `j`, whose row is still the same, and takes another job. -/
def bypasses (j : Job) : Label → Bool
  | .commit _ u =>
    match u.call, u.lease with
    | .start (.leaseNext _ queues _), some (_, k) =>
      decide (u.db.job? j.id = some j ∧ k.id ≠ j.id) && u.db.leaseable u.env queues j
    | _, _ => false
  | _ => false

theorem of_bypasses {i : Nat} {u : Commit} {j : Job} (bypass : (Label.commit i u).bypasses j = true) :
    ∃ worker queues secs by' k, u.call = .start (.leaseNext worker queues secs) ∧ u.lease = some (by', k) ∧
      u.db.job? j.id = some j ∧ k.id ≠ j.id ∧ u.db.leaseable u.env queues j = true := by
  simp only [bypasses] at bypass
  split at bypass
  · rename_i worker queues secs by' k called lease
    obtain ⟨kept, eligible⟩ := Bool.and_eq_true_iff.1 bypass
    obtain ⟨row, other⟩ := of_decide_eq_true kept
    exact ⟨worker, queues, secs, by', k, called, lease, row, other, eligible⟩
  · cases bypass

end Label

section Unit

variable {env : Env} {db : Db} {id : Uuid} {c : Call} {p : Progress} {r : Option Job} {j k : Job}

/-- How a row comes to wait: it did before, it is new, an operator retries it, or it
returns from an attempt, due after a backoff. -/
theorem RowStep.comes_to_wait (life : RowStep env db id c p r (some k))
    (waits : k.status ∈ [.queued, .scheduled, .retrying])
    (ok : ∀ j, r = some j → j.BackoffOk ∧ j.Budget ∧ j.maxAttempts ≤ 100) :
    r = some k ∨ (id ∈ c.written p ∧ (c.isSubmission = true ∨ c.isRetry = true ∨ env.now < k.runAt)) := by
  have returned : ∀ {j : Job}, r = some j → j.status = .processing → k.status = .retrying → env.now < k.runAt := by
    rintro j rfl processing retrying
    obtain ⟨backoff, budget, few⟩ := ok j rfl
    have first := budget.started (by simp [processing])
    have most := budget.bounds.2
    rw [life.retried processing retrying backoff first (by omega)]
    have positive := backoff.backoffSecs_pos j.attempts
    unfold seconds
    omega
  cases life with
  | same quiet => exact .inl rfl
  | inserted eq isId => exact .inr ⟨by simp [Call.written, isId], .inl rfl⟩
  | leased => simp at waits
  | renewed processing => simp [processing] at waits
  | completed => simp at waits
  | @failed worker error timedOut j processing =>
    refine .inr ⟨List.mem_singleton_self id, .inr (.inr (returned rfl processing ?_))⟩
    have ends := j.failUpdate_status env.now j error
    generalize (j.failUpdate env.now error j).status = status at ends waits
    cases status <;> simp at ends waits ⊢
  | cancelled => simp at waits
  | requeued => exact .inr ⟨List.mem_singleton_self id, .inr (.inl rfl)⟩
  | expiredRetrying taken expired =>
    exact .inr ⟨taken, .inr (.inr (returned rfl (Db.processing_of_expired expired) rfl))⟩
  | expiredDeadLettered => simp at waits
  | expiredFailed => simp at waits

/-- **Where what is ahead of a job comes from.** While the job is due, a unit that has
not let a job in ahead of it leaves ahead of it only jobs that were there before. -/
theorem Commit.ahead_before {u : Commit} {j k : Job} (life : RowStep u.env u.db k.id u.call u.reply r (some k))
    (ok : ∀ j, r = some j → j.BackoffOk ∧ j.Budget ∧ j.maxAttempts ≤ 100) (due : j.runAt ≤ u.env.now)
    (ahead : j.ahead k = true) (noArrival : u.arrival j k = false) : r = some k := by
  obtain ⟨-, waits, order⟩ := Job.ahead_iff.1 ahead
  obtain same | ⟨written, comes⟩ := life.comes_to_wait waits ok
  · exact same
  · have written : k.id ∈ u.written := written
    simp only [arrival, written, decide_true, Bool.true_and, ahead, Bool.or_eq_false_iff,
      decide_eq_false_iff_not, not_lt] at noArrival
    obtain ⟨⟨noSubmission, noRetry⟩, lower⟩ := noArrival
    rcases comes with submission | retry | later
    · exact absurd submission (by simp [noSubmission])
    · exact absurd retry (by simp [noRetry])
    · unfold Db.leaseOrder at order
      omega

/-- What a lease takes from a job it could have taken is ahead of that job. -/
theorem Commit.bypass_taken {u : Commit} {i : Nat} {j : Job}
    (bypass : (Label.commit i u).bypasses j = true) :
    ∃ k ∈ u.db.jobs, j.ahead k = true ∧ ∀ k' ∈ u.after.jobs, k'.id = k.id → k'.status = .processing := by
  obtain ⟨worker, queues, secs, by', taken, called, lease, row, other, eligible⟩ := Label.of_bypasses bypass
  have reply : u.reply = .done (.ok (.leased (u.db.leaseNext u.env worker queues secs).2)) := by
    unfold Commit.reply
    rw [called]
    rfl
  have after : u.after = (u.db.leaseNext u.env worker queues secs).1 := by
    unfold Commit.after
    rw [called]
    rfl
  have there : j ∈ u.db.jobs.filter (u.db.leaseable u.env queues) := List.mem_filter.2 ⟨Db.job?_mem row, eligible⟩
  obtain ⟨-, none⟩ | ⟨pick, mem, picked, could, ends⟩ := u.db.leaseNext_spec u.env worker queues secs
  · rw [head_orderBy_none none] at there
    exact absurd there List.not_mem_nil
  · rw [ends] at reply after
    have isPick : taken = pick.setLeased u.env.now worker secs := by
      unfold Commit.lease at lease
      rw [called, reply] at lease
      exact ((Prod.mk.inj (Option.some.inj lease)).2).symm
    have apart : pick.id ≠ j.id := by
      rw [isPick] at other
      exact other
    refine ⟨pick, mem, Job.ahead_iff.2 ⟨apart, (Db.leaseable_iff.1 could).2.2.1, ?_⟩, ?_⟩
    · rcases head_orderBy_min picked j there with same | first
      · exact absurd (congrArg Job.id same.symm) apart
      · exact first
    · intro k' mem' same
      rw [after] at mem'
      obtain ⟨k, inside, rfl⟩ := mem_updateWhere.1 mem'
      have isK : k.id = pick.id := by
        split at same
        · exact same
        · exact same
      simp [isK]

end Unit

/-! ## Runs -/

/-- One step: a bypass uses up one of the jobs ahead. -/
theorem Step.bypass {s s' : Sys} {l : Label} {j : Job} (sound : s.Sound) (sound' : s'.Sound)
    (ok : ∀ j ∈ s.db.jobs, (j.BackoffOk ∧ j.maxAttempts ≤ 100) ∧ j.Budget) (due : j.runAt ≤ s.clock)
    (step : Step s l s') :
    s'.db.jobs.countP j.ahead + (if l.bypasses j then 1 else 0) ≤ s.db.jobs.countP j.ahead + l.arrivals j := by
  cases step with
  | @reorder jobs same =>
    have equal : jobs.countP j.ahead = s.db.jobs.countP j.ahead := same.countP_eq j.ahead
    show jobs.countP j.ahead + 0 ≤ s.db.jobs.countP j.ahead + 0
    omega
  | tick later => exact le_refl _
  | begin request => exact le_refl _
  | stop inFlight => exact le_refl _
  | @commit i u inFlight on now fresh =>
    have gains : ∀ k ∈ u.after.jobs, j.ahead k = true → u.arrival j k = false →
        ∃ b ∈ u.db.jobs, b.id = k.id ∧ j.ahead b = true := by
      intro k mem ahead noArrival
      have life := sound.row_step on fresh k.id
      have row : u.after.job? k.id = some k := sound'.keyed.lookup_self mem
      rw [row] at life
      have before := Commit.ahead_before life (fun b found => ?_) (now ▸ due) ahead noArrival
      · exact ⟨k, on ▸ Db.job?_mem before, rfl, ahead⟩
      · obtain ⟨⟨backoff, few⟩, budget⟩ := ok b (Db.job?_mem found)
        exact ⟨backoff, budget, few⟩
    show u.after.jobs.countP j.ahead + _ ≤ s.db.jobs.countP j.ahead + u.after.jobs.countP (u.arrival j)
    rw [← on]
    split
    · rename_i bypass
      obtain ⟨k, mem, ahead, taken⟩ := Commit.bypass_taken bypass
      apply sound'.keyed.countP_lt_gained gains mem ahead
      intro k' mem' same
      have processing := taken k' mem' same
      simp [Job.ahead, processing]
    · exact sound'.keyed.countP_le_gained gains

/-- **Bounded overtaking.** From any reachable state in which a job is due, the leases
that could have taken it and take another job, while its row is the same, are no
more than the jobs that were ahead of it and those that have come in ahead since:
new submissions, retries by an operator, and returns of jobs of a strictly higher
priority. -/
theorem bounded_overtaking {t : Int} {pre seg : List Label} {s₁ s : Sys} (before : Run Step (Sys.init t) pre s₁)
    (run : Run Step s₁ seg s) {j : Job} (due : j.runAt ≤ s₁.clock) :
    seg.countP (Label.bypasses j) ≤ s₁.db.jobs.countP j.ahead + tally (Label.arrivals j) seg := by
  have bound : s.db.jobs.countP j.ahead + seg.countP (Label.bypasses j) ≤
      s₁.db.jobs.countP j.ahead + tally (Label.arrivals j) seg := by
    induction run with
    | nil => exact le_refl _
    | @snoc seg s l s' rest last ih =>
      have upTo := before.append rest
      have rows : ∀ j ∈ s.db.jobs, (j.BackoffOk ∧ j.maxAttempts ≤ 100) ∧ j.Budget := fun j mem =>
        ⟨Sys.row_invariant Job.BackoffOk.row_step upTo j mem, Sys.budget_of_run upTo j mem⟩
      have clock := Run.clock rest
      have one := last.bypass (Sys.sound_of_run upTo) (Sys.sound_of_run (upTo.snoc last)) rows (le_trans due clock)
      rw [List.countP_append, List.countP_singleton, tally_snoc]
      omega
  omega

/-- Two jobs of one queue, the same in everything but their id. -/
def twoWaitingScript : List Action :=
  Action.submit 0 (.sample 2 none NewJob.sample_twice) 7 ++ Action.submit 1 (.sample 2 none NewJob.sample_twice) 8

theorem bounded_overtaking_twins :
    let s₁ := (Sys.init 0).replay twoWaitingScript
    let j := { Job.sample 2 none with id := 8 }
    (s₁.trace (Action.call 2 (.leaseNext 1 ["emails"] 60))).countP (Label.bypasses j) = 1 ∧
      1 ≤ s₁.db.jobs.countP j.ahead + 0 := by
  have before := @Sys.replay_run (Sys.init 0) twoWaitingScript (by decide)
  have run := @Sys.replay_run ((Sys.init 0).replay twoWaitingScript) (Action.call 2 (.leaseNext 1 ["emails"] 60))
    (by decide)
  have bound := bounded_overtaking before run (j := { Job.sample 2 none with id := 8 }) (by decide)
  exact ⟨by decide, bound⟩

end Djq
