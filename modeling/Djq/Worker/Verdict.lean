import Djq.System.RowInvariants
import Djq.Transition.Retry
import Djq.Worker.Turns

/-!
# What becomes of a job is up to its handler

A job whose handler comes to the same outcome on the same attempt, whichever
worker runs it and whenever, ends the same way in every run that leaves it to its
workers: with the outcome of the first attempt that succeeds, or of the last one.
-/

namespace Djq

open Relational Transition

deriving instance DecidableEq for ExecutionOutcome

/-- An outcome as the store records it. -/
def ExecutionOutcome.result : ExecutionOutcome → Except String (Option Json)
  | .success result => .ok result
  | .failure error => .error error
  | .timeout => .error "execution timed out"

/-- How a job has ended, by its row. -/
def Job.conclusion (j : Job) : Option (Except String (Option Json)) :=
  match j.status with
  | .completed => some (.ok j.result)
  | .failed => j.lastError.map .error
  | .deadLettered => j.lastError.map .error
  | _ => none

namespace Fleet

variable {registry : Registry} {s s' : Fleet} {ls : List Label} {id : Uuid} {f : Nat → ExecutionOutcome}

/-! ## The outcomes of the attempts -/

/-- The outcome of an attempt at the job `id` is a matter of its number. -/
def Decided (registry : Registry) (f : Nat → ExecutionOutcome) (id : Uuid) : Label → Prop
  | .report e outcome => e.job.id = id → outcome = f e.job.attempts.toNat
  | .commit _ u _ => ∀ x ∈ u.lease, x.2.id = id → registry x.1 x.2.jobType = false → noHandler x.2 = f x.2.attempts.toNat
  | _ => True

instance (registry : Registry) (f : Nat → ExecutionOutcome) (id : Uuid) : DecidablePred (Decided registry f id)
  | .report .. => inferInstanceAs (Decidable (_ = _ → _))
  | .commit _ u _ => inferInstanceAs (Decidable (∀ x ∈ u.lease, _ → _ → _))
  | .tick _ | .begin .. | .stop .. | .renew .. | .reorder => isTrue trivial

theorem Reported.decided {worker : Uuid} {job : Job} {outcome : ExecutionOutcome}
    (reported : Reported registry ls worker job outcome) (decided : ∀ l ∈ ls, Decided registry f id l)
    (isId : job.id = id) : outcome = f job.attempts.toNat := by
  cases reported with
  | handled leased report by' on =>
    subst on
    exact decided _ report isId
  | unhandled leased missing =>
    obtain ⟨i, u, lost, mem, lease⟩ := leased
    exact decided _ mem (worker, job) lease isId missing

/-- What a report says. -/
def told : Call → Option (Except String (Option Json))
  | .start (.completeJob _ _ result) => some (.ok result)
  | .start (.failJob _ _ error _) => some (.error error)
  | _ => none

theorem told_report (job : Job) (worker : Uuid) (outcome : ExecutionOutcome) :
    told (.start (reportOutcome job worker outcome)) = some outcome.result := by
  cases outcome with
  | _ => rfl

/-- The row of a job shows what its attempts have come to. -/
structure Shows (f : Nat → ExecutionOutcome) (j : Job) : Prop where
  earlier : ∀ n, 1 ≤ n → n < j.attempts.toNat → ∃ error, (f n).result = .error error
  fresh : j.status ∈ [.queued, .scheduled] → j.attempts = 0
  failed : j.status ∈ [.retrying, .failed, .deadLettered] →
    ∃ error, (f j.attempts.toNat).result = .error error ∧ j.lastError = some error
  completed : j.status = .completed → (f j.attempts.toNat).result = .ok j.result

theorem Shows.row_step {env : Env} {db : Db} {c : Call} {p : Progress} {r r' : Option Job}
    (life : RowStep env db id c p r r')
    (alone : id ∈ c.written p → c.isSweep = false ∧ c.isRetry = false ∧ c.isCancel = false)
    (truthful : ∀ j outcome, r = some j → reportOn c = some id → told c = some outcome → (f j.attempts.toNat).result = outcome)
    (nonneg : ∀ j, r = some j → 0 ≤ j.attempts) (before : ∀ j, r = some j → Shows f j) : ∀ j', r' = some j' → Shows f j' := by
  intro j' after
  cases life with
  | same => exact before j' after
  | @inserted s row eq =>
    obtain rfl := Option.some.inj after
    have none : row.attempts = 0 := by rw [eq]; rfl
    have waiting : row.status = .scheduled ∨ row.status = .queued := by
      rw [eq]
      exact s.sound.status
    constructor
    · intro n first few
      omega
    · exact fun _ => none
    · intro ended
      rcases waiting with is | is <;> simp [is] at ended
    · intro completed
      rcases waiting with is | is <;> cases is.symm.trans completed
  | @leased worker queues secs j waiting =>
    obtain rfl := Option.some.inj after
    have shown' := before j rfl
    have least := nonneg j rfl
    constructor
    · intro n first few
      have attempts : (j.setLeased env.now worker secs).attempts = j.attempts + 1 := rfl
      rw [attempts] at few
      by_cases last : n = j.attempts.toNat
      · have retrying : j.status ∈ [.retrying, .failed, .deadLettered] := by
          simp only [List.mem_cons, List.not_mem_nil, or_false] at waiting
          rcases waiting with is | is | is
          · have none := shown'.fresh (by simp [is])
            omega
          · have none := shown'.fresh (by simp [is])
            omega
          · simp [is]
        obtain ⟨error, failed, -⟩ := shown'.failed retrying
        exact ⟨error, last ▸ failed⟩
      · exact shown'.earlier n first (by omega)
    · intro is
      simp at is
    · intro is
      simp at is
    · intro is
      simp at is
  | @renewed worker secs j processing =>
    obtain rfl := Option.some.inj after
    constructor
    · exact (before j rfl).earlier
    · intro is
      simp [processing] at is
    · intro is
      simp [processing] at is
    · intro is
      simp [processing] at is
  | @completed worker result j processing =>
    obtain rfl := Option.some.inj after
    constructor
    · exact (before j rfl).earlier
    · intro is
      simp at is
    · intro is
      simp at is
    · intro _
      exact truthful j (.ok result) rfl rfl rfl
  | @failed worker error timedOut j processing =>
    obtain rfl := Option.some.inj after
    have attempts := j.failUpdate_attempts env.now j error
    have status := j.failUpdate_status env.now j error
    have failure := truthful j (.error error) rfl rfl rfl
    constructor
    · rw [attempts]
      exact (before j rfl).earlier
    · intro is
      simp only [List.mem_cons, List.not_mem_nil, or_false] at is status
      rcases is with is | is <;> simp [is] at status
    · intro _
      rw [attempts]
      exact ⟨error, failure, j.failUpdate_lastError env.now j error⟩
    · intro is
      simp [is] at status
  | cancelled => cases (alone (List.mem_singleton_self id)).2.2
  | requeued => cases (alone (List.mem_singleton_self id)).2.1
  | expiredRetrying taken => cases (alone taken).1
  | expiredDeadLettered taken =>
    simp only [Call.written, List.drop_left] at alone
    cases (alone taken).1
  | expiredFailed taken =>
    simp only [Call.written, List.drop_left] at alone
    cases (alone taken).1
  | purged => cases after

theorem shows_of_run {t : Int} (run : Run (Step registry) (Fleet.init t) ls s)
    (alone : ∀ l ∈ ls, LeftAlone id l) (decided : ∀ l ∈ ls, Decided registry f id l) :
    InTurn registry ls s id ∧ ∀ j, s.sys.db.job? id = some j → Shows f j := by
  induction run with
  | nil =>
    constructor
    · refine .absent rfl ?_ ?_
      · exact fun e mem => absurd mem List.not_mem_nil
      · intro i c inFlight
        cases inFlight
    · intro j row
      exact absurd (Db.job?_mem row) List.not_mem_nil
  | @snoc ls s l s' before last ih =>
    obtain ⟨turn, shown'⟩ := ih (fun k mem => alone k (List.mem_append_left _ mem))
      fun k mem => decided k (List.mem_append_left _ mem)
    have sound := sound_of_run before
    have accountable := accountable_of_run before
    have here : LeftAlone id l := alone l (by simp)
    refine ⟨turn.step accountable sound here last, ?_⟩
    obtain ⟨-, jobs, -⟩ | ⟨i, u, lost, rfl, inFlight, on, -, fresh, after⟩ := last.tables
    · intro j row
      exact shown' j ((sound.keyed.lookup_perm jobs).symm.trans row)
    · rw [after]
      apply Shows.row_step (sound.row_step on fresh id) here
      · intro j outcome row onJob said
        obtain ⟨e, mem, outcome', stage, call, reported⟩ := turn.reporter i u.call inFlight onJob
        have alive : s.Live e := .inr (.inr (.inr ⟨i, _, stage, call ▸ inFlight⟩))
        have current := (turn.live e mem alive j row).2
        rw [call, told_report] at said
        have known := (reported.mono (List.subset_append_left ls [.commit i u lost])).decided decided (mem_ofJob.1 mem).2
        rw [← current, ← known]
        exact Option.some.inj said
      · intro j row
        obtain ⟨ks, run⟩ := sys_of_run before
        exact (Sys.budget_of_run run j (Db.job?_mem row)).bounds.1
      · exact shown'

/-- **What becomes of a job is up to its handler.** Where the outcome of an attempt is a
matter of its number, and nobody cancels or requeues the job or takes an attempt of
it for dead, it ends in every run as the tries of its handler do: at the same
attempt, with the same result or error, whatever else goes on, whichever workers
run it and however long it waits; and it is a dead letter if it failed and is to be one. -/
theorem up_to_handler {t : Int} (run : Run (Step registry) (Fleet.init t) ls s)
    (alone : ∀ l ∈ ls, LeftAlone id l) (decided : ∀ l ∈ ls, Decided registry f id l) {j : Job}
    (row : s.sys.db.job? id = some j) {c : Except String (Option Json)} (ended : j.conclusion = some c) :
    retried (fun n => (f n).result) j.maxAttempts.toNat = (j.attempts.toNat, c) ∧
    (j.status = .deadLettered ↔ j.deadLetter = true ∧ ∃ error, c = .error error) := by
  obtain ⟨-, shown'⟩ := shows_of_run run alone decided
  obtain ⟨ks, store⟩ := sys_of_run run
  have budget := Sys.budget_of_run store j (Db.job?_mem row)
  have shown := shown' j row
  have positive := budget.positive
  obtain ⟨nonneg, most⟩ := budget.bounds
  have first : 1 ≤ j.attempts.toNat := by
    unfold Job.conclusion at ended
    split at ended
    · rename_i completed
      have started := budget.started (by simp [completed])
      omega
    · rename_i failed
      have exhausted := (budget.failed failed).1
      omega
    · rename_i dead
      have exhausted := (budget.deadLettered dead).1
      omega
    · cases ended
  have tried := @retried_eq _ _ (fun n => (f n).result) j.attempts.toNat j.maxAttempts.toNat first (by omega) shown.earlier
  unfold Job.conclusion at ended
  split at ended
  · rename_i completed
    obtain rfl := Option.some.inj ended
    have success := shown.completed completed
    rw [tried (.inl ⟨j.result, success⟩), success, completed]
    simp
  · rename_i failed
    obtain ⟨exhausted, plain⟩ := budget.failed failed
    obtain ⟨error, failure, said⟩ := shown.failed (by simp [failed])
    rw [said] at ended
    obtain rfl := Option.some.inj ended
    rw [tried (.inr (by omega)), failure, failed, plain]
    simp
  · rename_i dead
    obtain ⟨exhausted, filed⟩ := budget.deadLettered dead
    obtain ⟨error, failure, said⟩ := shown.failed (by simp [dead])
    rw [said] at ended
    obtain rfl := Option.some.inj ended
    rw [tried (.inr (by omega)), failure, dead, filed]
    simp
  · cases ended

/-- The first attempt fails and the second succeeds. -/
def flaky (n : Nat) : ExecutionOutcome := if n < 2 then .failure "boom" else .success (some "2")

def flakyScript : List Action :=
  [.begin (.submit (.sample 2 none NewJob.sample_twice)), .commit 0 1007, .commit 0 2007, .commit 0 7,
    .begin (.leaseNext 1 ["emails"] 60), .commit 1 3001, .renew 1, .commit 2 3002, .report 1 (.failure "boom"),
    .commit 3 3003, .commit 3 3004, .tick 9000000, .begin (.leaseNext 2 ["emails"] 60), .commit 4 3005, .renew 4,
    .commit 5 3006, .report 4 (.success (some "2")), .commit 6 3007]

theorem up_to_handler_flaky : retried (fun n => (flaky n).result) 2 = (2, .ok (some "2")) := by
  have run := @outcome_run _ _ _ (act fun _ _ => true) _ (act_step fun _ _ => true) (.init 0) flakyScript (by decide)
  obtain ⟨j, row, limit, attempts, ended⟩ : ∃ j, (outcome (act fun _ _ => true) (.init 0) flakyScript).sys.db.job? 7 =
      some j ∧ j.maxAttempts = 2 ∧ j.attempts = 2 ∧ j.conclusion = some (.ok (some "2")) := ⟨_, rfl, rfl, rfl, rfl⟩
  have ends := (@up_to_handler _ _ _ 7 flaky _ run (by decide) (by decide) j row _ ended).1
  rw [limit, attempts] at ends
  exact ends

end Fleet

end Djq
