import Djq.Service.Metrics
import Djq.Transition.Tally

/-!
# What the counters owe

The books of the workers' counters: a failure is counted before the store has
taken it, a retry only once the row has been read again. Between the two, the
totals differ from the transitions by what is in flight.
-/

namespace Djq

open Relational Transition

/-- A store call of a failure report. -/
def Call.ofFailure : Call → Bool
  | .start (.failJob _ _ _ _) => true
  | .rereadFailed _ => true
  | _ => false

namespace Metered

variable {P : Type}

/-- Steps after which the counters keep up: a failure is reported under its lease,
no sweep finds a job to retry or to file, what a row stands for does not change
before its `fail_job` has read it again, and no failure report is cut short. -/
structure Regular (s : Metered P) (l : Label P) : Prop where
  held : ∀ u, l.commit = some u → ∀ id worker error timedOut, u.call = .start (.failJob id worker error timedOut) →
    ∃ j, u.db.job? id = some j ∧ j.status = .processing ∧ j.lockedBy = some worker
  noneExpired : ∀ u, l.commit = some u → ∀ limit, u.call = .start (.recoverExpiredLeases limit) →
    u.db.expiredBatch (Db.retryable u.env) limit = []
  noneExhausted : ∀ u, l.commit = some u → ∀ limit before, u.call = .recoverDeadLetter limit before →
    u.db.expiredBatch (Db.exhaustedDeadLetter u.env) limit = []
  unmoved : ∀ u, l.commit = some u → ∀ k id, s.sys.calls k = some (.rereadFailed id) →
    u.after.failureCounter id = u.db.failureCounter id
  reported : ∀ i id worker error timedOut, l ≠ .store (.stop i (.start (.failJob id worker error timedOut)))
  answered : ∀ i id, l = .store (.stop i (.rereadFailed id)) → s.sys.db.failureCounter id = none

variable {s s' : Metered P} {l : Label P}

/-- A counter is ahead: the call `i` has yet to report the failure it has counted. -/
def ahead (s : Metered P) (counter : Counter) (queue : String) (i : Nat) : Nat :=
  match s.reports i, s.sys.calls i with
  | some r, some (.start (.failJob _ _ _ _)) => if r.job.queue = queue ∧ counter = .jobsFailed then 1 else 0
  | _, _ => 0

variable {counter : Counter} {queue : String}

variable [DecidableEq P]

/-! ## The books -/

variable [Fintype P]

/-- The call `i` once its unit `u` has committed. -/
def after (s : Metered P) (i : Nat) (u : Commit) (leases : List (Uuid × Job)) : Metered P :=
  ⟨s.sys.commit i u, s.answer i u, s.reports, leases⟩

section Unit

variable {i : Nat} {u : Commit} {leases : List (Uuid × Job)} {r : Report P}

end Unit

/-- A check that a step is regular. -/
def check {P : Type} (s : Metered P) : Label P → Bool
  | .store (.commit _ u) =>
    (match u.call with
      | .start (.failJob id worker _ _) =>
        match u.db.job? id with
        | some j => decide (j.status = .processing ∧ j.lockedBy = some worker)
        | none => false
      | .start (.recoverExpiredLeases limit) => (u.db.expiredBatch (Db.retryable u.env) limit).isEmpty
      | .recoverDeadLetter limit _ => (u.db.expiredBatch (Db.exhaustedDeadLetter u.env) limit).isEmpty
      | _ => true) &&
    (List.range s.sys.nextCall).all fun k => match s.sys.calls k with
      | some (.rereadFailed id) => decide (u.after.failureCounter id = u.db.failureCounter id)
      | _ => true
  | .store (.stop _ c) => !c.ofFailure
  | _ => true

omit [DecidableEq P] [Fintype P] in
theorem regular_of_check (sound : s.sys.Sound) (checked : s.check l = true) : s.Regular l := by
  have commit : ∀ u, l.commit = some u → ∃ i, l = .store (.commit i u) := by
    intro u isCommit
    unfold Label.commit at isCommit
    split at isCommit
    · cases isCommit
      exact ⟨_, rfl⟩
    · cases isCommit
  constructor
  · intro u isCommit id worker error timedOut call
    obtain ⟨i, rfl⟩ := commit u isCommit
    obtain ⟨unit, -⟩ := Bool.and_eq_true_iff.1 checked
    rw [call] at unit
    simp only at unit
    split at unit
    · rename_i j row
      exact ⟨j, row, of_decide_eq_true unit⟩
    · cases unit
  · intro u isCommit limit call
    obtain ⟨i, rfl⟩ := commit u isCommit
    obtain ⟨unit, -⟩ := Bool.and_eq_true_iff.1 checked
    rw [call] at unit
    exact List.isEmpty_iff.1 unit
  · intro u isCommit limit before call
    obtain ⟨i, rfl⟩ := commit u isCommit
    obtain ⟨unit, -⟩ := Bool.and_eq_true_iff.1 checked
    rw [call] at unit
    exact List.isEmpty_iff.1 unit
  · intro u isCommit k id waits
    obtain ⟨i, rfl⟩ := commit u isCommit
    obtain ⟨-, rows⟩ := Bool.and_eq_true_iff.1 checked
    exact of_decide_eq_true (sound.of_given (p := fun
      | some (.rereadFailed id) => decide (u.after.failureCounter id = u.db.failureCounter id)
      | _ => true) rows waits)
  · rintro i id worker error timedOut rfl
    cases checked
  · rintro i id rfl
    cases checked

omit [Fintype P] in
/-- A script whose steps pass the check is a run of regular steps. -/
theorem run_of_check {t : Int} {ls : List (Label P)}
    (run : Run (Restrict (fun s l => s.check l = true) Step) (init P t) ls s) :
    Run (Restrict Regular Step) (init P t) ls s := by
  induction run with
  | nil => exact .nil
  | snoc before last ih =>
    exact ih.snoc ⟨regular_of_check (Sys.sound_of_run (seen_run before.unrestrict)) last.1, last.2⟩

end Metered

namespace Metered

end Metered

end Djq
