import Djq.System.RowInvariants

/-!
# Rows at their end

Every guard of a statement that changes a row leaves out `completed`, `cancelled`,
`failed` and `dead_lettered`, but for the two that are meant for such rows:
`purge_finished` and `retry_job`. So what a late worker reports of a job at its
end, and what any sweep does, leaves the row as it is.
-/

namespace Djq

open Relational Transition

/-- All that can happen to a row at its end. -/
theorem RowStep.of_ended {env : Env} {db : Db} {id : Uuid} {c : Call} {p : Progress} {j : Job} {r' : Option Job}
    (life : RowStep env db id c p (some j) r')
    (ended : j.status ∈ [.completed, .cancelled, .failed, .deadLettered]) :
    r' = some j ∨ (c.isPurge = true ∧ j.status ∈ [.completed, .cancelled] ∧ r' = none) ∨
      (c.isRetry = true ∧ id ∈ c.written p ∧ j.status ∈ [.failed, .deadLettered]) := by
  generalize before : some j = r at life
  cases life with
  | same => exact .inl rfl
  | inserted => cases before
  | purged ended =>
    obtain rfl := Option.some.inj before
    exact .inr (.inl ⟨rfl, ended, rfl⟩)
  | requeued ended =>
    obtain rfl := Option.some.inj before
    exact .inr (.inr ⟨rfl, List.mem_singleton_self id, ended⟩)
  | leased waiting =>
    obtain rfl := Option.some.inj before
    simp only [List.mem_cons, List.not_mem_nil, or_false] at waiting
    rcases waiting with was | was | was <;> simp [was] at ended
  | cancelled cancellable =>
    obtain rfl := Option.some.inj before
    simp only [List.mem_cons, List.not_mem_nil, or_false] at cancellable
    rcases cancellable with was | was | was | was <;> simp [was] at ended
  | renewed processing =>
    obtain rfl := Option.some.inj before
    simp [processing] at ended
  | completed processing =>
    obtain rfl := Option.some.inj before
    simp [processing] at ended
  | failed processing =>
    obtain rfl := Option.some.inj before
    simp [processing] at ended
  | expiredRetrying _ expired =>
    obtain rfl := Option.some.inj before
    simp [Db.processing_of_expired expired] at ended
  | expiredDeadLettered _ expired =>
    obtain rfl := Option.some.inj before
    simp [Db.processing_of_expired expired] at ended
  | expiredFailed _ expired =>
    obtain rfl := Option.some.inj before
    simp [Db.processing_of_expired expired] at ended

theorem Step.of_ended {s s' : Sys} {l : Label} (sound : s.Sound) (step : Step s l s') {id : Uuid} {j : Job}
    (row : s.db.job? id = some j) (ended : j.status ∈ [.completed, .cancelled, .failed, .deadLettered]) :
    s'.db.job? id = some j ∨ (l.deletes id = true ∧ j.status ∈ [.completed, .cancelled]) ∨
      (l.wrote Call.isRetry id = true ∧ j.status ∈ [.failed, .deadLettered]) := by
  obtain ⟨-, same⟩ | ⟨i, u, rfl, -, on, -, -, after, life⟩ := step.row sound id
  · exact .inl (same.trans row)
  · rw [row] at life
    obtain kept | ⟨purge, finished, gone⟩ | ⟨retry, written, failed⟩ := life.of_ended ended
    · exact .inl kept
    · refine .inr (.inl ⟨?_, finished⟩)
      have here : u.db.job? id = some j := on ▸ row
      have absent : u.after.job? id = none := by
        rw [after] at gone
        exact gone
      simp only [Label.deletes, purge, here, absent, Option.isSome_some, Option.isNone_none, Bool.and_self]
    · exact .inr (.inr ⟨Label.wrote_commit.2 ⟨retry, written⟩, failed⟩)

/-- **Final rows are frozen.** From any state of any run on, the row of a completed
or cancelled job stays as it is until a purge deletes it, and that of a failed or
dead-lettered job until the UPDATE of a `retry_job` on it. -/
theorem final_rows_frozen {t : Int} {pre post : List Label} {s s' : Sys} (before : Run Step (Sys.init t) pre s)
    (run : Run Step s post s') {id : Uuid} {j : Job} (row : s.db.job? id = some j) :
    (j.status ∈ [.completed, .cancelled] → (∀ l ∈ post, l.deletes id = false) → s'.db.job? id = some j) ∧
    (j.status ∈ [.failed, .deadLettered] → (∀ l ∈ post, l.wrote Call.isRetry id = false) →
      s'.db.job? id = some j) := by
  induction run with
  | nil => exact ⟨fun _ _ => row, fun _ _ => row⟩
  | @snoc ls r l _ run last ih =>
    have sound := Sys.sound_of_run (before.append run)
    constructor
    · intro finished kept
      have row' := ih.1 finished fun l mem => kept l (List.mem_append_left _ mem)
      have ended : j.status ∈ [.completed, .cancelled, .failed, .deadLettered] := by
        simp only [List.mem_cons, List.not_mem_nil, or_false] at finished ⊢
        tauto
      obtain same | ⟨deleted, -⟩ | ⟨-, failed⟩ := last.of_ended sound row' ended
      · exact same
      · exact absurd ((kept l (by simp)).symm.trans deleted) Bool.false_ne_true
      · simp only [List.mem_cons, List.not_mem_nil, or_false] at finished failed
        rcases finished with was | was <;> simp [was] at failed
    · intro failed kept
      have row' := ih.2 failed fun l mem => kept l (List.mem_append_left _ mem)
      have ended : j.status ∈ [.completed, .cancelled, .failed, .deadLettered] := by
        simp only [List.mem_cons, List.not_mem_nil, or_false] at failed ⊢
        tauto
      obtain same | ⟨-, finished⟩ | ⟨retried, -⟩ := last.of_ended sound row' ended
      · exact same
      · simp only [List.mem_cons, List.not_mem_nil, or_false] at finished failed
        rcases finished with was | was <;> simp [was] at failed
      · exact absurd ((kept l (by simp)).symm.trans retried) Bool.false_ne_true

/-- The operator cancels a job that worker 1 is running. -/
def cancelScript : List Action :=
  Action.submit 0 (.sample 2 none NewJob.sample_twice) 7 ++ Action.call 1 (.leaseNext 1 ["emails"] 60) ++
    Action.call 2 (.cancelJob 7)

/-- The worker reports it complete, and a sweep looks for it after its lease has run out. -/
def lateScript : List Action :=
  Action.call 3 (.completeJob 7 1 none) ++ [.tick 61000000] ++ Action.call 4 (.recoverExpiredLeases 10)

theorem final_rows_frozen_cancelled :
    (((Sys.init 0).replay cancelScript).replay lateScript).db.job? 7 =
      some (((Job.sample 2 none).setLeased 0 1 60).setCancelled 0) := by
  have before := @Sys.replay_run (Sys.init 0) cancelScript (by decide)
  have run := @Sys.replay_run ((Sys.init 0).replay cancelScript) lateScript (by decide)
  have row : ((Sys.init 0).replay cancelScript).db.job? 7 =
      some (((Job.sample 2 none).setLeased 0 1 60).setCancelled 0) := rfl
  exact (final_rows_frozen before run row).1 (by decide) (by decide)

end Djq
