import Djq.System.Events

/-!
# What `fail_job` returns

`fail_job` commits its transaction and then reads the row again, on another
connection. Its reply is the row as its own transaction left it exactly where no
other operation has changed the row in between.
-/

namespace Djq

open Relational Transition

/-- `fail_job id` has returned `r` in the run, after its transaction `u` and, unless
that was refused, the read `v`. -/
inductive FailJobReturned (ls : List Label) (id : Uuid) : Commit → Option Commit → Except QueueError Value → Prop where
  | refused {pre post i u worker error timedOut r} (eq : ls = pre ++ .commit i u :: post)
      (call : u.call = .start (.failJob id worker error timedOut)) (ends : u.reply = .done r) :
      FailJobReturned ls id u none r
  | reread {pre mid post i u v worker error timedOut r}
      (eq : ls = pre ++ .commit i u :: (mid ++ .commit i v :: post))
      (call : u.call = .start (.failJob id worker error timedOut)) (waits : u.reply = .next (.rereadFailed id))
      (again : v.call = .rereadFailed id) (ends : v.reply = .done r) : FailJobReturned ls id u (some v) r

/-- The call returned a job exactly where its transaction committed, the row that
left, and an error only where it changed nothing. -/
structure ReportsOwn (id : Uuid) (u : Commit) (r : Except QueueError Value) : Prop where
  committed : (∃ job, r = .ok (.job job)) ↔ u.reply = .next (.rereadFailed id)
  left : ∀ job, r = .ok (.job job) → u.after.job? id = some job ∧
    job.status ∈ [.retrying, .failed, .deadLettered] ∧
    job.lockedBy = none ∧ job.lockedAt = none ∧ job.leaseExpiresAt = none
  untouched : ∀ e, r = .error e → u.after = u.db

/-- No commit changes a row that some `fail_job` has yet to read again. -/
def Undisturbed (s : Sys) (l : Label) : Prop :=
  ∀ k id, s.calls k = some (.rereadFailed id) → ∀ i u, l = .commit i u → u.after.job? id = u.db.job? id

theorem Job.failUpdate_unlocked (j current : Job) (now : Int) (error : String) :
    (current.failUpdate now error j).lockedBy = none ∧ (current.failUpdate now error j).lockedAt = none ∧
      (current.failUpdate now error j).leaseExpiresAt = none := by
  unfold Job.failUpdate
  split
  · split <;> exact ⟨rfl, rfl, rfl⟩
  · exact ⟨rfl, rfl, rfl⟩

/-- The transaction of `fail_job`: refused, or the row it leaves. -/
theorem Commit.failJob_cases {u : Commit} {id worker : Uuid} {error : String} {timedOut : Bool}
    (call : u.call = .start (.failJob id worker error timedOut)) :
    ((∃ e, u.reply = .done (.error e)) ∧ u.after = u.db) ∨
    ∃ j, u.db.job? id = some j ∧ u.reply = .next (.rereadFailed id) ∧
      u.after.job? id = some (j.failUpdate u.env.now error j) := by
  rw [Commit.after, Commit.reply, call, Call.step]
  obtain ⟨⟨e, refused⟩, -⟩ | ⟨j, row, -, -, done⟩ := u.db.failJob_spec u.env id worker error timedOut
  · rw [refused]
    exact .inl ⟨⟨e, rfl⟩, rfl⟩
  · rw [done]
    refine .inr ⟨j, row, rfl, ?_⟩
    rw [Db.job?_failWrite, row, Option.map_some, if_pos (Db.job?_id row)]

theorem Commit.rereadFailed_reply {v : Commit} {id : Uuid} (again : v.call = .rereadFailed id) :
    v.reply = .done ((found (.jobNotFound id) (v.db.job? id)).map .job) := by
  rw [Commit.reply, again]
  rfl

/-! ## A call in flight -/

/-- The numbers of calls are given in order. -/
theorem Step.nextCall_le {s s' : Sys} {l : Label} (step : Step s l s') : s.nextCall ≤ s'.nextCall := by
  cases step with
  | begin => exact Nat.le_succ _
  | _ => exact le_refl _

/-- A call that is out of flight stays out. -/
theorem Step.stays_out {s s' : Sys} {l : Label} (step : Step s l s') {i : Nat} (given : i < s.nextCall)
    (out : s.calls i = none) : s'.calls i = none := by
  cases step with
  | tick => exact out
  | reorder => exact out
  | begin request => exact (s.setCall_other _ (Nat.ne_of_lt given)).trans out
  | @commit k u inFlight =>
    refine (s.setCall_other _ ?_).trans out
    rintro rfl
    cases out.symm.trans inFlight
  | @stop k c inFlight =>
    refine (s.setCall_other _ ?_).trans out
    rintro rfl
    cases out.symm.trans inFlight

/-- A call that waits for its last unit waits on, or is out of flight. -/
theorem Step.waits_on {s s' : Sys} {l : Label} (step : Step s l s') {i : Nat} {id : Uuid} (given : i < s.nextCall)
    (waits : s.calls i = some (.rereadFailed id)) :
    s'.calls i = some (.rereadFailed id) ∨ s'.calls i = none := by
  cases step with
  | tick => exact .inl waits
  | reorder => exact .inl waits
  | begin request => exact .inl ((s.setCall_other _ (Nat.ne_of_lt given)).trans waits)
  | @commit k u inFlight =>
    by_cases this : i = k
    · subst this
      have call : u.call = .rereadFailed id := Option.some.inj (inFlight.symm.trans waits)
      refine .inr ((s.setCall_self _ _).trans ?_)
      rw [Commit.rereadFailed_reply call]
      rfl
    · exact .inl ((s.setCall_other _ this).trans waits)
  | @stop k c inFlight =>
    by_cases this : i = k
    · subst this
      exact .inr (s.setCall_self _ _)
    · exact .inl ((s.setCall_other _ this).trans waits)

/-- While it waits undisturbed, its row stays as it is. -/
theorem Run.row_waits {t : Int} {pre ls : List Label} {s s' : Sys} (before : Run Step (Sys.init t) pre s)
    (run : Run (Restrict Undisturbed Step) s ls s') {i : Nat} {id : Uuid}
    (waits : s.calls i = some (.rereadFailed id)) :
    s'.calls i = none ∨ (s'.calls i = some (.rereadFailed id) ∧ s'.db.job? id = s.db.job? id) := by
  have given : ∀ {ls t}, Run (Restrict Undisturbed Step) s ls t → i < t.nextCall := by
    intro ls t run
    induction run with
    | nil => exact (Sys.sound_of_run before).lt_nextCall waits
    | snoc _ last ih => exact lt_of_lt_of_le ih last.2.nextCall_le
  induction run with
  | nil => exact .inr ⟨waits, rfl⟩
  | snoc run last ih =>
    obtain out | ⟨waits, row⟩ := ih
    · exact .inl (last.2.stays_out (given run) out)
    · obtain still | out := last.2.waits_on (given run) waits
      · refine .inr ⟨still, ?_⟩
        obtain ⟨-, same⟩ | ⟨k, u, rfl, -, on, -, -, after, -⟩ :=
          last.2.row (Sys.sound_of_run (before.append run.unrestrict)) id
        · exact same.trans row
        · have kept := last.1 i id waits k u rfl
          rw [after]
          exact (kept.trans (congrArg (Db.job? · id) on)).trans row
      · exact .inl out

/-! ## The reply -/

theorem ReportsOwn.refused {id : Uuid} {u : Commit} {e : QueueError} (ends : u.reply = .done (.error e))
    (same : u.after = u.db) : ReportsOwn id u (.error e) := by
  constructor
  · constructor
    · rintro ⟨job, ok⟩
      cases ok
    · intro waits
      cases ends.symm.trans waits
  · intro job ok
    cases ok
  · intro _ _
    exact same

/-- Read again, the row is reported as it was left where it is still that. -/
theorem ReportsOwn.reread_iff {id : Uuid} {u v : Commit} {j : Job} {now : Int} {error : String}
    (waits : u.reply = .next (.rereadFailed id)) (left : u.after.job? id = some (j.failUpdate now error j)) :
    ReportsOwn id u ((found (.jobNotFound id) (v.db.job? id)).map .job) ↔ v.db.job? id = u.after.job? id := by
  constructor
  · intro own
    obtain ⟨job, ok⟩ := own.committed.2 waits
    cases again : v.db.job? id with
    | none => simp [again, found, Except.map] at ok
    | some k =>
      have same := (own.left k (by simp [again, found, Except.map])).1
      exact same.symm
  · intro same
    rw [same, left]
    constructor
    · simp [waits, found, Except.map]
    · rintro job eq
      obtain rfl : j.failUpdate now error j = job := by simpa [found, Except.map] using eq
      refine ⟨left, ?_, j.failUpdate_unlocked j now error⟩
      have status := j.failUpdate_status now j error
      simp only [List.mem_cons, List.not_mem_nil, or_false] at status ⊢
      tauto
    · intro e eq
      simp [found, Except.map] at eq

/-- A job with an attempt left is leased, and its failure is to be reported by call 2. -/
def failingScript : List Action :=
  Action.submit 0 (.sample 3 none NewJob.sample_thrice) 7 ++ Action.call 1 (.leaseNext 1 ["emails"] 60) ++
    [.begin (.failJob 7 1 "boom" false)]

/-- Its transaction. -/
def failing : Commit := ⟨.start (.failJob 7 1 "boom" false), ⟨0, [], 5000⟩, ((Sys.init 0).replay failingScript).db⟩

/-- When the job is due again, another worker leases it. -/
def leasedAgain : List Action := [.tick 300000000] ++ Action.call 3 (.leaseNext 2 ["emails"] 60)

/-- The read of call 2 after some actions of others. -/
def readAfter (between : List Action) : Commit :=
  let s := ((Sys.init 0).replay (failingScript ++ [.commit 2 5000])).replay between
  ⟨.rereadFailed 7, ⟨s.clock, [], 6000⟩, s.db⟩

/-- All of it as one run, and what call 2 returns. -/
def failingTrace (between : List Action) : List Label :=
  (Sys.init 0).trace (failingScript ++ [.commit 2 5000] ++ between ++ [.commit 2 6000])

/-- **`fail_job` reports its own transition** exactly where the row it reads again is
the one its transaction left, and so in every run in which no commit changes a row
that is still to be read. -/
theorem fail_job_reports_iff {ls : List Label} {id : Uuid} {u : Commit} {v : Option Commit}
    {r : Except QueueError Value} (returned : FailJobReturned ls id u v r) :
    (ReportsOwn id u r ↔ ∀ w, v = some w → w.db.job? id = u.after.job? id) ∧
    ∀ t s, Run (Restrict Undisturbed Step) (Sys.init t) ls s → ReportsOwn id u r := by
  have same_iff : ReportsOwn id u r ↔ ∀ w, v = some w → w.db.job? id = u.after.job? id := by
    cases returned with
    | refused _ call ends =>
      refine iff_of_true ?_ (fun w isNone => absurd isNone nofun)
      obtain ⟨⟨e, refused⟩, same⟩ | ⟨j, -, waits, -⟩ := Commit.failJob_cases call
      · obtain rfl := Progress.done.inj (ends.symm.trans refused)
        exact .refused ends same
      · cases ends.symm.trans waits
    | reread _ call waits again ends =>
      obtain ⟨⟨e, refused⟩, -⟩ | ⟨j, row, -, left⟩ := Commit.failJob_cases call
      · cases waits.symm.trans refused
      · obtain rfl := Progress.done.inj (ends.symm.trans (Commit.rereadFailed_reply again))
        simp only [Option.some.injEq, forall_eq']
        exact ReportsOwn.reread_iff waits left
  refine ⟨same_iff, ?_⟩
  intro t s run
  rw [same_iff]
  rintro w rfl
  cases returned with
  | @reread pre mid post i _ _ worker error timedOut _ eq call waits again ends =>
    subst eq
    obtain ⟨s₁, t₁, before, first, rest⟩ := run.at_label
    obtain ⟨s₂, t₂, between, second, -⟩ := rest.at_label
    obtain ⟨inFlight, -, -, -, rfl⟩ := first.2.commit_inv
    obtain ⟨inFlight', on', -, -, -⟩ := second.2.commit_inv
    have pending : (s₁.commit i u).calls i = some (.rereadFailed id) := by
      refine (s₁.setCall_self _ _).trans ?_
      rw [waits]
      rfl
    obtain out | ⟨-, row⟩ := Run.row_waits (before.unrestrict.snoc first.2) between pending
    · cases out.symm.trans inFlight'
    · exact (congrArg (Db.job? · id) on').trans row

theorem fail_job_reports_undisturbed :
    ReportsOwn 7 failing ((found (.jobNotFound 7) ((readAfter []).db.job? 7)).map .job) := by
  have returned : FailJobReturned (failingTrace []) 7 failing (some (readAfter [])) _ :=
    @FailJobReturned.reread _ _ ((Sys.init 0).trace failingScript) [] [] 2 _ _ _ _ _ _ rfl rfl rfl rfl rfl
  apply (fail_job_reports_iff returned).1.2
  rintro w ⟨⟩
  decide

/-- The attempt that failed is reported as another worker's lease. -/
theorem reports_another_lease :
    Run Step (Sys.init 0) (failingTrace leasedAgain)
      ((Sys.init 0).replay (failingScript ++ [.commit 2 5000] ++ leasedAgain ++ [.commit 2 6000])) ∧
    ∃ job, FailJobReturned (failingTrace leasedAgain) 7 failing (some (readAfter leasedAgain)) (.ok (.job job)) ∧
      job.status = .processing ∧ job.lockedBy = some 2 ∧ ¬ ReportsOwn 7 failing (.ok (.job job)) := by
  have run := @Sys.replay_run (Sys.init 0) (failingScript ++ [.commit 2 5000] ++ leasedAgain ++ [.commit 2 6000]) (by decide)
  refine ⟨run, _, @FailJobReturned.reread _ _ ((Sys.init 0).trace failingScript)
    (((Sys.init 0).replay (failingScript ++ [.commit 2 5000])).trace leasedAgain) [] 2 _ _ _ _ _ _
    rfl rfl rfl rfl rfl, rfl, rfl, ?_⟩
  intro own
  have status := (own.left _ rfl).2.1
  revert status
  decide

end Djq
