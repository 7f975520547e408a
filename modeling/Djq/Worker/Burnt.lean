import Djq.Worker.Fleet

/-!
# Attempts that never ran

An attempt is consumed when the job is leased, and runs once the renewal has been
answered. `execute_job` gives up on any error of the renewal, a transient one
included, and the reaper then counts the attempt like one that ran. `Tally` is
what holds as long as nothing of the kind happens: of a job's consumed attempts
all have run, but for the one of its present lease.
-/

namespace Djq

open Relational Transition

/-- The renewal is begun and not answered. -/
def Stage.isRenewing : Stage → Bool
  | .renewing _ => true
  | _ => false

/-! ## One job and its executions -/

/-- The executions of a job, in the order of their leases, against its row. -/
structure Tally (es : List Execution) (j : Job) : Prop where
  nonneg : 0 ≤ j.attempts
  count : j.attempts.toNat ≤ es.length
  settled : j.status ∈ [.queued, .scheduled, .retrying, .failed, .deadLettered] →
    ∀ e ∈ es.rtake j.attempts.toNat, e.stage.ran = true
  current : j.status = .processing → ∃ earlier e, es.rtake j.attempts.toNat = earlier ++ [e] ∧
    (∀ e ∈ earlier, e.stage.ran = true) ∧ es.getLast? = some e ∧ j.lockedBy = some e.worker ∧
    e.stage ≠ .lost ∧ e.stage ≠ .skipped

namespace Tally

variable {es : List Execution} {j j' : Job}

theorem congr (tally : Tally es j) (status : j'.status = j.status) (attempts : j'.attempts = j.attempts)
    (holder : j'.lockedBy = j.lockedBy) : Tally es j' := by
  constructor
  · rw [attempts]
    exact tally.nonneg
  · rw [attempts]
    exact tally.count
  · rw [status, attempts]
    exact tally.settled
  · rw [status, attempts, holder]
    exact tally.current

/-- A job that starts over, or that no attempt is counted of. -/
theorem start (none : j.attempts = 0) (waiting : j.status ≠ .processing) : Tally es j := by
  constructor
  · omega
  · rw [none]
    exact Nat.zero_le _
  · intro _
    rw [none]
    show ∀ e ∈ es.rtake 0, e.stage.ran = true
    rw [List.rtake_zero]
    intro e mem
    exact absurd mem List.not_mem_nil
  · intro processing
    exact absurd processing waiting

/-- A job that is cancelled or completed. -/
theorem finish (tally : Tally es j) (attempts : j'.attempts = j.attempts)
    (finished : j'.status ∈ [.completed, .cancelled]) : Tally es j' := by
  refine ⟨attempts ▸ tally.nonneg, attempts ▸ tally.count, ?_, ?_⟩
  · intro settled
    simp only [List.mem_cons, List.not_mem_nil, or_false] at finished
    rcases finished with was | was <;> simp [was] at settled
  · intro processing
    simp [processing] at finished

/-- A job whose attempt has ended, where the attempt has run. -/
theorem release (tally : Tally es j) (processing : j.status = .processing) (attempts : j'.attempts = j.attempts)
    (ran : ∀ e ∈ es.getLast?, e.stage.ran = true) (released : j'.status ≠ .processing) : Tally es j' := by
  obtain ⟨earlier, e, rows, before, last, -⟩ := tally.current processing
  refine ⟨attempts ▸ tally.nonneg, attempts ▸ tally.count, ?_, fun again => absurd again released⟩
  intro _ x mem
  rw [attempts, rows] at mem
  rcases List.mem_append.1 mem with mem | mem
  · exact before x mem
  · obtain rfl := List.mem_singleton.1 mem
    exact ran x last

/-- A lease. -/
theorem lease (tally : Tally es j) (waiting : j.status ∈ [.queued, .scheduled, .retrying]) {e : Execution}
    (attempts : j'.attempts = j.attempts + 1) (processing : j'.status = .processing)
    (holder : j'.lockedBy = some e.worker) (leased : e.stage = .leased) : Tally (es ++ [e]) j' := by
  have nonneg := tally.nonneg
  have count := tally.count
  have more : j'.attempts.toNat = j.attempts.toNat + 1 := by omega
  refine ⟨by omega, ?_, ?_, ?_⟩
  · rw [more, List.length_append]
    exact Nat.add_le_add_right count 1
  · intro settled
    simp [processing] at settled
  · intro _
    refine ⟨es.rtake j.attempts.toNat, e, ?_, ?_, List.getLast?_concat, holder, ?_, ?_⟩
    · rw [more, List.rtake_concat_succ]
    · apply tally.settled
      simp only [List.mem_cons, List.not_mem_nil, or_false] at waiting ⊢
      rcases waiting with was | was | was <;> simp [was]
    · simp [leased]
    · simp [leased]

/-- The executions go on: those that have run have run, and the one of the present lease does not give up. -/
theorem advance (tally : Tally es j) {f : Execution → Execution} (worker : ∀ e, (f e).worker = e.worker)
    (ran : ∀ e, e.stage.ran = true → (f e).stage.ran = true)
    (last : j.status = .processing → ∀ e, es.getLast? = some e → j.lockedBy = some e.worker → e.stage ≠ .lost →
      e.stage ≠ .skipped → (f e).stage ≠ .lost ∧ (f e).stage ≠ .skipped) : Tally (es.map f) j := by
  have tail : (es.map f).rtake j.attempts.toNat = (es.rtake j.attempts.toNat).map f := by
    rw [List.rtake, List.rtake, List.length_map, List.map_drop]
  refine ⟨tally.nonneg, by rw [List.length_map]; exact tally.count, ?_, ?_⟩
  · intro settled
    rw [tail]
    intro x mem
    obtain ⟨e, there, rfl⟩ := List.mem_map.1 mem
    exact ran e (tally.settled settled e there)
  · intro processing
    obtain ⟨earlier, e, rows, before, isLast, holder, notLost, notSkipped⟩ := tally.current processing
    obtain ⟨notLost', notSkipped'⟩ := last processing e isLast holder notLost notSkipped
    refine ⟨earlier.map f, f e, ?_, ?_, ?_, ?_, notLost', notSkipped'⟩
    · rw [tail, rows, List.map_append, List.map_singleton]
    · intro x mem
      obtain ⟨y, there, rfl⟩ := List.mem_map.1 mem
      exact ran y (before y there)
    · rw [List.getLast?_map, isLast, Option.map_some]
    · rw [worker]
      exact holder

end Tally

/-- A report that the execution failed. -/
def Call.isFailure : Call → Bool
  | .start (.failJob _ _ _ _) => true
  | _ => false

/-- What a unit that does not lease the row does to the tally, as long as a sweep
or a failure that takes the row out of processing finds its attempt run. -/
theorem RowStep.tally {env : Env} {db : Db} {id : Uuid} {c : Call} {p : Progress} {r r' : Option Job}
    {es : List Execution} (life : RowStep env db id c p r r') (other : (c.lease p).map (·.2.id) ≠ some id)
    (ran : c.isSweep = true ∨ c.isFailure = true → id ∈ c.written p →
      (∃ j, r = some j ∧ j.status = .processing ∧ (c.isSweep = true → Db.expired env j = true)) →
      ∀ e ∈ es.getLast?, e.stage.ran = true)
    (before : ∀ j, r = some j → Tally es j) : ∀ j', r' = some j' → Tally es j' := by
  rintro j' after
  cases life with
  | same => exact before j' after
  | @inserted s row eq =>
    obtain rfl := Option.some.inj after
    apply Tally.start
    · rw [eq]
      rfl
    · rw [eq]
      rcases s.sound.status with waiting | waiting <;> simp [waiting]
  | leased _ _ _ _ isId => exact absurd (congrArg some isId) other
  | @renewed _ secs j =>
    obtain rfl := Option.some.inj after
    exact (before j rfl).congr rfl rfl rfl
  | @completed _ _ j =>
    obtain rfl := Option.some.inj after
    exact (before j rfl).finish rfl (by simp)
  | @failed worker error timedOut j processing =>
    obtain rfl := Option.some.inj after
    have status := j.failUpdate_status env.now j error
    have released : (j.failUpdate env.now error j).status ≠ .processing := by
      intro again
      simp [again] at status
    refine (before j rfl).release processing (j.failUpdate_attempts env.now j error) ?_ released
    exact ran (.inr rfl) (List.mem_singleton_self id) ⟨j, rfl, processing, by simp [Call.isSweep]⟩
  | @cancelled j =>
    obtain rfl := Option.some.inj after
    exact (before j rfl).finish rfl (by simp)
  | requeued =>
    obtain rfl := Option.some.inj after
    exact .start rfl (by simp)
  | @expiredRetrying _ _ j taken expired =>
    obtain rfl := Option.some.inj after
    have processing := Db.processing_of_expired expired
    refine (before j rfl).release processing rfl ?_ (by simp)
    exact ran (.inl rfl) taken ⟨j, rfl, processing, fun _ => expired⟩
  | @expiredDeadLettered limit was ids j taken expired =>
    obtain rfl := Option.some.inj after
    have processing := Db.processing_of_expired expired
    refine (before j rfl).release processing rfl ?_ (by simp)
    refine ran (.inl rfl) ?_ ⟨j, rfl, processing, fun _ => expired⟩
    simpa only [Call.written, List.drop_left] using taken
  | @expiredFailed limit was ids j taken expired =>
    obtain rfl := Option.some.inj after
    have processing := Db.processing_of_expired expired
    refine (before j rfl).release processing rfl ?_ (by simp)
    refine ran (.inl rfl) ?_ ⟨j, rfl, processing, fun _ => expired⟩
    simpa only [Call.written, List.drop_left] using taken
  | purged => cases after

/-- A renewal that is refused finds the row with somebody else, or with nobody. -/
theorem Commit.not_held_of_refused {u : Commit} (keyed : Keyed Job.id u.db.jobs) {id worker : Uuid} {secs : Int}
    (renewal : u.call = .start (.renewLease id worker secs)) (refused : u.reply.isOk = false) {j : Job}
    (row : u.after.job? id = some j) (processing : j.status = .processing) : j.lockedBy ≠ some worker := by
  intro holder
  simp only [Commit.after, Commit.reply, renewal, Call.step, Db.job?_renewLease] at refused row
  obtain ⟨-, miss⟩ | ⟨hit, -⟩ := Db.renewLease_spec keyed u.env id worker secs
  · cases before : u.db.job? id with
    | none => simp [before] at row
    | some old =>
      have free := miss old (Db.job?_mem before)
      rw [before, Option.map_some, if_neg (by simp [free])] at row
      obtain rfl := Option.some.inj row
      have held : Db.heldBy id worker old = true := Db.heldBy_iff.2 ⟨Db.job?_id before, holder, processing⟩
      rw [free] at held
      cases held
  · simp [hit, Progress.isOk] at refused

/-! ## What goes wrong -/

namespace Fleet

variable (s : Fleet)

/-- The execution of the lease its job is under. -/
def Current (e : Execution) : Prop :=
  s.latest e.job.id = some e ∧ ∃ j ∈ s.sys.db.job? e.job.id, j.status = .processing

instance (e : Execution) : Decidable (s.Current e) := inferInstanceAs (Decidable (_ ∧ _))

/-- Every execution has begun its renewal by the time its lease expires. -/
def Timely : Prop :=
  ∀ e ∈ s.executions, e.stage = .leased → s.Current e →
    ∀ j ∈ s.sys.db.job? e.job.id, ∀ t ∈ j.leaseExpiresAt, s.sys.clock ≤ t

instance : Decidable s.Timely := inferInstanceAs (Decidable (∀ e ∈ s.executions, _))

/-- A lease reaches the worker and so does the answer to the renewal that follows,
before a sweep or an earlier execution's failure takes the attempt. -/
def Untroubled : Label → Prop
  | .commit i u lost =>
    (lost = true → u.lease = none ∧ ∀ e ∈ s.executions, e.stage = .renewing i → ¬ s.Current e) ∧
    (u.call.isSweep = true → ∀ id ∈ u.written, ∀ e ∈ s.latest id, e.stage.isRenewing = false) ∧
    (u.call.isFailure = true → ∀ id ∈ u.written, ∀ e ∈ s.latest id, e.stage ≠ .leased ∧ e.stage.isRenewing = false)
  | .stop i _ => ∀ e ∈ s.executions, e.stage = .renewing i → ¬ s.Current e
  | _ => True

instance (l : Label) : Decidable (s.Untroubled l) := by
  cases l <;> unfold Untroubled <;> infer_instance

end Fleet

/-! ## Renewals in flight -/

/-- The call an execution waits for is its renewal. -/
structure Fleet.Renewals (s : Fleet) : Prop where
  given : ∀ e ∈ s.executions, ∀ i, e.stage = .renewing i → i < s.sys.nextCall
  call : ∀ e ∈ s.executions, ∀ i, e.stage = .renewing i → ∀ c, s.sys.calls i = some c →
    c = .start (.renewLease e.job.id e.worker (coverSecs e.job))

namespace Fleet

variable {registry : Fleet.Registry} {s s' : Fleet} {l : Label}

theorem mem_move {which : Execution → Bool} {stage : Stage} {e : Execution} (mem : e ∈ s.move which stage) :
    e ∈ s.executions ∨ e.stage = stage := by
  obtain ⟨old, there, rfl⟩ := mem_updateWhere.1 mem
  split
  · exact .inr rfl
  · exact .inl there

theorem Renewals.kept (renewals : s.Renewals) (grown : s.sys.nextCall ≤ s'.sys.nextCall)
    (calls : ∀ k < s.sys.nextCall, ∀ c, s'.sys.calls k = some c →
      s.sys.calls k = some c ∨ ∃ u : Commit, s.sys.calls k = some u.call ∧ u.reply.pending = some c)
    (executions : ∀ e ∈ s'.executions, ∀ k, e.stage = .renewing k → e ∈ s.executions ∨ k < s'.sys.nextCall ∧
      s'.sys.calls k = some (.start (.renewLease e.job.id e.worker (coverSecs e.job)))) : s'.Renewals := by
  constructor
  · intro e mem k renewing
    obtain before | ⟨given, -⟩ := executions e mem k renewing
    · exact lt_of_lt_of_le (renewals.given e before k renewing) grown
    · exact given
  · intro e mem k renewing c inFlight
    obtain before | ⟨-, begun⟩ := executions e mem k renewing
    · obtain same | ⟨u, unit, pending⟩ := calls k (renewals.given e before k renewing) c inFlight
      · exact renewals.call e before k renewing c same
      · -- A renewal is a single statement, so nothing of it is left after its unit.
        have renewal := renewals.call e before k renewing u.call unit
        simp [Commit.reply, renewal, Call.step, Progress.pending] at pending
    · exact Option.some.inj (inFlight.symm.trans begun)

/-- An execution that is moved to another stage than a renewal leaves only the others waiting. -/
theorem moved_on {which : Execution → Bool} {stage : Stage} (other : ∀ k, stage ≠ .renewing k) :
    ∀ e ∈ s.move which stage, ∀ k, e.stage = .renewing k → e ∈ s.executions := by
  intro e mem k renewing
  rcases mem_move mem with before | moved
  · exact before
  · exact absurd (moved.symm.trans renewing) (other k)

theorem calls_begin {request : Request} :
    ∀ k < s.sys.nextCall, ∀ c, (s.sys.begin request).calls k = some c → s.sys.calls k = some c := by
  intro k given c inFlight
  rw [← inFlight]
  exact (s.sys.setCall_other _ (Nat.ne_of_lt given)).symm

section Commit

variable {i : Nat} {u : Commit} {lost : Bool}

/-- A commit takes its own call further and leaves the others in flight as they are. -/
theorem calls_commit (inFlight : s.sys.calls i = some u.call) :
    s.sys.nextCall ≤ (s.commit registry i u lost).sys.nextCall ∧
    ∀ k < s.sys.nextCall, ∀ c, (s.commit registry i u lost).sys.calls k = some c →
      s.sys.calls k = some c ∨ ∃ u : Commit, s.sys.calls k = some u.call ∧ u.reply.pending = some c := by
  have unit : ∀ k c, (s.sys.commit i u).calls k = some c →
      s.sys.calls k = some c ∨ ∃ u : Commit, s.sys.calls k = some u.call ∧ u.reply.pending = some c := by
    intro k c left
    by_cases same : k = i
    · subst same
      exact .inr ⟨u, inFlight, (s.sys.setCall_self _ _).symm.trans left⟩
    · exact .inl ((s.sys.setCall_other _ same).symm.trans left)
  obtain eq | ⟨request, eq⟩ := @commit_sys registry s i u lost
  · rw [eq]
    exact ⟨Nat.le_refl _, fun k _ c => unit k c⟩
  · rw [eq]
    refine ⟨Nat.le_succ _, ?_⟩
    intro k given c left
    apply unit k c
    rw [← left]
    exact (Sys.setCall_other _ _ (Nat.ne_of_lt given)).symm

/-- The executions that wait for their renewal after a commit did so before it. -/
theorem renewing_commit : ∀ e ∈ (s.commit registry i u lost).executions, ∀ k, e.stage = .renewing k →
    e ∈ s.executions := by
  intro e mem k renewing
  cases lease : u.lease with
  | none =>
    obtain same | ⟨-, stage, moved, other, -⟩ := @commit_other registry s i u lost lease
    · rw [same] at mem
      exact mem
    · rw [moved] at mem
      exact moved_on other e mem k renewing
  | some leased =>
    rw [commit_lease lease] at mem
    rcases List.mem_append.1 mem with before | new
    · exact before
    · obtain rfl := List.mem_singleton.1 new
      cases lost <;> cases renewing

end Commit

theorem Step.renewals (renewals : s.Renewals) (step : Step registry s l s') : s'.Renewals := by
  cases step with
  | tick later => exact ⟨renewals.given, renewals.call⟩
  | reorder same => exact ⟨renewals.given, renewals.call⟩
  | begin outside =>
    apply renewals.kept (Nat.le_succ _)
    · intro k given c inFlight
      exact .inl (calls_begin k given c inFlight)
    · intro e mem k _
      exact .inl mem
  | @renew e there leased =>
    apply renewals.kept (Nat.le_succ _)
    · intro k given c inFlight
      exact .inl (calls_begin k given c inFlight)
    · intro x mem k renewing
      obtain ⟨old, before, rfl⟩ := mem_updateWhere.1 mem
      split at renewing
      · rename_i same
        obtain rfl := of_decide_eq_true same
        obtain rfl := Stage.renewing.inj renewing
        rw [if_pos same]
        exact .inr ⟨Nat.lt_succ_self _, s.sys.setCall_self _ _⟩
      · rename_i other
        rw [if_neg other]
        exact .inl before
  | report outcome there handling =>
    apply renewals.kept (Nat.le_succ _)
    · intro k given c inFlight
      exact .inl (calls_begin k given c inFlight)
    · intro e mem k renewing
      exact .inl (moved_on (by simp) e mem k renewing)
  | commit inFlight on now fresh last =>
    obtain ⟨grown, calls⟩ := calls_commit inFlight
    apply renewals.kept grown calls
    intro e mem k renewing
    exact .inl (renewing_commit e mem k renewing)
  | @stop i c inFlight =>
    apply @Renewals.kept s (s.stop i) renewals (Nat.le_refl _)
    · intro k given c' left
      by_cases same : k = i
      · subst same
        cases (s.sys.setCall_self _ _).symm.trans left
      · exact .inl ((s.sys.setCall_other _ same).symm.trans left)
    · intro e mem k renewing
      exact .inl (moved_on (by simp) e mem k renewing)

end Fleet

/-! ## The tallies of all jobs -/

/-- What the executions of every job say about its row. -/
structure Fleet.Tallied (s : Fleet) : Prop where
  renewals : s.Renewals
  tally : ∀ id j, s.sys.db.job? id = some j → Tally (s.ofJob id) j

namespace Fleet

variable {registry : Fleet.Registry} {s s' : Fleet} {l : Label}

theorem latest_mem {id : Uuid} {e : Execution} (last : s.latest id = some e) : e ∈ s.executions ∧ e.job.id = id := by
  obtain ⟨there, ofJob⟩ := List.mem_filter.1 (List.mem_of_getLast? last)
  exact ⟨there, of_decide_eq_true ofJob⟩

theorem ofJob_move (sys : Sys) (which : Execution → Bool) (stage : Stage) (id : Uuid) :
    (Fleet.mk sys (s.move which stage)).ofJob id =
      (s.ofJob id).map fun e => if which e then { e with stage := stage } else e :=
  filter_updateWhere fun _ => rfl

/-- A job's executions after some have moved on: what has run stays so, and the
execution of the present lease is neither lost nor skipped. -/
theorem tally_move {sys : Sys} {which : Execution → Bool} {stage : Stage} {id : Uuid} {j : Job}
    (tally : Tally (s.ofJob id) j) (ran : ∀ e, which e = true → e.stage.ran = true → stage.ran = true)
    (last : j.status = .processing → ∀ e, s.latest id = some e → which e = true → j.lockedBy = some e.worker →
      stage ≠ .lost ∧ stage ≠ .skipped) :
    Tally ((Fleet.mk sys (s.move which stage)).ofJob id) j := by
  rw [ofJob_move]
  apply tally.advance
  · intro e
    split <;> rfl
  · intro e had
    split
    · rename_i selected
      exact ran e selected had
    · exact had
  · intro processing e isLast holder notLost notSkipped
    split
    · rename_i selected
      exact last processing e isLast selected holder
    · exact ⟨notLost, notSkipped⟩

section Commit

variable {i : Nat} {u : Commit} {lost : Bool} {id : Uuid} {j : Job}

/-- A unit's effect on the rows it does not lease. -/
theorem Tallied.row (tallied : s.Tallied) (sound : s.sys.Sound) (timely : s.Timely)
    (untroubled : s.Untroubled (.commit i u lost)) (on : u.db = s.sys.db) (now : u.env.now = s.sys.clock)
    (fresh : u.env.uuid ∉ s.sys.issued) (other : u.lease.map (·.2.id) ≠ some id)
    (row : u.after.job? id = some j) : Tally (s.ofJob id) j := by
  obtain ⟨-, sweep, failure⟩ := untroubled
  refine (sound.row_step on fresh id).tally other ?_ (tallied.tally id) j row
  rintro takes written ⟨old, before, processing, expired⟩ e isLast
  obtain ⟨-, e', -, -, isLast', -, notLost, notSkipped⟩ := (tallied.tally id old before).current processing
  obtain rfl := Option.some.inj (isLast.symm.trans isLast')
  obtain ⟨there, rfl⟩ := latest_mem isLast
  have waiting : e.stage ≠ .leased ∧ e.stage.isRenewing = false := by
    rcases takes with isSweep | isFailure
    · refine ⟨?_, sweep isSweep e.job.id written e isLast⟩
      -- The lease has expired, so the execution has begun its renewal.
      intro leased
      obtain ⟨t, lease, past⟩ := (of_decide_eq_true (expired isSweep)).2.1
      have inTime := timely e there leased ⟨isLast, old, before, processing⟩ old before t lease
      omega
    · exact failure isFailure e.job.id written e isLast
  cases stage : e.stage with
  | lost => exact absurd stage notLost
  | leased => exact absurd stage waiting.1
  | renewing i => simp [stage, Stage.isRenewing] at waiting
  | skipped => exact absurd stage notSkipped
  | handling => rfl
  | reported i => rfl

/-- The answer to a renewal: the execution of the present lease is not told to give up. -/
theorem Tallied.answered (tallied : s.Tallied) (sound : s.sys.Sound) (untroubled : s.Untroubled (.commit i u lost))
    (inFlight : s.sys.calls i = some u.call) (on : u.db = s.sys.db) (fresh : u.env.uuid ∉ s.sys.issued)
    (noLease : u.lease = none) (row : u.after.job? id = some j) (kept : Tally (s.ofJob id) j) :
    Tally ((s.commit registry i u lost).ofJob id) j := by
  obtain same | ⟨-, stage, moved, -, answer⟩ := @commit_other registry s i u lost noLease
  · rw [ofJob, same]
    exact kept
  · rw [ofJob, moved]
    apply @tally_move s (s.commit registry i u lost).sys _ stage id j kept
    · intro x waits had
      simp [of_decide_eq_true waits, Stage.ran] at had
    · intro processing x isLast waits holder
      have renewing := of_decide_eq_true waits
      obtain ⟨there, rfl⟩ := latest_mem isLast
      constructor
      · rintro rfl
        simp [Stage.ran] at answer
      · rintro rfl
        obtain ⟨-, gone | refused⟩ | ran := answer
        · have other : u.lease.map (·.2.id) ≠ some x.job.id := by simp [noLease]
          obtain ⟨old, before, was, -⟩ := (sound.row_step on fresh x.job.id).processing other row processing
          exact (untroubled.1 gone).2 x there renewing ⟨isLast, old, before, was⟩
        · have renewal := tallied.renewals.call x there i renewing u.call inFlight
          exact u.not_held_of_refused (on ▸ sound.keyed) renewal refused row processing holder
        · cases ran

/-- A lease that reaches its worker. -/
theorem Tallied.leased (tallied : s.Tallied) (sound : s.sys.Sound) (on : u.db = s.sys.db)
    (fresh : u.env.uuid ∉ s.sys.issued) {worker : Uuid} {job : Job} (lease : u.lease = some (worker, job))
    (row : u.after.job? id = some j) (others : job.id ≠ id → Tally (s.ofJob id) j) :
    Tally ((s.commit registry i u false).ofJob id) j := by
  rw [commit_lease lease]
  show Tally ((s.executions ++ [_]).filter _) j
  rw [List.filter_append, List.filter_singleton]
  by_cases isId : job.id = id
  · obtain ⟨old, secs, before, after, eq, waiting, -⟩ := (sound.row_step on fresh id).of_lease lease isId
    obtain rfl := Option.some.inj (after.symm.trans row)
    simp only [isId, decide_true, cond_true]
    apply (tallied.tally id old before).lease waiting
    · rw [eq]
      rfl
    · rw [eq]
      rfl
    · rw [eq]
      rfl
    · rfl
  · simp only [isId, decide_false, cond_false, List.append_nil]
    exact others isId

end Commit

/-- **One step.** -/
theorem Tallied.step (tallied : s.Tallied) (sound : s.sys.Sound) (timely : s.Timely) (untroubled : s.Untroubled l)
    (step : Step registry s l s') : s'.Tallied := by
  refine ⟨step.renewals tallied.renewals, ?_⟩
  cases step with
  | tick later => exact tallied.tally
  | reorder same =>
    intro id j row
    exact tallied.tally id j ((sound.keyed.lookup_perm same).symm.trans row)
  | begin outside => exact tallied.tally
  | @renew e there leased =>
    intro id j row
    apply tally_move (tallied.tally id j row)
    · intro x same had
      obtain rfl := of_decide_eq_true same
      simp [leased, Stage.ran] at had
    · intro _ x _ _ _
      simp
  | report outcome there handling =>
    intro id j row
    apply tally_move (tallied.tally id j row)
    · intro x _ _
      rfl
    · intro _ x _ _ _
      simp
  | @commit i u lost inFlight on now fresh last =>
    intro id j row
    rw [commit_db] at row
    cases lease : u.lease with
    | none =>
      have other : u.lease.map (·.2.id) ≠ some id := by simp [lease]
      have kept := tallied.row sound timely untroubled on now fresh other row
      exact tallied.answered sound untroubled inFlight on fresh lease row kept
    | some leased =>
      cases lost with
      | true => cases lease.symm.trans (untroubled.1 rfl).1
      | false =>
        apply tallied.leased sound on fresh lease row
        intro isOther
        exact tallied.row sound timely untroubled on now fresh (by simp [lease, isOther]) row
  | @stop i c inFlight =>
    intro id j row
    apply tally_move (tallied.tally id j row)
    · intro x waits had
      simp [of_decide_eq_true waits, Stage.ran] at had
    · intro processing x isLast waits _
      obtain ⟨there, rfl⟩ := latest_mem isLast
      exact absurd ⟨isLast, j, row, processing⟩ (untroubled x there (of_decide_eq_true waits))

/-- **Every run.** -/
theorem tallied_of_run {t : Int} {ls : List Label}
    (run : Run (Restrict (fun s l => s.Timely ∧ s.Untroubled l) (Step registry)) (Fleet.init t) ls s) :
    s.Tallied := by
  induction run with
  | nil =>
    refine ⟨⟨?_, ?_⟩, ?_⟩
    · intro e mem
      exact absurd mem List.not_mem_nil
    · intro e mem
      exact absurd mem List.not_mem_nil
    · intro id j row
      exact absurd (Db.job?_mem row) List.not_mem_nil
  | snoc before last ih => exact ih.step (sound_of_run before.unrestrict) last.1.1 last.1.2 last.2

end Fleet

/-! ## The claim -/

/-- No attempt is burnt without running, as long as every execution begins its
renewal in time. -/
def NoAttemptBurnt : Prop :=
  ∀ (registry : Fleet.Registry) (t : Int) (ls : List Fleet.Label) (s : Fleet),
    Run (Restrict (fun s _ => s.Timely) (Fleet.Step registry)) (Fleet.init t) ls s →
    ∀ j ∈ s.sys.db.jobs, j.status ∈ [.failed, .deadLettered] → ∀ e ∈ s.consumed j, e.stage.ran = true

namespace Fleet

/-- A job with one attempt is submitted and leased, and its execution begins the renewal. -/
def renewScript : List Action :=
  [.begin (.submit (.sample 1 none NewJob.sample_once)), .commit 0 1007, .commit 0 2007, .commit 0 7,
    .begin (.leaseNext 1 ["emails"] 60), .commit 1 3001, .renew 1]

/-- The renewal returns `Storage`, and the reaper comes when the lease has expired. -/
def burntScript : List Action :=
  renewScript ++ [.stop 2, .tick 61000000, .begin (.recoverExpiredLeases 100), .commit 3 3003, .commit 3 3004]

/-- The renewal is accepted and the handler fails. -/
def ranScript : List Action := renewScript ++ [.commit 2 3002, .report 1 (.failure "boom"), .commit 3 3003]

end Fleet

/-- One transient error between the worker and its store is enough: the attempt
is given up without running, and counted when the lease expires. -/
theorem not_noAttemptBurnt : ¬ NoAttemptBurnt := by
  intro ran
  have run := @outcome_run _ _ _ (guarded (fun s _ => s.Timely) (Fleet.act fun _ _ => true)) _
    (guarded_step (Fleet.act_step fun _ _ => true)) (.init 0) Fleet.burntScript (by decide)
  have skipped := ran _ 0 _ _ run _ List.mem_cons_self (by decide) _ List.mem_cons_self
  exact absurd skipped (by decide)

/-- **Consumed attempts have run.** As long as each lease reaches its worker and
the renewal after it is answered while the worker still has the job, the attempts
of a job that has failed for good are executions whose handler was invoked, or
that reported that there is none. -/
theorem no_attempt_burnt {registry : Fleet.Registry} {t : Int} {ls : List Fleet.Label} {s : Fleet}
    (run : Run (Restrict (fun s l => s.Timely ∧ s.Untroubled l) (Fleet.Step registry)) (Fleet.init t) ls s)
    {j : Job} (mem : j ∈ s.sys.db.jobs) (ended : j.status ∈ [.failed, .deadLettered]) :
    (s.consumed j).length = j.attempts.toNat ∧ ∀ e ∈ s.consumed j, e.stage.ran = true := by
  have sound := Fleet.sound_of_run run.unrestrict
  have tally := (Fleet.tallied_of_run run).tally j.id j (sound.keyed.lookup_self mem)
  constructor
  · have count := tally.count
    rw [Fleet.consumed, List.rtake, List.length_drop]
    omega
  · apply tally.settled
    simp only [List.mem_cons, List.not_mem_nil, or_false] at ended ⊢
    rcases ended with was | was <;> simp [was]

theorem no_attempt_burnt_failed : ∃ s : Fleet, ∃ j ∈ s.sys.db.jobs, j.status = .deadLettered ∧
    (s.consumed j).length = j.attempts.toNat ∧ ∀ e ∈ s.consumed j, e.stage.ran = true := by
  have run := @outcome_run _ _ _ (guarded (fun s l => s.Timely ∧ s.Untroubled l) (Fleet.act fun _ _ => true)) _
    (guarded_step (Fleet.act_step fun _ _ => true)) (.init 0) Fleet.ranScript (by decide)
  exact ⟨_, _, List.mem_cons_self, by decide, no_attempt_burnt run List.mem_cons_self (by decide)⟩

end Djq
