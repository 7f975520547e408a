import Djq.System.Phases
import Djq.Worker.Provenance

/-!
# One execution after the other

While nobody but its workers ends the attempts of a job, its executions take turns:
a lease waits for the report of the one before, so a report on the job is always
that of the attempt the row is at.
-/

namespace Djq

open Relational Transition

namespace Fleet

variable {registry : Registry} {s s' : Fleet} {ls : List Label} {l : Label} {id : Uuid}

/-- An execution that may yet report, or whose report is yet to be committed. -/
def Live (s : Fleet) (e : Execution) : Prop :=
  e.stage = .leased ∨ e.stage.isRenewing = true ∨ e.stage = .handling ∨
    ∃ i request, e.stage = .reported i ∧ s.sys.calls i = some (.start request)

/-- The job a report is on. -/
def reportOn : Call → Option Uuid
  | .start (.completeJob id _ _) => some id
  | .start (.failJob id _ _ _) => some id
  | _ => none

/-- The executions of a job, and their reports, while nobody but its workers ends its attempts. -/
structure InTurn (registry : Registry) (ls : List Label) (s : Fleet) (id : Uuid) : Prop where
  numbered : (s.ofJob id).Pairwise fun a b => a.job.attempts < b.job.attempts
  reached : ∀ e ∈ s.ofJob id, ∀ j, s.sys.db.job? id = some j → e.job.attempts ≤ j.attempts
  live : ∀ e ∈ s.ofJob id, s.Live e → ∀ j, s.sys.db.job? id = some j →
    j.status = .processing ∧ e.job.attempts = j.attempts
  given : ∀ e ∈ s.executions, ∀ i, e.stage = .reported i → i < s.sys.nextCall
  reporter : ∀ i c, s.sys.calls i = some c → reportOn c = some id → ∃ e ∈ s.ofJob id, ∃ outcome,
    e.stage = .reported i ∧ c = .start (reportOutcome e.job e.worker outcome) ∧
      Reported registry ls e.worker e.job outcome

theorem not_start_of_pending {u : Commit} {request : Request} : u.reply.pending ≠ some (.start request) := by
  intro pending
  cases reply : u.reply with
  | done result =>
    rw [reply] at pending
    cases pending
  | next c =>
    rw [reply] at pending
    obtain rfl := Option.some.inj pending
    exact Commit.not_start reply

/-- A call that is at its start was so before. -/
theorem Step.starts (step : Step registry s l s') :
    ∀ i < s.sys.nextCall, ∀ request, s'.sys.calls i = some (.start request) → s.sys.calls i = some (.start request) := by
  intro i given request start
  cases step with
  | tick => exact start
  | reorder => exact start
  | begin => exact calls_begin i given _ start
  | renew => exact calls_begin i given _ start
  | report => exact calls_begin i given _ start
  | commit inFlight =>
    obtain same | ⟨u, -, pending⟩ := (calls_commit inFlight).2 i given _ start
    · exact same
    · exact absurd pending not_start_of_pending
  | @stop k =>
    by_cases this : i = k
    · subst this
      cases (s.sys.setCall_self _ _).symm.trans start
    · exact (s.sys.setCall_other _ this).symm.trans start

theorem Step.nextCall (step : Step registry s l s') : s.sys.nextCall ≤ s'.sys.nextCall := by
  cases step with
  | begin => exact Nat.le_succ _
  | renew => exact Nat.le_succ _
  | report => exact Nat.le_succ _
  | commit inFlight => exact (calls_commit inFlight).1
  | _ => exact Nat.le_refl _

theorem mem_ofJob {e : Execution} : e ∈ s.ofJob id ↔ e ∈ s.executions ∧ e.job.id = id := by
  rw [ofJob, List.mem_filter, decide_eq_true_eq]

/-- Executions that go on, where those that have reported stay as they are. -/
theorem InTurn.carry (turn : InTurn registry ls s id) (more : ls ⊆ ls ++ [l]) {g : Execution → Execution}
    (same : ∀ e, (g e).job = e.job ∧ (g e).worker = e.worker) (keeps : ∀ e i, e.stage = .reported i → g e = e)
    (executions : s'.ofJob id = (s.ofJob id).map g)
    (row : ∀ j', s'.sys.db.job? id = some j' → ∃ j, s.sys.db.job? id = some j ∧ j'.attempts = j.attempts)
    (live : ∀ e ∈ s.ofJob id, s'.Live (g e) → s.Live e ∧ ∀ j j', s.sys.db.job? id = some j →
      s'.sys.db.job? id = some j' → j.status = .processing → j'.status = .processing)
    (given : ∀ e ∈ s'.executions, ∀ i, e.stage = .reported i → i < s'.sys.nextCall)
    (calls : ∀ i c, s'.sys.calls i = some c → reportOn c = some id → s.sys.calls i = some c ∨
      ∃ e ∈ s'.ofJob id, ∃ outcome, e.stage = .reported i ∧ c = .start (reportOutcome e.job e.worker outcome) ∧
        Reported registry (ls ++ [l]) e.worker e.job outcome) : InTurn registry (ls ++ [l]) s' id := by
  constructor
  · rw [executions, List.pairwise_map]
    apply turn.numbered.imp
    intro a b less
    rw [(same a).1, (same b).1]
    exact less
  · intro e mem j' after
    rw [executions] at mem
    obtain ⟨old, there, rfl⟩ := List.mem_map.1 mem
    obtain ⟨j, before, attempts⟩ := row j' after
    rw [(same old).1, attempts]
    exact turn.reached old there j before
  · intro e mem alive j' after
    rw [executions] at mem
    obtain ⟨old, there, rfl⟩ := List.mem_map.1 mem
    obtain ⟨j, before, attempts⟩ := row j' after
    obtain ⟨was, stays⟩ := live old there alive
    obtain ⟨processing, current⟩ := turn.live old there was j before
    rw [(same old).1, attempts]
    exact ⟨stays j j' before after processing, current⟩
  · exact given
  · intro i c inFlight on
    obtain before | new := calls i c inFlight on
    · obtain ⟨e, there, outcome, stage, call, reported⟩ := turn.reporter i c before on
      refine ⟨e, ?_, outcome, stage, call, reported.mono more⟩
      rw [executions, ← keeps e i stage]
      exact List.mem_map_of_mem there
    · exact new

theorem start_of_reportOn {c : Call} (on : reportOn c = some id) : ∃ request, c = .start request := by
  unfold reportOn at on
  split at on
  · exact ⟨_, rfl⟩
  · exact ⟨_, rfl⟩
  · cases on

theorem reportOn_report (job : Job) (worker : Uuid) (outcome : ExecutionOutcome) :
    reportOn (.start (reportOutcome job worker outcome)) = some job.id := by
  cases outcome with
  | _ => rfl

/-- How the executions go on in a step that leases nothing. -/
structure Advance (s s' : Fleet) (g : Execution → Execution) : Prop where
  executions : s'.executions = s.executions.map g
  same : ∀ e, (g e).job = e.job ∧ (g e).worker = e.worker
  keeps : ∀ e i, e.stage = .reported i → g e = e
  live : ∀ e ∈ s.executions, s'.Live (g e) → s.Live e
  given : ∀ e ∈ s.executions, ∀ i, (g e).stage = .reported i → i < s'.sys.nextCall

/-- An execution that stays as it is was live if it is. -/
theorem live_of_step (step : Step registry s l s') (given : ∀ e ∈ s.executions, ∀ i, e.stage = .reported i → i < s.sys.nextCall)
    {e : Execution} (mem : e ∈ s.executions) (alive : s'.Live e) : s.Live e := by
  obtain leased | renewing | handling | ⟨i, request, stage, call⟩ := alive
  · exact .inl leased
  · exact .inr (.inl renewing)
  · exact .inr (.inr (.inl handling))
  · exact .inr (.inr (.inr ⟨i, request, stage, step.starts i (given e mem i stage) request call⟩))

theorem advance_none (step : Step registry s l s') (given : ∀ e ∈ s.executions, ∀ i, e.stage = .reported i → i < s.sys.nextCall)
    (executions : s'.executions = s.executions) : Advance s s' fun e => e := by
  constructor
  · rw [executions, List.map_id']
  · exact fun e => ⟨rfl, rfl⟩
  · exact fun e i _ => rfl
  · exact fun e mem alive => live_of_step step given mem alive
  · exact fun e mem i stage => Nat.lt_of_lt_of_le (given e mem i stage) step.nextCall

/-- Executions that have not reported move on. -/
theorem advance_move (step : Step registry s l s') (given : ∀ e ∈ s.executions, ∀ i, e.stage = .reported i → i < s.sys.nextCall)
    {which : Execution → Bool} {stage : Stage} (executions : s'.executions = s.move which stage)
    (selects : ∀ e, which e = true → e.stage = .leased ∨ e.stage.isRenewing = true ∨ e.stage = .handling)
    (free : ∀ i, stage = .reported i → i < s'.sys.nextCall) :
    Advance s s' fun e => if which e then { e with stage := stage } else e := by
  constructor
  · exact executions
  · intro e
    split <;> exact ⟨rfl, rfl⟩
  · intro e i reported
    split
    · rename_i selected
      rcases selects e selected with is | is | is <;> simp [reported, Stage.isRenewing] at is
    · rfl
  · intro e mem alive
    split at alive
    · rename_i selected
      rcases selects e selected with is | is | is
      · exact .inl is
      · exact .inr (.inl is)
      · exact .inr (.inr (.inl is))
    · exact live_of_step step given mem alive
  · intro e mem i reported
    split at reported
    · exact free i reported
    · exact Nat.lt_of_lt_of_le (given e mem i reported) step.nextCall

/-- The ways a unit that leases nothing is answered. -/
theorem commit_answer {i : Nat} {u : Commit} {lost : Bool} (noLease : u.lease = none) :
    s.commit registry i u lost = ⟨s.sys.commit i u, s.executions⟩ ∨
    (∃ stage, (∀ k, stage ≠ .reported k) ∧
      s.commit registry i u lost = ⟨s.sys.commit i u, s.move (fun e => decide (e.stage = .renewing i)) stage⟩) ∨
    ∃ e ∈ s.executions, e.stage = .renewing i ∧ registry e.worker e.job.jobType = false ∧
      s.commit registry i u lost = ⟨(s.sys.commit i u).begin (reportOutcome e.job e.worker (noHandler e.job)),
        s.move (fun e => decide (e.stage = .renewing i)) (.reported s.sys.nextCall)⟩ := by
  unfold commit
  rw [noLease]
  simp only
  cases found : s.executions.find? fun e => decide (e.stage = .renewing i) with
  | none => exact .inl rfl
  | some e =>
    refine .inr ?_
    simp only
    split
    · exact .inl ⟨.skipped, by simp, rfl⟩
    · split
      · exact .inl ⟨.handling, by simp, rfl⟩
      · rename_i missing
        have renewing := List.find?_some found
        rw [decide_eq_true_eq] at renewing
        exact .inr ⟨e, List.mem_of_find?_eq_some found, renewing, Bool.eq_false_iff.2 missing, rfl⟩

theorem Step.advance (step : Step registry s l s') (given : ∀ e ∈ s.executions, ∀ i, e.stage = .reported i → i < s.sys.nextCall)
    (noLease : ∀ i u lost, l = .commit i u lost → u.lease = none) : ∃ g, Advance s s' g := by
  have renewing : ∀ i : Nat, ∀ e : Execution, decide (e.stage = .renewing i) = true →
      e.stage = .leased ∨ e.stage.isRenewing = true ∨ e.stage = .handling := by
    intro i e selected
    rw [of_decide_eq_true selected]
    exact .inr (.inl rfl)
  have moves := step
  cases step with
  | tick => exact ⟨_, advance_none moves given rfl⟩
  | reorder => exact ⟨_, advance_none moves given rfl⟩
  | begin => exact ⟨_, advance_none moves given rfl⟩
  | renew there leased =>
    refine ⟨_, advance_move moves given rfl ?_ (by simp)⟩
    intro e selected
    rw [of_decide_eq_true selected]
    exact .inl leased
  | report outcome there handling =>
    refine ⟨_, advance_move moves given rfl ?_ ?_⟩
    · intro e selected
      rw [of_decide_eq_true selected]
      exact .inr (.inr handling)
    · intro i stage
      obtain rfl := Stage.reported.inj stage
      exact Nat.lt_succ_self _
  | @commit i u lost =>
    have lease := noLease i u lost rfl
    obtain same | ⟨stage, silent, moved⟩ | ⟨e, -, -, -, moved⟩ := @commit_answer registry s i u lost lease
    · exact ⟨_, advance_none moves given (by rw [same])⟩
    · exact ⟨_, advance_move moves given (by rw [moved]) (renewing i) fun k is => absurd is (silent k)⟩
    · refine ⟨_, advance_move moves given (by rw [moved]) (renewing i) ?_⟩
      intro k is
      obtain rfl := Stage.reported.inj is
      rw [moved]
      exact Nat.lt_succ_self _
  | stop => exact ⟨_, advance_move moves given rfl (renewing _) (by simp)⟩

/-- The reports in flight after a step: those before, and one of an execution that has just come to it. -/
theorem Step.reports (accountable : Accountable registry ls s) (step : Step registry s l s') :
    ∀ i c, s'.sys.calls i = some c → reportOn c = some id → s.sys.calls i = some c ∨
      ∃ e ∈ s'.ofJob id, ∃ outcome, e.stage = .reported i ∧ c = .start (reportOutcome e.job e.worker outcome) ∧
        Reported registry (ls ++ [l]) e.worker e.job outcome := by
  have more : ls ⊆ ls ++ [l] := List.subset_append_left _ _
  have unit : ∀ {i k : Nat} {u : Commit} {c}, (s.sys.commit i u).calls k = some c → reportOn c = some id →
      s.sys.calls k = some c := by
    intro i k u c inFlight on
    by_cases this : k = i
    · subst this
      have pending : u.reply.pending = some c := (s.sys.setCall_self _ _).symm.trans inFlight
      obtain ⟨request, rfl⟩ := start_of_reportOn on
      exact absurd pending not_start_of_pending
    · exact (s.sys.setCall_other _ this).symm.trans inFlight
  intro i c inFlight on
  cases step with
  | tick => exact .inl inFlight
  | reorder => exact .inl inFlight
  | @begin request outside =>
    by_cases new : i = s.sys.nextCall
    · subst new
      obtain rfl : .start request = c := Option.some.inj ((s.sys.setCall_self _ _).symm.trans inFlight)
      cases request with
      | completeJob => cases outside
      | failJob => cases outside
      | _ => cases on
    · exact .inl ((s.sys.setCall_other _ new).symm.trans inFlight)
  | renew =>
    by_cases new : i = s.sys.nextCall
    · subst new
      obtain rfl := Option.some.inj ((s.sys.setCall_self _ _).symm.trans inFlight)
      cases on
    · exact .inl ((s.sys.setCall_other _ new).symm.trans inFlight)
  | @report e outcome there handling =>
    by_cases new : i = s.sys.nextCall
    · subst new
      obtain rfl := Option.some.inj ((s.sys.setCall_self _ _).symm.trans inFlight)
      rw [reportOn_report] at on
      refine .inr ⟨{ e with stage := .reported s.sys.nextCall }, ?_, outcome, rfl, rfl, ?_⟩
      · rw [mem_ofJob]
        exact ⟨mem_updateWhere.2 ⟨e, there, if_pos (decide_eq_true rfl)⟩, Option.some.inj on⟩
      · exact @Reported.handled _ _ _ _ e _ ((accountable.leased e there).mono more) (by simp) rfl rfl
    · exact .inl ((s.sys.setCall_other _ new).symm.trans inFlight)
  | @commit k u lost =>
    cases lease : u.lease with
    | some leased =>
      rw [commit_lease lease] at inFlight
      exact .inl (unit inFlight on)
    | none =>
      obtain same | ⟨stage, -, same⟩ | ⟨e, there, renewing, missing, same⟩ := @commit_answer registry s k u lost lease
      · rw [same] at inFlight
        exact .inl (unit inFlight on)
      · rw [same] at inFlight
        exact .inl (unit inFlight on)
      · rw [same] at inFlight ⊢
        by_cases new : i = s.sys.nextCall
        · subst new
          obtain rfl := Option.some.inj ((Sys.setCall_self _ _ _).symm.trans inFlight)
          rw [reportOn_report] at on
          refine .inr ⟨{ e with stage := .reported s.sys.nextCall }, ?_, noHandler e.job, rfl, rfl, ?_⟩
          · rw [mem_ofJob]
            exact ⟨mem_updateWhere.2 ⟨e, there, if_pos (decide_eq_true renewing)⟩, Option.some.inj on⟩
          · exact .unhandled ((accountable.leased e there).mono more) missing
        · exact .inl (unit ((Sys.setCall_other _ _ new).symm.trans inFlight) on)
  | @stop k =>
    by_cases this : i = k
    · subst this
      cases (s.sys.setCall_self _ _).symm.trans inFlight
    · exact .inl ((s.sys.setCall_other _ this).symm.trans inFlight)

/-- A call is past its start once it has committed. -/
theorem commit_ended {i : Nat} {u : Commit} {lost : Bool} {request : Request} (given : i < s.sys.nextCall) :
    (s.commit registry i u lost).sys.calls i ≠ some (.start request) := by
  intro start
  obtain eq | ⟨request', eq⟩ := @commit_sys registry s i u lost
  · rw [eq] at start
    exact not_start_of_pending ((s.sys.setCall_self _ _).symm.trans start)
  · rw [eq] at start
    have other := (Sys.setCall_other (s.sys.commit i u) _ (Nat.ne_of_lt given)).symm.trans start
    exact not_start_of_pending ((s.sys.setCall_self _ _).symm.trans other)

/-- Nobody but its workers ends the attempts of the job `id`. -/
def LeftAlone (id : Uuid) : Label → Prop
  | .commit _ u _ =>
    id ∈ u.written → u.call.isSweep = false ∧ u.call.isRetry = false ∧ u.call.isCancel = false
  | _ => True

instance (id : Uuid) : DecidablePred (LeftAlone id)
  | .commit .. => inferInstanceAs (Decidable (_ ∈ _ → _))
  | .tick _ | .begin .. | .stop .. | .report .. | .renew .. | .reorder => isTrue trivial

/-- What a unit does to the row of a job left to its workers, if it does not lease it. -/
theorem row_alone {env : Env} {db : Db} {c : Call} {p : Progress} {r r' : Option Job}
    (life : RowStep env db id c p r r') (other : (c.lease p).map (·.2.id) ≠ some id)
    (alone : id ∈ c.written p → c.isSweep = false ∧ c.isRetry = false ∧ c.isCancel = false) :
    (∀ j', r' = some j' → ∃ j, r = some j ∧ j'.attempts = j.attempts ∧
      (j.status = .processing → j'.status = .processing)) ∨
    (reportOn c = some id ∧ ∃ j j', r = some j ∧ r' = some j' ∧ j.status = .processing ∧ j'.attempts = j.attempts) ∨
    (r = none ∧ id = env.uuid) := by
  cases life with
  | same => exact .inl fun j' row => ⟨j', row, rfl, fun processing => processing⟩
  | inserted row isId =>
    rw [row] at isId
    exact .inr (.inr ⟨rfl, isId.symm⟩)
  | leased _ _ _ _ isId => exact absurd (congrArg some isId) other
  | renewed processing =>
    refine .inl fun j' row => ⟨_, rfl, ?_⟩
    obtain rfl := Option.some.inj row
    exact ⟨rfl, fun _ => processing⟩
  | completed processing => exact .inr (.inl ⟨rfl, _, _, rfl, rfl, processing, rfl⟩)
  | failed processing =>
    exact .inr (.inl ⟨rfl, _, _, rfl, rfl, processing, Job.failUpdate_attempts env.now _ _ _⟩)
  | cancelled => cases (alone (List.mem_singleton_self id)).2.2
  | requeued => cases (alone (List.mem_singleton_self id)).2.1
  | expiredRetrying taken => cases (alone taken).1
  | expiredDeadLettered taken =>
    simp only [Call.written, List.drop_left] at alone
    cases (alone taken).1
  | expiredFailed taken =>
    simp only [Call.written, List.drop_left] at alone
    cases (alone taken).1
  | purged =>
    refine .inl fun j' row => ?_
    cases row

/-- Two executions of a job with the same attempt number are one. -/
theorem InTurn.unique (turn : InTurn registry ls s id) {e e' : Execution} (mem : e ∈ s.ofJob id) (mem' : e' ∈ s.ofJob id)
    (same : e.job.attempts = e'.job.attempts) : e = e' := by
  have numbers : ((s.ofJob id).map fun e => e.job.attempts).Nodup := by
    rw [List.Nodup, List.pairwise_map]
    exact turn.numbered.imp fun less => ne_of_lt less
  exact List.inj_on_of_nodup_map numbers mem mem' same

/-- No execution of a job that is yet to be inserted. -/
theorem InTurn.absent (none : s'.ofJob id = []) (given : ∀ e ∈ s'.executions, ∀ i, e.stage = .reported i → i < s'.sys.nextCall)
    (quiet : ∀ i c, s'.sys.calls i = some c → reportOn c ≠ some id) : InTurn registry ls s' id := by
  have never : ∀ e, e ∉ s'.ofJob id := by
    rw [none]
    exact fun e => List.not_mem_nil
  constructor
  · rw [none]
    exact List.Pairwise.nil
  · exact fun e mem => absurd mem (never e)
  · exact fun e mem => absurd mem (never e)
  · exact given
  · exact fun i c inFlight on => absurd on (quiet i c inFlight)

/-- A lease of the job: its executions so far have all come to their end. -/
theorem InTurn.leased (turn : InTurn registry ls s id) (sound : s.sys.Sound) (accountable : Accountable registry ls s)
    {i : Nat} {u : Commit} {lost : Bool} {worker : Uuid} {job : Job} (step : Step registry s (.commit i u lost) s')
    (on : u.db = s.sys.db) (fresh : u.env.uuid ∉ s.sys.issued) (lease : u.lease = some (worker, job)) (isId : job.id = id)
    (eq : s' = s.commit registry i u lost) : InTurn registry (ls ++ [.commit i u lost]) s' id := by
  subst isId
  obtain ⟨j, secs, before, after, leased, waiting, -⟩ := (sound.row_step on fresh job.id).of_lease lease rfl
  have more : ls ⊆ ls ++ [.commit i u lost] := List.subset_append_left _ _
  have attempts : job.attempts = j.attempts + 1 := by rw [leased]; rfl
  have processing : job.status = .processing := by rw [leased]; rfl
  have done : ∀ e ∈ s.ofJob job.id, ¬ s.Live e := by
    intro e mem alive
    have was := (turn.live e mem alive j before).1
    simp [was] at waiting
  generalize new : (⟨i, worker, job, if lost then .lost else .leased⟩ : Execution) = e₀
  have job₀ : e₀.job = job := by rw [← new]
  have stage₀ : ∀ k, e₀.stage ≠ .reported k := by
    intro k
    rw [← new]
    cases lost <;> simp
  rw [commit_lease lease, new] at eq
  have executions : s'.ofJob job.id = s.ofJob job.id ++ [e₀] := by
    rw [eq]
    simp only [ofJob, List.filter_append, List.filter_singleton, job₀, decide_true, cond_true]
  have row : s'.sys.db.job? job.id = some job := by
    rw [eq]
    exact after
  constructor
  · rw [executions, List.pairwise_append]
    refine ⟨turn.numbered, List.pairwise_singleton _ _, ?_⟩
    intro a mem b new
    obtain rfl := List.mem_singleton.1 new
    have reached := turn.reached a mem j before
    rw [job₀]
    omega
  · intro e mem j' after'
    obtain rfl := Option.some.inj (row.symm.trans after')
    rw [executions] at mem
    rcases List.mem_append.1 mem with mem | new
    · have reached := turn.reached e mem j before
      omega
    · obtain rfl := List.mem_singleton.1 new
      rw [job₀]
  · intro e mem alive j' after'
    obtain rfl := Option.some.inj (row.symm.trans after')
    rw [executions] at mem
    rcases List.mem_append.1 mem with mem | new
    · have was := live_of_step step turn.given (mem_ofJob.1 mem).1 alive
      exact absurd was (done e mem)
    · obtain rfl := List.mem_singleton.1 new
      rw [job₀]
      exact ⟨processing, rfl⟩
  · intro e mem k stage
    rw [eq] at mem
    rcases List.mem_append.1 mem with mem | new
    · exact Nat.lt_of_lt_of_le (turn.given e mem k stage) step.nextCall
    · obtain rfl := List.mem_singleton.1 new
      exact absurd stage (stage₀ k)
  · intro k c inFlight onJob
    obtain was | ⟨e, mem, outcome, stage, call, reported⟩ := step.reports accountable k c inFlight onJob
    · obtain ⟨e, mem, outcome, stage, call, reported⟩ := turn.reporter k c was onJob
      obtain ⟨request, isStart⟩ := start_of_reportOn onJob
      exact absurd (.inr (.inr (.inr ⟨k, request, stage, isStart ▸ was⟩))) (done e mem)
    · exact ⟨e, mem, outcome, stage, call, reported⟩

/-- A step that does not lease the job. -/
theorem InTurn.onward (turn : InTurn registry ls s id) (accountable : Accountable registry ls s) (sound : s.sys.Sound)
    (alone : LeftAlone id l) (step : Step registry s l s')
    (other : ∀ i u lost, l = .commit i u lost → u.lease.map (·.2.id) ≠ some id) {g : Execution → Execution}
    (same : ∀ e, (g e).job = e.job ∧ (g e).worker = e.worker) (keeps : ∀ e i, e.stage = .reported i → g e = e)
    (executions : s'.ofJob id = (s.ofJob id).map g) (live : ∀ e ∈ s.ofJob id, s'.Live (g e) → s.Live e)
    (given : ∀ e ∈ s'.executions, ∀ i, e.stage = .reported i → i < s'.sys.nextCall) :
    InTurn registry (ls ++ [l]) s' id := by
  have more : ls ⊆ ls ++ [l] := List.subset_append_left _ _
  obtain ⟨-, jobs, -⟩ | ⟨i, u, lost, rfl, inFlight, on, -, fresh, after⟩ := step.tables
  · have row : s'.sys.db.job? id = s.sys.db.job? id := (sound.keyed.perm jobs).lookup_perm jobs.symm |>.symm
    refine turn.carry more same keeps executions ?_ ?_ given (step.reports accountable)
    · intro j' row'
      exact ⟨j', row.symm.trans row', rfl⟩
    · intro e mem alive
      refine ⟨live e mem alive, fun j j' before after' processing => ?_⟩
      obtain rfl := Option.some.inj ((row.symm.trans after').symm.trans before)
      exact processing
  · have life := sound.row_step on fresh id
    rw [← after] at life
    obtain kept | ⟨onJob, j, j', before, after', processing, attempts⟩ | ⟨absent, isUuid⟩ :=
      row_alone life (other i u lost rfl) alone
    · refine turn.carry more same keeps executions ?_ ?_ given (step.reports accountable)
      · intro j' row'
        obtain ⟨j, before, attempts, -⟩ := kept j' row'
        exact ⟨j, before, attempts⟩
      · intro e mem alive
        refine ⟨live e mem alive, fun j j' before after' processing => ?_⟩
        obtain ⟨old, before', -, stays⟩ := kept j' after'
        obtain rfl := Option.some.inj (before.symm.trans before')
        exact stays processing
    · refine turn.carry more same keeps executions ?_ ?_ given (step.reports accountable)
      · intro k' row'
        obtain rfl := Option.some.inj (after'.symm.trans row')
        exact ⟨j, before, attempts⟩
      · -- The report in this call is that of the one execution that is live, and it is over.
        intro e mem alive
        obtain ⟨e₀, mem₀, outcome, stage, call, -⟩ := turn.reporter i u.call inFlight onJob
        have alive₀ : s.Live e₀ := .inr (.inr (.inr ⟨i, _, stage, call ▸ inFlight⟩))
        have current := (turn.live e mem (live e mem alive) j before).2
        have current₀ := (turn.live e₀ mem₀ alive₀ j before).2
        obtain rfl := turn.unique mem mem₀ (current.trans current₀.symm)
        rw [keeps e i stage] at alive
        rcases alive with is | is | is | ⟨k, request, is, start⟩
        · cases stage.symm.trans is
        · simp [stage, Stage.isRenewing] at is
        · cases stage.symm.trans is
        · obtain rfl := Stage.reported.inj (stage.symm.trans is)
          cases step with
          | commit => exact absurd start (commit_ended (turn.given e (mem_ofJob.1 mem).1 i stage))
    · have none : s.ofJob id = [] := by
        rw [List.eq_nil_iff_forall_not_mem]
        intro e mem
        obtain ⟨there, rfl⟩ := mem_ofJob.1 mem
        exact fresh (isUuid ▸ (accountable.knows _ _ (accountable.leased e there)).drawn)
      have none' : s'.ofJob id = [] := by rw [executions, none, List.map_nil]
      refine .absent none' given ?_
      intro k c call onJob
      obtain was | ⟨e, mem, -⟩ := step.reports accountable k c call onJob
      · obtain ⟨e, mem, -⟩ := turn.reporter k c was onJob
        rw [none] at mem
        exact absurd mem List.not_mem_nil
      · rw [none'] at mem
        exact absurd mem List.not_mem_nil

/-- **One step.** -/
theorem InTurn.step (turn : InTurn registry ls s id) (accountable : Accountable registry ls s) (sound : s.sys.Sound)
    (alone : LeftAlone id l) (step : Step registry s l s') : InTurn registry (ls ++ [l]) s' id := by
  by_cases leases : ∃ i u lost worker job, l = .commit i u lost ∧ u.lease = some (worker, job)
  · obtain ⟨i, u, lost, worker, job, rfl, lease⟩ := leases
    have moves := step
    cases step with
    | commit inFlight on now fresh last =>
      by_cases isId : job.id = id
      · exact turn.leased sound accountable moves on fresh lease isId rfl
      · apply turn.onward accountable sound alone moves (g := fun e => e)
        · intro i' u' lost' same
          obtain ⟨rfl, rfl, rfl⟩ := Label.commit.inj same
          rw [lease]
          exact fun same => isId (Option.some.inj same)
        · exact fun e => ⟨rfl, rfl⟩
        · exact fun e i _ => rfl
        · rw [commit_lease lease, List.map_id']
          simp only [ofJob, List.filter_append, List.filter_singleton, isId, decide_false, cond_false, List.append_nil]
        · exact fun e mem alive => live_of_step moves turn.given (mem_ofJob.1 mem).1 alive
        · intro e mem k stage
          rw [commit_lease lease] at mem
          rcases List.mem_append.1 mem with mem | new
          · exact Nat.lt_of_lt_of_le (turn.given e mem k stage) moves.nextCall
          · obtain rfl := List.mem_singleton.1 new
            cases lost <;> cases stage
  · have noLease : ∀ i u lost, l = .commit i u lost → u.lease = none := by
      intro i u lost isCommit
      rw [Option.eq_none_iff_forall_ne_some]
      rintro ⟨worker, job⟩ lease
      exact leases ⟨i, u, lost, worker, job, isCommit, lease⟩
    obtain ⟨g, advance⟩ := step.advance turn.given noLease
    apply turn.onward accountable sound alone step (g := g)
    · intro i u lost isCommit
      rw [noLease i u lost isCommit]
      simp
    · exact advance.same
    · exact advance.keeps
    · rw [ofJob, ofJob, advance.executions, List.filter_map]
      congr 1
      apply List.filter_congr
      intro e _
      simp only [Function.comp, (advance.same e).1]
    · exact fun e mem alive => advance.live e (mem_ofJob.1 mem).1 alive
    · intro e mem k stage
      rw [advance.executions] at mem
      obtain ⟨old, there, rfl⟩ := List.mem_map.1 mem
      exact advance.given old there k stage

end Fleet

end Djq
