import Djq.Recovery.DeadLetters
import Djq.Worker.Burnt

/-!
# Where outcomes come from

A row says how the attempts of its job have ended: a result, an error text, a
dead letter. Workers report over calls that may be late, and on leases that others
have taken since, so none of this goes without saying: what is stored was reported
by a worker that had leased this very job, or is the reaper's own text.
-/

namespace Djq

open Relational Transition

/-- A new dead letter is that of a job a failure has exhausted, or the reaper. -/
theorem Call.deadLetters_origin (env : Env) (db : Db) (c : Call) {d : DeadLetterJob}
    (mem : d ∈ (c.step env db).1.deadLetters) : d ∈ db.deadLetters ∨
    (∃ id worker error timedOut j, c = .start (.failJob id worker error timedOut) ∧ db.job? id = some j ∧
      d = j.deadLetterRow env.now error) ∨
    ∃ limit before j, c = .recoverDeadLetter limit before ∧ j ∈ db.jobs ∧ d = j.deadLetterRow env.now j.expiryError := by
  cases moves : c.movesDead with
  | false =>
    rw [Call.deadLetters_same env db moves] at mem
    exact .inl mem
  | true =>
    unfold movesDead at moves
    split at moves
    · rename_i id worker error timedOut
      rw [failJob_fst] at mem
      obtain ⟨⟨e, refused⟩, -⟩ | ⟨j, row, -, -, done⟩ := db.failJob_spec env id worker error timedOut
      · rw [refused] at mem
        exact .inl mem
      · rw [done] at mem
        by_cases files : j.maxAttempts ≤ j.attempts ∧ j.deadLetter = true
        · simp only [Db.failWrite, if_pos files] at mem
          rcases mem_insertIgnore mem with before | new
          · exact .inl before
          · exact .inr (.inl ⟨id, worker, error, timedOut, j, rfl, row, new⟩)
        · simp only [Db.failWrite, if_neg files] at mem
          exact .inl mem
    · rw [retryJob_fst] at mem
      exact .inl mem
    · rename_i limit before
      obtain old | ⟨j, taken, new⟩ := mem_insertBatch mem
      · exact .inl old
      · exact .inr (.inr ⟨limit, before, j, rfl, (Db.mem_expiredBatch taken).1, new⟩)
    · exact .inl (mem_deleteWhere.1 mem).1
    · cases moves

namespace Fleet

variable {registry : Registry} {s s' : Fleet} {ls ls' : List Label} {l : Label} {worker : Uuid} {job : Job}

/-- By the labels of a run, `worker` has leased `job`. -/
def Leased (ls : List Label) (worker : Uuid) (job : Job) : Prop :=
  ∃ i u lost, .commit i u lost ∈ ls ∧ u.lease = some (worker, job)

theorem Leased.mono (leased : Leased ls worker job) (more : ls ⊆ ls') : Leased ls' worker job := by
  obtain ⟨i, u, lost, commit, lease⟩ := leased
  exact ⟨i, u, lost, more commit, lease⟩

/-- What `worker` has come to with the job it leased: the outcome of its handler, or that it has none. -/
inductive Reported (registry : Registry) (ls : List Label) (worker : Uuid) (job : Job) : ExecutionOutcome → Prop where
  | handled {e : Execution} {outcome : ExecutionOutcome} (leased : Leased ls worker job)
      (report : .report e outcome ∈ ls) (by' : e.worker = worker) (on : e.job = job) :
      Reported registry ls worker job outcome
  | unhandled (leased : Leased ls worker job) (missing : registry worker job.jobType = false) :
      Reported registry ls worker job (noHandler job)

namespace Reported

variable {outcome : ExecutionOutcome}

theorem mono (reported : Reported registry ls worker job outcome) (more : ls ⊆ ls') :
    Reported registry ls' worker job outcome := by
  cases reported with
  | handled leased report by' on => exact .handled (leased.mono more) (more report) by' on
  | unhandled leased missing => exact .unhandled (leased.mono more) missing

theorem leased (reported : Reported registry ls worker job outcome) : Leased ls worker job := by
  cases reported with
  | handled leased => exact leased
  | unhandled leased => exact leased

end Reported

/-- The worker reported an error of this text. -/
def ErrorReported (registry : Registry) (ls : List Label) (worker : Uuid) (job : Job) (text : String) : Prop :=
  Reported registry ls worker job (.failure text) ∨
    (text = "execution timed out" ∧ Reported registry ls worker job .timeout)

namespace ErrorReported

variable {text : String}

theorem mono (reported : ErrorReported registry ls worker job text) (more : ls ⊆ ls') :
    ErrorReported registry ls' worker job text := by
  rcases reported with failure | ⟨text, timeout⟩
  · exact .inl (failure.mono more)
  · exact .inr ⟨text, timeout.mono more⟩

theorem leased (reported : ErrorReported registry ls worker job text) : Leased ls worker job := by
  rcases reported with failure | ⟨-, timeout⟩
  · exact failure.leased
  · exact timeout.leased

end ErrorReported

/-! ## What a call reports -/

/-- The report in a call is one the worker has come to. -/
def Backed (registry : Registry) (ls : List Label) : Call → Prop
  | .start (.completeJob id worker result) => ∃ job, job.id = id ∧ Reported registry ls worker job (.success result)
  | .start (.failJob id worker error _) => ∃ job, job.id = id ∧ ErrorReported registry ls worker job error
  | _ => True

theorem Backed.mono {c : Call} (backed : Backed registry ls c) (more : ls ⊆ ls') : Backed registry ls' c := by
  unfold Backed at backed ⊢
  split
  · obtain ⟨job, isId, reported⟩ := backed
    exact ⟨job, isId, reported.mono more⟩
  · obtain ⟨job, isId, reported⟩ := backed
    exact ⟨job, isId, reported.mono more⟩
  · trivial

/-- Only an execution reports. -/
theorem backed_of_outside {request : Request} (outside : request.ofExecution = false) :
    Backed registry ls (.start request) := by
  cases request with
  | completeJob id worker result => cases outside
  | failJob id worker error timedOut => cases outside
  | _ => trivial

theorem Reported.backed {outcome : ExecutionOutcome} (reported : Reported registry ls worker job outcome) :
    Backed registry ls (.start (reportOutcome job worker outcome)) := by
  cases outcome with
  | success result => exact ⟨job, rfl, reported⟩
  | failure error => exact ⟨job, rfl, .inl reported⟩
  | timeout => exact ⟨job, rfl, .inr ⟨rfl, reported⟩⟩

/-- What is left of a call after a unit reports nothing. -/
theorem backed_of_follows {c c' : Call} (follows : c.Follows c') : Backed registry ls c' := by
  cases follows with
  | _ => trivial

/-- What the calls in flight and the executions owe to the labels. -/
structure Accountable (registry : Registry) (ls : List Label) (s : Fleet) : Prop where
  calls : ∀ i c, s.sys.calls i = some c → Backed registry ls c
  leased : ∀ e ∈ s.executions, Leased ls e.worker e.job
  knows : ∀ worker job, Leased ls worker job → s.sys.Knows job

/-- An execution that moves on is still the one of its lease. -/
theorem of_mem_move {which : Execution → Bool} {stage : Stage} {e : Execution} (mem : e ∈ s.move which stage) :
    ∃ old ∈ s.executions, old.number = e.number ∧ old.worker = e.worker ∧ old.job = e.job := by
  obtain ⟨old, there, rfl⟩ := mem_updateWhere.1 mem
  refine ⟨old, there, ?_⟩
  split
  · exact ⟨rfl, rfl, rfl⟩
  · exact ⟨rfl, rfl, rfl⟩

/-- The calls of the store after a unit: those before, and what the unit leaves of its own. -/
theorem backed_unit {i : Nat} {u : Commit} (backed : ∀ k c, s.sys.calls k = some c → Backed registry ls c) :
    ∀ k c, (s.sys.commit i u).calls k = some c → Backed registry ls c := by
  intro k c inFlight
  by_cases this : k = i
  · subst this
    have pending : u.reply.pending = some c := (s.sys.setCall_self _ _).symm.trans inFlight
    cases reply : u.reply with
    | done result =>
      rw [reply] at pending
      cases pending
    | next c' =>
      rw [reply] at pending
      obtain rfl := Option.some.inj pending
      exact backed_of_follows (Call.follows reply)
  · exact backed k c ((s.sys.setCall_other _ this).symm.trans inFlight)

/-- The calls of the store after a call begins. -/
theorem backed_begin {sys : Sys} {request : Request} (backed : ∀ k c, sys.calls k = some c → Backed registry ls c)
    (new : Backed registry ls (.start request)) : ∀ k c, (sys.begin request).calls k = some c → Backed registry ls c := by
  intro k c inFlight
  by_cases this : k = sys.nextCall
  · subst this
    obtain rfl : .start request = c := Option.some.inj ((sys.setCall_self _ _).symm.trans inFlight)
    exact new
  · exact backed k c ((sys.setCall_other _ this).symm.trans inFlight)

/-- What a worker leased stays true of the row, over any number of steps of the store. -/
theorem knows_run {sys sys' : Sys} {ks : List Djq.Label} (knows : sys.Knows job) (sound : sys.Sound)
    (run : Run Djq.Step sys ks sys') : sys'.Knows job := by
  have kept : sys'.Sound ∧ sys'.Knows job := by
    apply run.invariant ⟨sound, knows⟩
    rintro sys l sys' ⟨sound, knows⟩ step
    exact ⟨step.sound sound, knows.step sound step⟩
  exact kept.2

/-- A lease returns the row as it leaves it. -/
theorem knows_lease {i : Nat} {u : Commit} (sound : s.sys.Sound) (on : u.db = s.sys.db)
    (fresh : u.env.uuid ∉ s.sys.issued) (lease : u.lease = some (worker, job)) : (s.sys.commit i u).Knows job := by
  obtain ⟨j, secs, before, after, -⟩ := (sound.row_step on fresh job.id).of_lease lease rfl
  constructor
  · have drawn := sound.issued j (Db.job?_mem before)
    rw [Db.job?_id before] at drawn
    exact List.mem_cons_of_mem _ drawn
  · intro j' row
    obtain rfl := Option.some.inj (after.symm.trans row)
    exact .refl job

/-- The new leases after a step: at most the one its label shows. -/
theorem leased_snoc : Leased (ls ++ [l]) worker job ↔
    Leased ls worker job ∨ ∃ i u lost, l = .commit i u lost ∧ u.lease = some (worker, job) := by
  constructor
  · rintro ⟨i, u, lost, mem, lease⟩
    rcases List.mem_append.1 mem with before | last
    · exact .inl ⟨i, u, lost, before, lease⟩
    · exact .inr ⟨i, u, lost, (List.mem_singleton.1 last).symm, lease⟩
  · rintro (before | ⟨i, u, lost, rfl, lease⟩)
    · exact before.mono (List.subset_append_left _ _)
    · exact ⟨i, u, lost, by simp, lease⟩

/-- The calls after a commit. -/
theorem Accountable.calls_commit {i : Nat} {u : Commit} {lost : Bool} (accountable : Accountable registry ls s)
    (more : ls ⊆ ls') : ∀ k c, (s.commit registry i u lost).sys.calls k = some c → Backed registry ls' c := by
  have backed := @backed_unit registry s ls' i u fun k c inFlight => (accountable.calls k c inFlight).mono more
  unfold commit
  split
  · exact backed
  · split
    · exact backed
    · rename_i e found
      split
      · exact backed
      · split
        · exact backed
        · rename_i missing
          have leased := (accountable.leased e (List.mem_of_find?_eq_some found)).mono more
          exact backed_begin backed (Reported.unhandled leased (Bool.eq_false_iff.2 missing)).backed

/-- The executions after a commit: those before, and that of a lease. -/
theorem of_mem_commit {i : Nat} {u : Commit} {lost : Bool} {e : Execution}
    (mem : e ∈ (s.commit registry i u lost).executions) :
    (∃ old ∈ s.executions, old.number = e.number ∧ old.worker = e.worker ∧ old.job = e.job) ∨
      e.number = i ∧ u.lease = some (e.worker, e.job) := by
  cases lease : u.lease with
  | some leased =>
    obtain ⟨worker, job⟩ := leased
    rw [commit_lease lease] at mem
    rcases List.mem_append.1 mem with before | new
    · exact .inl ⟨e, before, rfl, rfl, rfl⟩
    · obtain rfl := List.mem_singleton.1 new
      exact .inr ⟨rfl, rfl⟩
  | none =>
    obtain same | ⟨-, stage, moved, -⟩ := @commit_other registry s i u lost lease
    · rw [same] at mem
      exact .inl ⟨e, mem, rfl, rfl, rfl⟩
    · rw [moved] at mem
      exact .inl (of_mem_move mem)

theorem Accountable.step (accountable : Accountable registry ls s) (sound : s.sys.Sound)
    (step : Step registry s l s') : Accountable registry (ls ++ [l]) s' := by
  have more : ls ⊆ ls ++ [l] := List.subset_append_left _ _
  have calls : ∀ k c, s.sys.calls k = some c → Backed registry (ls ++ [l]) c := fun k c inFlight =>
    (accountable.calls k c inFlight).mono more
  have leased : ∀ e ∈ s.executions, Leased (ls ++ [l]) e.worker e.job := fun e mem => (accountable.leased e mem).mono more
  have knows : ∀ worker job, Leased (ls ++ [l]) worker job → s'.sys.Knows job := by
    intro worker job leased
    obtain ⟨ks, run⟩ := step.sys
    obtain before | ⟨i, u, lost, rfl, lease⟩ := leased_snoc.1 leased
    · exact knows_run (accountable.knows worker job before) sound run
    · cases step with
      | commit inFlight on now fresh last =>
        rw [commit_lease lease]
        exact knows_lease sound on fresh lease
  have moved : ∀ which stage, ∀ e ∈ s.move which stage, Leased (ls ++ [l]) e.worker e.job := by
    intro which stage e mem
    obtain ⟨old, there, -, worker, job⟩ := of_mem_move mem
    rw [← worker, ← job]
    exact leased old there
  refine ⟨?_, ?_, knows⟩
  · cases step with
    | tick => exact calls
    | reorder => exact calls
    | @begin request outside =>
      exact backed_begin calls (backed_of_outside outside)
    | renew => exact backed_begin calls trivial
    | report outcome there handling =>
      exact backed_begin calls (Reported.handled (leased _ there) (by simp) rfl rfl).backed
    | commit => exact accountable.calls_commit more
    | @stop i =>
      intro k c inFlight
      by_cases this : k = i
      · subst this
        cases (s.sys.setCall_self _ _).symm.trans inFlight
      · exact calls k c ((s.sys.setCall_other _ this).symm.trans inFlight)
  · cases step with
    | tick => exact leased
    | reorder => exact leased
    | begin => exact leased
    | renew => exact moved _ _
    | report => exact moved _ _
    | @commit i u lost =>
      intro e mem
      obtain ⟨old, there, -, worker, job⟩ | ⟨-, lease⟩ := of_mem_commit mem
      · rw [← worker, ← job]
        exact leased old there
      · exact leased_snoc.2 (.inr ⟨i, u, lost, rfl, lease⟩)
    | stop => exact moved _ _

theorem accountable_of_run {t : Int} (run : Run (Step registry) (Fleet.init t) ls s) : Accountable registry ls s := by
  induction run with
  | nil =>
    constructor
    · intro i c inFlight
      cases inFlight
    · intro e mem
      exact absurd mem List.not_mem_nil
    · rintro worker job ⟨i, u, lost, mem, -⟩
      exact absurd mem List.not_mem_nil
  | snoc before last ih => exact ih.step (sound_of_run before) last

/-! ## What the rows say -/

/-- Why an attempt of a job failed: the reaper ended it, or a worker that had leased the job says so. -/
def Excuse (registry : Registry) (ls : List Label) (j : Job) (text : String) : Prop :=
  text = "lease expired" ∨ ∃ worker job, SameSubmission j job ∧ ErrorReported registry ls worker job text

theorem Excuse.mono {j : Job} {text : String} (excuse : Excuse registry ls j text) (more : ls ⊆ ls') :
    Excuse registry ls' j text := by
  obtain expired | ⟨worker, job, same, reported⟩ := excuse
  · exact .inl expired
  · exact .inr ⟨worker, job, same, reported.mono more⟩

theorem Excuse.congr {j j' : Job} {text : String} (excuse : Excuse registry ls j text) (same : SameSubmission j' j) :
    Excuse registry ls j' text := by
  obtain expired | ⟨worker, job, same', reported⟩ := excuse
  · exact .inl expired
  · exact .inr ⟨worker, job, same.trans same', reported⟩

/-- What a row says of how its attempts ended has been reported. -/
structure Explained (registry : Registry) (ls : List Label) (j : Job) : Prop where
  result : j.status = .completed → ∃ worker job, SameSubmission j job ∧ Reported registry ls worker job (.success j.result)
  error : ∀ text, j.lastError = some text → Excuse registry ls j text
  ended : j.status ∈ [.retrying, .failed, .deadLettered] → ∃ text, j.lastError = some text

namespace Explained

variable {j j' : Job}

theorem mono (explained : Explained registry ls j) (more : ls ⊆ ls') : Explained registry ls' j := by
  constructor
  · intro completed
    obtain ⟨worker, job, same, reported⟩ := explained.result completed
    exact ⟨worker, job, same, reported.mono more⟩
  · intro text error
    exact (explained.error text error).mono more
  · exact explained.ended

/-- A row that goes on without an end of its attempt, and says what it said. -/
theorem carry (explained : Explained registry ls j) (same : SameSubmission j' j)
    (status : j'.status ∈ [.queued, .processing, .cancelled]) (error : j'.lastError = j.lastError ∨ j'.lastError = none) :
    Explained registry ls j' := by
  simp only [List.mem_cons, List.not_mem_nil, or_false] at status
  constructor
  · intro completed
    rcases status with is | is | is <;> cases is.symm.trans completed
  · intro text says'
    rcases error with kept | cleared
    · exact (explained.error text (kept.symm.trans says')).congr same
    · cases cleared.symm.trans says'
  · intro ended
    rcases status with is | is | is <;> simp [is] at ended

/-- A row whose attempt has failed. -/
theorem failed {text : String} (excuse : Excuse registry ls j text) (same : SameSubmission j' j)
    (status : j'.status ∈ [.retrying, .failed, .deadLettered]) (error : j'.lastError = some text) :
    Explained registry ls j' := by
  constructor
  · intro completed
    simp [completed] at status
  · intro text' says'
    obtain rfl := Option.some.inj (error.symm.trans says')
    exact excuse.congr same
  · intro _
    exact ⟨text, error⟩

/-- The text the reaper files a row under is its own, or the one the row has. -/
theorem expired (explained : Explained registry ls j) : Excuse registry ls j j.expiryError := by
  unfold Job.expiryError
  cases said : j.lastError with
  | none => exact .inl rfl
  | some text => exact explained.error text said

/-- Every step in the life of a row whose call is backed. -/
theorem row_step {env : Env} {db : Db} {id : Uuid} {c : Call} {p : Progress} {r r' : Option Job}
    (life : RowStep env db id c p r r') (backed : Backed registry ls c)
    (known : ∀ worker job, Leased ls worker job → job.id = id → ∀ j, r = some j → SameSubmission j job)
    (before : ∀ j, r = some j → Explained registry ls j) : ∀ j', r' = some j' → Explained registry ls j' := by
  intro j' after
  cases life with
  | same => exact before j' after
  | @inserted s row eq =>
    obtain rfl := Option.some.inj after
    have status : row.status = .scheduled ∨ row.status = .queued := by
      rw [eq]
      exact s.sound.status
    constructor
    · intro completed
      rcases status with is | is <;> cases is.symm.trans completed
    · intro text says'
      rw [eq] at says'
      cases says'
    · intro ended
      rcases status with is | is <;> simp [is] at ended
  | leased =>
    obtain rfl := Option.some.inj after
    exact (before _ rfl).carry (Job.setLeased_same env.now _ _ _) (by simp) (.inl rfl)
  | renewed processing =>
    obtain rfl := Option.some.inj after
    exact (before _ rfl).carry (Job.setRenewed_same env.now _ _) (by simp [processing]) (.inl rfl)
  | @completed worker result j processing holder isId =>
    obtain rfl := Option.some.inj after
    obtain ⟨job, jobId, reported⟩ := backed
    have same := known worker job reported.leased jobId j rfl
    constructor
    · intro _
      exact ⟨worker, job, (Job.setCompleted_same env.now j result).trans same, reported⟩
    · intro text says'
      cases says'
    · intro ended
      simp at ended
  | @failed worker error timedOut j processing holder isId =>
    obtain rfl := Option.some.inj after
    obtain ⟨job, jobId, reported⟩ := backed
    have same := known worker job reported.leased jobId j rfl
    apply Explained.failed (.inr ⟨worker, job, same, reported⟩) (Job.failUpdate_same env.now j j error)
    · have status := j.failUpdate_status env.now j error
      simp only [List.mem_cons, List.not_mem_nil, or_false] at status ⊢
      tauto
    · exact j.failUpdate_lastError env.now j error
  | cancelled =>
    obtain rfl := Option.some.inj after
    exact (before _ rfl).carry (Job.setCancelled_same env.now _) (by simp) (.inl rfl)
  | requeued =>
    obtain rfl := Option.some.inj after
    exact (before _ rfl).carry (Job.setRequeued_same env.now _) (by simp) (.inr rfl)
  | @expiredRetrying _ _ j =>
    obtain rfl := Option.some.inj after
    exact .failed (before j rfl).expired (Job.setRetrying_same env.now j _ _) (by simp) rfl
  | @expiredDeadLettered _ _ _ j =>
    obtain rfl := Option.some.inj after
    exact .failed (before j rfl).expired (Job.setDeadLettered_same env.now j _) (by simp) rfl
  | @expiredFailed _ _ _ j =>
    obtain rfl := Option.some.inj after
    exact .failed (before j rfl).expired (Job.setFailed_same env.now j _) (by simp) rfl
  | purged => cases after

end Explained

/-- A dead letter of a job, with an error that is explained. -/
def Filed (registry : Registry) (ls : List Label) (d : DeadLetterJob) : Prop :=
  ∃ j now text, d = Job.deadLetterRow now text j ∧ Excuse registry ls j text

theorem Filed.mono {d : DeadLetterJob} (filed : Filed registry ls d) (more : ls ⊆ ls') : Filed registry ls' d := by
  obtain ⟨j, now, text, row, excuse⟩ := filed
  exact ⟨j, now, text, row, excuse.mono more⟩

/-- Only a commit writes; the other steps at most move the rows of `jobs`. -/
theorem Step.tables (step : Step registry s l s') :
    ((∀ i u lost, l ≠ .commit i u lost) ∧ s'.sys.db.jobs.Perm s.sys.db.jobs ∧
      s'.sys.db.deadLetters = s.sys.db.deadLetters) ∨
    ∃ i u lost, l = .commit i u lost ∧ s.sys.calls i = some u.call ∧ u.db = s.sys.db ∧ u.env.now = s.sys.clock ∧
      u.env.uuid ∉ s.sys.issued ∧ s'.sys.db = u.after := by
  cases step with
  | commit inFlight on now fresh => exact .inr ⟨_, _, _, rfl, inFlight, on, now, fresh, commit_db⟩
  | reorder same => exact .inl ⟨by simp, same, rfl⟩
  | _ => exact .inl ⟨by simp, .refl _, rfl⟩

/-- What the tables say of outcomes has been reported. -/
structure Vouched (registry : Registry) (ls : List Label) (db : Db) : Prop where
  jobs : ∀ id j, db.job? id = some j → Explained registry ls j
  deadLetters : ∀ d ∈ db.deadLetters, Filed registry ls d

theorem Vouched.step (vouched : Vouched registry ls s.sys.db) (accountable : Accountable registry ls s)
    (sound : s.sys.Sound) (step : Step registry s l s') : Vouched registry (ls ++ [l]) s'.sys.db := by
  have more : ls ⊆ ls ++ [l] := List.subset_append_left _ _
  obtain ⟨-, jobs, letters⟩ | ⟨i, u, lost, rfl, inFlight, on, -, fresh, after⟩ := step.tables
  · constructor
    · intro id j row
      have row' : s.sys.db.job? id = some j := (sound.keyed.lookup_perm jobs).symm.trans row
      exact (vouched.jobs id j row').mono more
    · intro d mem
      rw [letters] at mem
      exact (vouched.deadLetters d mem).mono more
  · have backed := (accountable.calls i u.call inFlight).mono more
    have known : ∀ worker job, Leased (ls ++ [.commit i u lost]) worker job → ∀ id, job.id = id →
        ∀ j, s.sys.db.job? id = some j → SameSubmission j job := by
      rintro worker job leased id rfl j row
      obtain before | ⟨i', u', lost', same, lease⟩ := leased_snoc.1 leased
      · exact (accountable.knows worker job before).same j row
      · obtain ⟨rfl, rfl, rfl⟩ := Label.commit.inj same
        obtain ⟨old, secs, before, -, eq, -⟩ := (sound.row_step on fresh job.id).of_lease lease rfl
        obtain rfl := Option.some.inj (before.symm.trans row)
        rw [eq]
        exact (Job.setLeased_same u.env.now old worker secs).symm
    rw [after]
    constructor
    · intro id
      apply Explained.row_step (sound.row_step on fresh id) backed
      · exact fun worker job leased isId => known worker job leased id isId
      · intro j row
        exact (vouched.jobs id j row).mono more
    · intro d mem
      obtain before | ⟨id, worker, error, timedOut, j, call, row, rfl⟩ | ⟨limit, taken, j, -, there, rfl⟩ :=
        u.call.deadLetters_origin u.env u.db mem
      · exact (vouched.deadLetters d (on ▸ before)).mono more
      · rw [call] at backed
        obtain ⟨job, jobId, reported⟩ := backed
        have same := known worker job reported.leased id jobId j (on ▸ row)
        exact ⟨j, u.env.now, error, rfl, .inr ⟨worker, job, same, reported⟩⟩
      · have row : s.sys.db.job? j.id = some j := sound.keyed.lookup_self (on ▸ there)
        exact ⟨j, u.env.now, j.expiryError, rfl, ((vouched.jobs j.id j row).mono more).expired⟩

/-- **Outcomes are reported.** Whatever the workers, the reapers and the operators do,
and whichever calls and replies are lost: a completed row holds what the handler of
a worker that had leased this very job returned; the error of a row, and of a dead
letter, is what such a worker reported, or the reaper's own text; and a row that is
retried or has ended in failure has one. -/
theorem outcomes_reported {t : Int} (run : Run (Step registry) (Fleet.init t) ls s) :
    (∀ j ∈ s.sys.db.jobs, Explained registry ls j) ∧ ∀ d ∈ s.sys.db.deadLetters, Filed registry ls d := by
  have vouched : Vouched registry ls s.sys.db := by
    induction run with
    | nil =>
      constructor
      · intro id j row
        exact absurd (Db.job?_mem row) List.not_mem_nil
      · intro d mem
        exact absurd mem List.not_mem_nil
    | snoc before last ih => exact ih.step (accountable_of_run before) (sound_of_run before) last
  have sound := sound_of_run run
  exact ⟨fun j mem => vouched.jobs j.id j (sound.keyed.lookup_self mem), vouched.deadLetters⟩

/-- The dead letter of the job whose handler fails says so. -/
theorem outcomes_reported_boom :
    ∃ worker job, ErrorReported (fun _ _ => true) (script (act fun _ _ => true) (.init 0) ranScript) worker job "boom" := by
  have run := @outcome_run _ _ _ (act fun _ _ => true) _ (act_step fun _ _ => true) (.init 0) ranScript (by decide)
  obtain ⟨-, letters⟩ := outcomes_reported run
  obtain ⟨j, now, text, row, excuse⟩ := letters
    ⟨7, "emails", "send", "null", 1, some "boom", 0, some 0⟩ (by decide)
  obtain rfl : "boom" = text := Option.some.inj (congrArg DeadLetterJob.lastError row)
  obtain expired | ⟨worker, job, -, reported⟩ := excuse
  · exact absurd expired (by decide)
  · exact ⟨worker, job, reported⟩

end Fleet

end Djq
