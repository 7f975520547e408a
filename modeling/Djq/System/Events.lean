import Djq.System.Interleaving

/-!
# What the labels of a run report

A lease, and the calls and sweeps that write a row, read off the labels of a run.
-/

namespace Djq

open Relational Transition

/-- The worker and the job, where the unit is a lease that found one. -/
def Call.lease : Call → Progress → Option (Uuid × Job)
  | .start (.leaseNext worker _ _), .done (.ok (.leased (some job))) => some (worker, job)
  | _, _ => none

namespace Commit

/-- The rows the unit reports to have written. -/
def written (u : Commit) : List Uuid := u.call.written u.reply

def lease (u : Commit) : Option (Uuid × Job) := u.call.lease u.reply

end Commit

namespace Call

/-- A call of `retry_job`. -/
def isRetry : Call → Bool
  | .start (.retryJob _) => true
  | _ => false

def isCancel : Call → Bool
  | .start (.cancelJob _) => true
  | _ => false

/-- A report of a worker, by either of its two calls. -/
def isReportBy (worker : Uuid) : Call → Bool
  | .start (.completeJob _ worker' _) => decide (worker' = worker)
  | .start (.failJob _ worker' _ _) => decide (worker' = worker)
  | _ => false

def isLease : Call → Bool
  | .start (.leaseNext _ _ _) => true
  | _ => false

def isPurge : Call → Bool
  | .start (.purgeFinished _) => true
  | _ => false

/-- One of the reaper's three statements on `jobs`. -/
def isSweep : Call → Bool
  | .start (.recoverExpiredLeases _) => true
  | .recoverDeadLetter _ _ => true
  | .recoverFailed _ _ => true
  | _ => false

end Call

namespace Label

def lease : Label → Option (Uuid × Job)
  | .commit _ u => u.lease
  | _ => none

/-- A commit of a call of this kind that reports to have written the row `id`. -/
def wrote (kind : Call → Bool) (id : Uuid) : Label → Bool
  | .commit _ u => kind u.call && decide (id ∈ u.written)
  | _ => false

theorem wrote_commit {kind : Call → Bool} {id : Uuid} {i : Nat} {u : Commit} :
    (Label.commit i u).wrote kind id = true ↔ kind u.call = true ∧ id ∈ u.written := by
  simp only [wrote, Bool.and_eq_true, decide_eq_true_eq]

/-- The row a submission has inserted. -/
def inserted : Label → Option Job
  | .commit _ u =>
    match u.call, u.reply with
    | .submitInsert _, .done (.ok (.submission s)) => some s.job
    | _, _ => none
  | _ => none

/-- A purge that deleted the row `id`. -/
def deletes (id : Uuid) : Label → Bool
  | .commit _ u => u.call.isPurge && (u.db.job? id).isSome && (u.after.job? id).isNone
  | _ => false

end Label

/-- How often the labels lease the row `id`. -/
def leaseCount (id : Uuid) (ls : List Label) : Nat :=
  (ls.filter fun l => decide (l.lease.map (·.2.id) = some id)).length

theorem leaseCount_snoc (id : Uuid) (ls : List Label) (l : Label) :
    leaseCount id (ls ++ [l]) = leaseCount id ls + if l.lease.map (·.2.id) = some id then 1 else 0 := by
  simp only [leaseCount, List.filter_append, List.length_append]
  by_cases leases : l.lease.map (·.2.id) = some id
  · simp [leases]
  · simp [leases]

/-- A lease writes the row it returns. -/
theorem Call.written_of_lease {c : Call} {p : Progress} {worker : Uuid} {job : Job}
    (leased : c.lease p = some (worker, job)) : job.id ∈ c.written p := by
  unfold Call.lease at leased
  split at leased
  · obtain ⟨-, rfl⟩ := Prod.mk.inj (Option.some.inj leased)
    exact List.mem_singleton_self _
  · cases leased

namespace RowStep

variable {env : Env} {db : Db} {id : Uuid} {c : Call} {p : Progress} {r r' : Option Job}

/-- What a lease of the row found and left. -/
theorem of_lease (life : RowStep env db id c p r r') {worker : Uuid} {job : Job}
    (leased : c.lease p = some (worker, job)) (isId : job.id = id) :
    ∃ j secs, r = some j ∧ r' = some job ∧ job = j.setLeased env.now worker secs ∧
      j.status ∈ [.queued, .scheduled, .retrying] ∧ j.runAt ≤ env.now := by
  have written := Call.written_of_lease leased
  rw [isId] at written
  cases life with
  | same quiet => exact absurd written quiet
  | leased leaseable due =>
    simp only [Call.lease, Option.some.injEq, Prod.mk.injEq] at leased
    obtain ⟨rfl, rfl⟩ := leased
    exact ⟨_, _, rfl, rfl, rfl, leaseable, due⟩
  | _ => cases leased

/-- What an INSERT found and left under the id of its row. -/
theorem of_insert (life : RowStep env db id c p r r') {s : Submittable} {sub : Submission}
    (insert : c = .submitInsert s) (reply : p = .done (.ok (.submission sub))) (isId : sub.job.id = id) :
    r = none ∧ r' = some sub.job := by
  subst insert reply
  cases life with
  | same quiet => exact absurd (isId ▸ List.mem_singleton_self _) quiet
  | inserted => exact ⟨rfl, rfl⟩

/-- A unit that does not lease the row leaves its attempts alone, unless it is
an operator's retry or the INSERT of the row. -/
theorem attempts_kept (life : RowStep env db id c p r r') (other : (c.lease p).map (·.2.id) ≠ some id) {j' : Job}
    (after : r' = some j') :
    (∃ j, r = some j ∧ j'.attempts = j.attempts) ∨
    (c.isRetry = true ∧ id ∈ c.written p) ∨ (r = none ∧ id = env.uuid) := by
  cases life with
  | same quiet => exact .inl ⟨j', after, rfl⟩
  | inserted row isId =>
    rw [← isId, row]
    exact .inr (.inr ⟨rfl, rfl⟩)
  | leased leaseable due listed unpaused isId => exact absurd (congrArg some isId) other
  | failed =>
    obtain rfl := Option.some.inj after
    exact .inl ⟨_, rfl, Job.failUpdate_attempts env.now _ _ _⟩
  | requeued => exact .inr (.inl ⟨rfl, List.mem_singleton_self id⟩)
  | purged => cases after
  | _ =>
    obtain rfl := Option.some.inj after
    exact .inl ⟨_, rfl, rfl⟩

/-- The execution and its guard stay together: only a lease makes a row
processing, and nothing else sets its holder or its attempt number. -/
theorem processing (life : RowStep env db id c p r r') (other : (c.lease p).map (·.2.id) ≠ some id) {j' : Job}
    (after : r' = some j') (processing : j'.status = .processing) :
    ∃ j, r = some j ∧ j.status = .processing ∧ j'.lockedBy = j.lockedBy ∧ j'.attempts = j.attempts := by
  cases life with
  | same => exact ⟨j', after, processing, rfl, rfl⟩
  | @inserted s _ row =>
    obtain rfl := Option.some.inj after
    rw [row] at processing
    rcases s.sound.status with waiting | waiting
    · cases waiting.symm.trans processing
    · cases waiting.symm.trans processing
  | leased leaseable due listed unpaused isId => exact absurd (congrArg some isId) other
  | renewed before =>
    obtain rfl := Option.some.inj after
    exact ⟨_, rfl, before, rfl, rfl⟩
  | @failed _ error _ j =>
    obtain rfl := Option.some.inj after
    have status := j.failUpdate_status env.now j error
    simp [processing] at status
  | purged => cases after
  | _ =>
    obtain rfl := Option.some.inj after
    cases processing

/-- A row outlives every unit but a purge of it. -/
theorem survives (life : RowStep env db id c p r r') {j : Job} (before : r = some j) :
    (∃ j', r' = some j' ∧ SameSubmission j' j) ∨
    (c.isPurge = true ∧ j.status ∈ [.completed, .cancelled] ∧ r' = none) := by
  cases life with
  | same quiet => exact .inl ⟨j, before, .refl j⟩
  | inserted => cases before
  | leased =>
    obtain rfl := Option.some.inj before
    exact .inl ⟨_, rfl, Job.setLeased_same env.now _ _ _⟩
  | renewed =>
    obtain rfl := Option.some.inj before
    exact .inl ⟨_, rfl, Job.setRenewed_same env.now _ _⟩
  | completed =>
    obtain rfl := Option.some.inj before
    exact .inl ⟨_, rfl, Job.setCompleted_same env.now _ _⟩
  | failed =>
    obtain rfl := Option.some.inj before
    exact .inl ⟨_, rfl, Job.failUpdate_same env.now _ _ _⟩
  | cancelled =>
    obtain rfl := Option.some.inj before
    exact .inl ⟨_, rfl, Job.setCancelled_same env.now _⟩
  | requeued =>
    obtain rfl := Option.some.inj before
    exact .inl ⟨_, rfl, Job.setRequeued_same env.now _⟩
  | expiredRetrying =>
    obtain rfl := Option.some.inj before
    exact .inl ⟨_, rfl, Job.setRetrying_same env.now _ _ _⟩
  | expiredDeadLettered =>
    obtain rfl := Option.some.inj before
    exact .inl ⟨_, rfl, Job.setDeadLettered_same env.now _ _⟩
  | expiredFailed =>
    obtain rfl := Option.some.inj before
    exact .inl ⟨_, rfl, Job.setFailed_same env.now _ _⟩
  | purged ended =>
    obtain rfl := Option.some.inj before
    exact .inr ⟨rfl, ended, rfl⟩

/-- A row appears only by an INSERT of a submission, under the UUID drawn. -/
theorem appears (life : RowStep env db id c p r r') (before : r = none) {j' : Job} (after : r' = some j') :
    ∃ s, c = .submitInsert s ∧ p = .done (.ok (.submission ⟨j', true⟩)) ∧ j' = s.job.row env ∧ j'.id = id := by
  cases life with
  | same quiet =>
    rw [before] at after
    cases after
  | inserted row isId =>
    obtain rfl := Option.some.inj after
    exact ⟨_, rfl, rfl, row, isId⟩
  | purged => cases after
  | _ => cases before

/-- Where a row comes from. -/
theorem origin (life : RowStep env db id c p r r') {j' : Job} (after : r' = some j') :
    (∃ j, r = some j ∧ SameSubmission j' j) ∨
    (∃ s, c = .submitInsert s ∧ p = .done (.ok (.submission ⟨j', true⟩)) ∧ id = env.uuid) := by
  cases before : r with
  | none =>
    obtain ⟨s, insert, reply, row, isId⟩ := life.appears before after
    rw [row] at isId
    exact .inr ⟨s, insert, reply, isId.symm⟩
  | some j =>
    obtain ⟨j'', after', same⟩ | ⟨-, -, gone⟩ := life.survives before
    · obtain rfl := Option.some.inj (after.symm.trans after')
      exact .inl ⟨j, rfl, same⟩
    · cases after.symm.trans gone

end RowStep

/-! ## What a run says of a row and of a call -/

/-- A row goes only by a purge, and only once it is completed or cancelled. -/
theorem Step.row_kept {s s' : Sys} {l : Label} (sound : s.Sound) (step : Step s l s') {id : Uuid} {j : Job}
    (row : s.db.job? id = some j) :
    (∃ j', s'.db.job? id = some j' ∧ SameSubmission j' j) ∨
    (l.deletes id = true ∧ j.status ∈ [.completed, .cancelled] ∧ s'.db.job? id = none) := by
  obtain ⟨-, same⟩ | ⟨i, u, rfl, -, on, -, -, after, life⟩ := step.row sound id
  · exact .inl ⟨j, same.trans row, .refl j⟩
  · obtain kept | ⟨purge, ended, gone⟩ := life.survives row
    · exact .inl kept
    · refine .inr ⟨?_, ended, gone⟩
      have here : u.db.job? id = some j := on ▸ row
      have absent : u.after.job? id = none := by
        rw [after] at gone
        exact gone
      simp only [Label.deletes, purge, here, absent, Option.isSome_some, Option.isNone_none, Bool.and_self]

/-- Over a stretch of a run a row stays, with its submitted columns, unless a purge deletes it. -/
theorem Run.row_kept {t : Int} {pre ls : List Label} {s s' : Sys} (before : Run Step (Sys.init t) pre s)
    (run : Run Step s ls s') {id : Uuid} {j : Job} (row : s.db.job? id = some j) :
    (∃ j', s'.db.job? id = some j' ∧ SameSubmission j' j) ∨ ∃ l ∈ ls, l.deletes id = true := by
  induction run with
  | nil => exact .inl ⟨j, row, .refl j⟩
  | snoc run last ih =>
    obtain ⟨j', row', same⟩ | ⟨l, mem, deleted⟩ := ih
    · have sound := Sys.sound_of_run (before.append run)
      obtain ⟨j'', row'', same'⟩ | ⟨deleted, -⟩ := last.row_kept sound row'
      · exact .inl ⟨j'', row'', same'.trans same⟩
      · exact .inr ⟨_, by simp, deleted⟩
    · exact .inr ⟨l, List.mem_append_left _ mem, deleted⟩

/-- **Call invariants.** What holds of a call as it begins, and of what is left of
it after each unit, holds of every call in flight. -/
theorem Sys.call_invariant {t : Int} {ls : List Label} {s : Sys} (run : Run Step (Sys.init t) ls s)
    {Q : Request → Call → Prop} (start : ∀ request, Q request (.start request))
    (next : ∀ request c env db c', Q request c → (c.step env db).2 = .next c' → Q request c') :
    ∀ i c, s.calls i = some c → ∃ request, Label.begin i request ∈ ls ∧ Q request c := by
  apply run.history
  · intro i c inFlight
    cases inFlight
  · intro ls s l s' _ ih step i c inFlight
    have earlier : ∀ c, s.calls i = some c → ∃ request, Label.begin i request ∈ ls ++ [l] ∧ Q request c := by
      intro c inFlight
      obtain ⟨request, begun, q⟩ := ih i c inFlight
      exact ⟨request, List.mem_append_left _ begun, q⟩
    cases step with
    | tick => exact earlier c inFlight
    | reorder => exact earlier c inFlight
    | begin request =>
      by_cases new : i = s.nextCall
      · subst new
        obtain rfl : .start request = c := Option.some.inj ((s.setCall_self _ _).symm.trans inFlight)
        exact ⟨request, by simp, start request⟩
      · exact earlier c ((s.setCall_other _ new).symm.trans inFlight)
    | @commit k u before =>
      by_cases this : i = k
      · subst this
        have pending : u.reply.pending = some c := (s.setCall_self _ _).symm.trans inFlight
        obtain ⟨request, begun, q⟩ := earlier _ before
        refine ⟨request, begun, next request u.call u.env u.db c q ?_⟩
        cases reply : u.reply with
        | done result =>
          rw [reply] at pending
          cases pending
        | next c' =>
          rw [reply] at pending
          obtain rfl := Option.some.inj pending
          exact reply
      · exact earlier c ((s.setCall_other _ this).symm.trans inFlight)
    | @stop k =>
      by_cases this : i = k
      · subst this
        cases (s.setCall_self _ _).symm.trans inFlight
      · exact earlier c ((s.setCall_other _ this).symm.trans inFlight)

/-- What a worker was leased stays true of the submitted columns of the row, for
as long as there is one. -/
structure Sys.Knows (s : Sys) (job : Job) : Prop where
  drawn : job.id ∈ s.issued
  same : ∀ j, s.db.job? job.id = some j → SameSubmission j job

theorem Sys.Knows.step {s s' : Sys} {l : Label} {job : Job} (knows : s.Knows job) (sound : s.Sound)
    (step : Step s l s') : s'.Knows job := by
  refine ⟨step.issued knows.drawn, fun j' row' => ?_⟩
  obtain ⟨-, same⟩ | ⟨i, u, rfl, -, on, -, fresh, rfl, life⟩ := step.row sound job.id
  · exact knows.same j' (same ▸ row')
  · obtain ⟨j, row, same⟩ | ⟨-, -, -, drawn⟩ := life.origin row'
    · exact same.trans (knows.same j row)
    · exact absurd (drawn ▸ knows.drawn) fresh

theorem Sys.knows_of_run {t : Int} {ls : List Label} {s : Sys} (run : Run Step (Sys.init t) ls s) :
    ∀ l ∈ ls, ∀ worker job, l.lease = some (worker, job) → s.Knows job := by
  apply run.history
  · intro l mem
    exact absurd mem List.not_mem_nil
  · intro ls s l s' before ih step l' mem worker job leased
    have sound := Sys.sound_of_run before
    rcases List.mem_append.1 mem with mem | mem
    · exact (ih l' mem worker job leased).step sound step
    · obtain rfl := List.mem_singleton.1 mem
      obtain ⟨quiet, -⟩ | ⟨i, u, rfl, -, -, -, -, -, life⟩ := step.row sound job.id
      · cases l' with
        | commit i u => exact absurd rfl (quiet i u)
        | _ => cases leased
      · obtain ⟨j, secs, row, row', -⟩ := life.of_lease leased rfl
        have drawn := step.issued (sound.issued j (Db.job?_mem row))
        rw [Db.job?_id row] at drawn
        refine ⟨drawn, fun j' same => ?_⟩
        obtain rfl := Option.some.inj (row'.symm.trans same)
        exact .refl job

end Djq
