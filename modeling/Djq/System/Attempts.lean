import Djq.System.Events

/-!
# The attempt rows

What one unit does to `job_attempts`: a lease opens a row, a report and the
reaper's closing statement close the running rows of their jobs, a purge deletes
the rows of the jobs it deletes.
-/

namespace Djq

open Relational Transition

/-- The columns no statement writes after the INSERT. -/
structure SameAttempt (a b : JobAttempt) : Prop where
  id : a.id = b.id
  jobId : a.jobId = b.jobId
  attempt : a.attempt = b.attempt
  workerId : a.workerId = b.workerId
  startedAt : a.startedAt = b.startedAt

theorem SameAttempt.refl (a : JobAttempt) : SameAttempt a a := by constructor <;> rfl

/-- The id of a job's latest row, that of its latest lease. -/
def lastAttempt (rows : List JobAttempt) (id : Uuid) : Option Nat :=
  ((rows.filter fun a => decide (a.jobId = id)).map JobAttempt.id).getLast?

section LastAttempt

variable {rows : List JobAttempt} {id : Uuid}

theorem lastAttempt_mem {k : Nat} (last : lastAttempt rows id = some k) : ∃ a ∈ rows, a.jobId = id ∧ a.id = k := by
  obtain ⟨a, mem, isK⟩ := List.mem_map.1 (List.mem_of_getLast? last)
  obtain ⟨mem, isId⟩ := List.mem_filter.1 mem
  exact ⟨a, mem, of_decide_eq_true isId, isK⟩

theorem lastAttempt_open (r : JobAttempt) :
    lastAttempt (rows ++ [r]) id = if r.jobId = id then some r.id else lastAttempt rows id := by
  by_cases isId : r.jobId = id
  · simp [lastAttempt, isId]
  · simp [lastAttempt, isId]

/-- An UPDATE of columns that may change, seen in one that may not. -/
theorem column_update {β : Type} {f : JobAttempt → β} (fixed : ∀ a b, SameAttempt a b → f a = f b)
    {which : JobAttempt → Bool} {set : JobAttempt → JobAttempt} (keeps : ∀ a, SameAttempt (set a) a) :
    ((updateWhere which set rows).filter fun a => decide (a.jobId = id)).map f =
      (rows.filter fun a => decide (a.jobId = id)).map f := by
  have kept : ∀ a, SameAttempt (if which a then set a else a) a := by
    intro a
    split
    · exact keeps a
    · exact .refl a
  unfold updateWhere
  rw [List.filter_map, List.map_map]
  have ofJob : (fun a : JobAttempt => decide (a.jobId = id)) ∘ (fun a => if which a then set a else a) =
      fun a => decide (a.jobId = id) := by
    funext a
    simp only [Function.comp_apply, (kept a).jobId]
  rw [ofJob]
  apply List.map_congr_left
  intro a _
  exact fixed _ _ (kept a)

theorem filter_delete {gone : List Uuid} (stays : id ∉ gone) :
    (deleteWhere (fun a => decide (a.jobId ∈ gone)) rows).filter (fun a => decide (a.jobId = id)) =
      rows.filter fun a => decide (a.jobId = id) := by
  unfold deleteWhere
  rw [List.filter_filter]
  apply List.filter_congr
  intro a _
  by_cases isId : a.jobId = id
  · simp [isId, stays]
  · simp [isId]

end LastAttempt

/-- A report of a worker that its execution has ended. -/
def Call.isReport : Call → Bool
  | .start (.completeJob _ _ _) => true
  | .start (.failJob _ _ _ _) => true
  | _ => false

/-- What a unit does to the attempt rows. -/
inductive AttemptStep (env : Env) (db db' : Db) : Call → Progress → Prop where
  | same {c p} (noLease : c.lease p = none) (noReport : c.isReport = true → c.written p = [])
      (notClosing : ∀ ids, c ≠ .closeExpired ids) (notPurge : c.isPurge = false)
      (rows : db'.attempts = db.attempts) (seq : db'.attemptSeq = db.attemptSeq) : AttemptStep env db db' c p
  | opened {c p worker job} (lease : c.lease p = some (worker, job)) (noReport : c.isReport = false)
      (notClosing : ∀ ids, c ≠ .closeExpired ids) (notPurge : c.isPurge = false)
      (rows : db'.attempts = db.attempts ++ [db.attemptRow env.now worker job])
      (seq : db'.attemptSeq = db.attemptSeq + 1) : AttemptStep env db db' c p
  | closed {c p ids which set} (noLease : c.lease p = none)
      (who : (c.isReport = true ∧ c.written p = ids) ∨ c = .closeExpired ids) (notPurge : c.isPurge = false)
      (ofJobs : ∀ a, which a = decide (a.jobId ∈ ids))
      (keeps : ∀ a, SameAttempt (set a) a) (ended : ∀ a, (set a).status ≠ .running)
      (rows : db'.attempts = closeAttempts which set db.attempts) (seq : db'.attemptSeq = db.attemptSeq) :
      AttemptStep env db db' c p
  | purged {olderThan p}
      (rows : db'.attempts = deleteWhere
        (fun a => decide (a.jobId ∈ (db.jobs.filter (Db.purgeable olderThan)).map Job.id)) db.attempts)
      (jobs : db'.jobs = deleteWhere (Db.purgeable olderThan) db.jobs)
      (seq : db'.attemptSeq = db.attemptSeq) : AttemptStep env db db' (.start (.purgeFinished olderThan)) p

section Follow

variable {env : Env} {db : Db}

theorem attempt_step_lease (worker : Uuid) (queues : List String) (secs : Int) :
    AttemptStep env db ((Call.start (.leaseNext worker queues secs)).step env db).1
      (.start (.leaseNext worker queues secs)) ((Call.start (.leaseNext worker queues secs)).step env db).2 := by
  simp only [Call.step]
  obtain ⟨none, -⟩ | ⟨pick, -, -, -, leased⟩ := db.leaseNext_spec env worker queues secs
  · rw [none]
    exact .same rfl (by simp [Call.isReport]) (by simp) rfl rfl rfl
  · rw [leased]
    exact .opened rfl rfl (by simp) rfl rfl rfl

theorem attempt_step_complete (keyed : Keyed Job.id db.jobs) (id worker : Uuid) (result : Option Json) :
    AttemptStep env db ((Call.start (.completeJob id worker result)).step env db).1
      (.start (.completeJob id worker result)) ((Call.start (.completeJob id worker result)).step env db).2 := by
  simp only [Call.step]
  obtain ⟨none, -⟩ | ⟨j, -, -, -, done⟩ := Db.completeJob_spec keyed env id worker result
  · simp only [none]
    exact .same rfl (fun _ => rfl) (by simp) rfl rfl rfl
  · simp only [done]
    refine .closed rfl (.inl ⟨rfl, (rfl : _ = [id])⟩) rfl ?_ ?_ ?_ rfl rfl
    · intro a
      simp only [List.mem_singleton]
    · intro a
      constructor <;> rfl
    · intro a
      simp

theorem attempt_step_fail (id worker : Uuid) (error : String) (timedOut : Bool) :
    AttemptStep env db ((Call.start (.failJob id worker error timedOut)).step env db).1
      (.start (.failJob id worker error timedOut)) ((Call.start (.failJob id worker error timedOut)).step env db).2 := by
  simp only [Call.step]
  obtain ⟨⟨e, refused⟩, -⟩ | ⟨j, -, -, -, done⟩ := db.failJob_spec env id worker error timedOut
  · simp only [refused]
    exact .same rfl (fun _ => rfl) (by simp) rfl rfl rfl
  · simp only [done]
    refine .closed rfl (.inl ⟨rfl, (rfl : _ = [id])⟩) rfl ?_ ?_ ?_ rfl rfl
    · intro a
      simp only [List.mem_singleton]
    · intro a
      constructor <;> rfl
    · intro a
      cases timedOut <;> simp

/-- **Every unit is one of these.** -/
theorem Call.attempt_step (keyed : Keyed Job.id db.jobs) (c : Call) :
    AttemptStep env db (c.step env db).1 c (c.step env db).2 := by
  have other : ∀ c : Call, (∀ p, c.lease p = none) → c.isReport = false → (∀ ids, c ≠ .closeExpired ids) →
      c.isPurge = false → (c.step env db).1.attempts = db.attempts → (c.step env db).1.attemptSeq = db.attemptSeq →
      AttemptStep env db (c.step env db).1 c (c.step env db).2 := by
    intro c noLease noReport notClosing notPurge rows seq
    exact .same (noLease _) (by simp [noReport]) notClosing notPurge rows seq
  cases c with
  | start request =>
    cases request with
    | leaseNext worker queues secs => exact attempt_step_lease worker queues secs
    | completeJob id worker result => exact attempt_step_complete keyed id worker result
    | failJob id worker error timedOut => exact attempt_step_fail id worker error timedOut
    | purgeFinished olderThan => exact .purged rfl rfl rfl
    | cancelJob id =>
      refine other _ (fun _ => rfl) rfl (by simp) rfl ?_ ?_
      · rw [cancelJob_fst]
        rfl
      · rw [cancelJob_fst]
        rfl
    | retryJob id =>
      refine other _ (fun _ => rfl) rfl (by simp) rfl ?_ ?_
      · rw [retryJob_fst]
        rfl
      · rw [retryJob_fst]
        rfl
    | recoverExpiredLeases limit =>
      refine other _ (fun _ => rfl) rfl (by simp) rfl ?_ ?_
      · rw [recoverExpiredLeases_fst]
        split <;> rfl
      · rw [recoverExpiredLeases_fst]
        split <;> rfl
    | _ => exact other _ (fun _ => rfl) rfl (by simp) rfl rfl rfl
  | closeExpired ids =>
    refine .closed rfl (.inr rfl) rfl (fun _ => rfl) ?_ ?_ rfl rfl
    · intro a
      constructor <;> rfl
    · intro a
      simp
  | submitInsert s =>
    refine other _ (fun _ => rfl) rfl (by simp) rfl (by simp) ?_
    rw [submitInsert_fst]
    obtain eq | eq := db.insertJob_fst env s.job <;> rw [eq]
  | submitReadQueue s => exact other _ (fun _ => rfl) rfl (by simp) rfl (by simp) (by simp)
  | submitLookup s => exact other _ (fun _ => rfl) rfl (by simp) rfl (by simp) (by simp)
  | submitFallback s => exact other _ (fun _ => rfl) rfl (by simp) rfl (by simp) (by simp)
  | _ => exact other _ (fun _ => rfl) rfl (by simp) rfl rfl rfl

end Follow

namespace AttemptStep

variable {env : Env} {db db' : Db} {c : Call} {p : Progress}

/-- Where a row after a unit comes from. Only a lease makes a row run. -/
theorem stems (attempt : AttemptStep env db db' c p) {a' : JobAttempt} (mem : a' ∈ db'.attempts) :
    (∃ a ∈ db.attempts, SameAttempt a' a ∧ (a'.status = .running → a.status = .running)) ∨
    ∃ worker job, c.lease p = some (worker, job) ∧ a' = db.attemptRow env.now worker job := by
  cases attempt with
  | same _ _ _ _ rows => exact .inl ⟨a', rows ▸ mem, .refl a', id⟩
  | @opened _ _ worker job lease _ _ _ rows =>
    rw [rows, List.mem_append, List.mem_singleton] at mem
    rcases mem with mem | rfl
    · exact .inl ⟨a', mem, .refl a', id⟩
    · exact .inr ⟨worker, job, lease, rfl⟩
  | closed _ _ _ _ keeps ended rows =>
    obtain ⟨a, aMem, rfl⟩ := mem_updateWhere.1 (rows ▸ mem)
    refine .inl ⟨a, aMem, ?_⟩
    split
    · exact ⟨keeps a, fun running => absurd running (ended a)⟩
    · exact ⟨.refl a, fun running => running⟩
  | purged rows => exact .inl ⟨a', (mem_deleteWhere.1 (rows ▸ mem)).1, .refl a', fun running => running⟩

/-- The rows a lease leaves. -/
theorem rows_of_lease (attempt : AttemptStep env db db' c p) {worker : Uuid} {job : Job}
    (leased : c.lease p = some (worker, job)) :
    db'.attempts = db.attempts ++ [db.attemptRow env.now worker job] := by
  cases attempt with
  | opened lease _ _ _ rows =>
    obtain ⟨rfl, rfl⟩ := Prod.mk.inj (Option.some.inj (lease.symm.trans leased))
    exact rows
  | same noLease => cases noLease.symm.trans leased
  | closed noLease => cases noLease.symm.trans leased
  | purged => cases leased

/-- A job that is still there is none of those a purge deletes. -/
theorem not_purged (keyed : Keyed Job.id db.jobs) {olderThan : Int}
    (jobs : db'.jobs = deleteWhere (Db.purgeable olderThan) db.jobs) {id : Uuid} {j : Job} (row : db'.job? id = some j) :
    id ∉ (db.jobs.filter (Db.purgeable olderThan)).map Job.id := by
  intro gone
  obtain ⟨old, oldMem, isId⟩ := List.mem_map.1 gone
  obtain ⟨oldMem, purgeable⟩ := List.mem_filter.1 oldMem
  obtain ⟨mem, stays⟩ := mem_deleteWhere.1 (jobs ▸ Db.job?_mem row)
  obtain rfl := keyed.unique oldMem mem (isId.trans (Db.job?_id row).symm)
  exact absurd (stays.symm.trans purgeable) Bool.false_ne_true

/-- A row stays as long as its job does. -/
theorem stays (attempt : AttemptStep env db db' c p) (keyed : Keyed Job.id db.jobs) {a : JobAttempt}
    (mem : a ∈ db.attempts) {j : Job} (row : db'.job? a.jobId = some j) : ∃ a' ∈ db'.attempts, SameAttempt a' a := by
  cases attempt with
  | same _ _ _ _ rows => exact ⟨a, rows ▸ mem, .refl a⟩
  | opened _ _ _ _ rows => exact ⟨a, rows ▸ List.mem_append_left _ mem, .refl a⟩
  | closed _ _ _ _ keeps _ rows =>
    rw [rows]
    refine ⟨_, mem_updateWhere.2 ⟨a, mem, rfl⟩, ?_⟩
    split
    · exact keeps a
    · exact .refl a
  | purged rows jobs =>
    exact ⟨a, rows ▸ mem_deleteWhere.2 ⟨mem, decide_eq_false (not_purged keyed jobs row)⟩, .refl a⟩

/-- A job that was not leased keeps its rows, but for the columns that close them. -/
theorem column_kept (attempt : AttemptStep env db db' c p) (keyed : Keyed Job.id db.jobs) {id : Uuid}
    (notLeased : ∀ worker job, c.lease p = some (worker, job) → job.id ≠ id) {j : Job}
    (row : db'.job? id = some j) {β : Type} {f : JobAttempt → β} (fixed : ∀ a b, SameAttempt a b → f a = f b) :
    (db'.attempts.filter fun a => decide (a.jobId = id)).map f =
      (db.attempts.filter fun a => decide (a.jobId = id)).map f := by
  cases attempt with
  | same _ _ _ _ rows => rw [rows]
  | @opened _ _ worker job lease _ _ _ rows =>
    have other : ¬ (db.attemptRow env.now worker job).jobId = id := notLeased worker job lease
    rw [rows, List.filter_append, List.filter_cons_of_neg (by simpa using other), List.filter_nil, List.append_nil]
  | closed _ _ _ _ keeps _ rows => rw [rows, closeAttempts, column_update fixed keeps]
  | purged rows jobs => rw [rows, filter_delete (not_purged keyed jobs row)]

/-- A job that was not leased keeps its latest row. -/
theorem last_kept (attempt : AttemptStep env db db' c p) (keyed : Keyed Job.id db.jobs) {id : Uuid}
    (notLeased : ∀ worker job, c.lease p = some (worker, job) → job.id ≠ id) {j : Job}
    (row : db'.job? id = some j) : lastAttempt db'.attempts id = lastAttempt db.attempts id := by
  unfold lastAttempt
  rw [attempt.column_kept keyed notLeased row fun a b same => same.id]

/-- A report of a job, and the closing statement of a sweep that took it back, leave it no running row. -/
theorem ended (attempt : AttemptStep env db db' c p) {id : Uuid}
    (ends : (c.isReport = true ∧ id ∈ c.written p) ∨ ∃ ids, c = .closeExpired ids ∧ id ∈ ids) {a : JobAttempt}
    (mem : a ∈ db'.attempts) (isId : a.jobId = id) : a.status ≠ .running := by
  cases attempt with
  | same _ noReport notClosing =>
    rcases ends with ⟨report, written⟩ | ⟨ids, closing, -⟩
    · rw [noReport report] at written
      exact absurd written List.not_mem_nil
    · exact absurd closing (notClosing ids)
  | opened _ noReport notClosing =>
    rcases ends with ⟨report, -⟩ | ⟨ids, closing, -⟩
    · exact absurd (noReport.symm.trans report) Bool.false_ne_true
    · exact absurd closing (notClosing ids)
  | @closed _ _ ids _ _ _ who _ ofJobs _ stopped rows =>
    have listed : id ∈ ids := by
      rcases who with ⟨report, same⟩ | rfl
      · rcases ends with ⟨-, written⟩ | ⟨_, rfl, -⟩
        · exact same ▸ written
        · cases report
      · rcases ends with ⟨report, -⟩ | ⟨_, same, listed⟩
        · cases report
        · exact Call.closeExpired.inj same ▸ listed
    obtain ⟨old, oldMem, rfl⟩ := mem_updateWhere.1 (rows ▸ mem)
    split at isId
    · rename_i hit
      rw [if_pos hit]
      exact stopped old
    · rename_i miss
      rw [if_neg miss]
      simpa [ofJobs, isId, listed] using miss
  | purged =>
    rcases ends with ⟨report, -⟩ | ⟨ids, closing, -⟩
    · cases report
    · cases closing

end AttemptStep

/-! ## What every reachable state satisfies -/

/-- Attempt rows are numbered from the sequence and belong to jobs that exist. -/
structure Sys.AttemptsSound (s : Sys) : Prop where
  keyed : Keyed JobAttempt.id s.db.attempts
  numbered : ∀ a ∈ s.db.attempts, a.id < s.db.attemptSeq
  owned : ∀ a ∈ s.db.attempts, ∃ j, s.db.job? a.jobId = some j

namespace AttemptStep

variable {env : Env} {db db' : Db} {c : Call} {p : Progress}

theorem keyed (attempt : AttemptStep env db db' c p) (keyed : Keyed JobAttempt.id db.attempts)
    (numbered : ∀ a ∈ db.attempts, a.id < db.attemptSeq) : Keyed JobAttempt.id db'.attempts := by
  cases attempt with
  | same _ _ _ _ rows => exact rows ▸ keyed
  | opened _ _ _ _ rows =>
    rw [rows]
    apply keyed.append
    intro a mem
    exact Nat.ne_of_lt (numbered a mem)
  | closed _ _ _ _ keeps _ rows => exact rows ▸ keyed.updateWhere fun a => (keeps a).id
  | purged rows => exact rows ▸ keyed.deleteWhere

theorem seq_le (attempt : AttemptStep env db db' c p) : db.attemptSeq ≤ db'.attemptSeq := by
  cases attempt <;> omega

theorem seq_of_lease (attempt : AttemptStep env db db' c p) {worker : Uuid} {job : Job}
    (leased : c.lease p = some (worker, job)) : db'.attemptSeq = db.attemptSeq + 1 := by
  cases attempt with
  | opened _ _ _ _ _ seq => exact seq
  | same noLease => cases noLease.symm.trans leased
  | closed noLease => cases noLease.symm.trans leased
  | purged => cases leased

/-- A purge leaves no row of a job it deletes. -/
theorem spared (attempt : AttemptStep env db db' c p) (purge : c.isPurge = true) {a : JobAttempt}
    (mem : a ∈ db'.attempts) {j : Job} (row : db.job? a.jobId = some j) : db'.job? a.jobId ≠ none := by
  cases attempt with
  | same _ _ _ notPurge => exact absurd (notPurge.symm.trans purge) Bool.false_ne_true
  | opened _ _ _ notPurge => exact absurd (notPurge.symm.trans purge) Bool.false_ne_true
  | closed _ _ notPurge => exact absurd (notPurge.symm.trans purge) Bool.false_ne_true
  | @purged olderThan _ rows jobs =>
    obtain ⟨-, stays⟩ := mem_deleteWhere.1 (rows ▸ mem)
    have notPurged : Db.purgeable olderThan j = false := by
      rw [Bool.eq_false_iff]
      intro purged
      exact of_decide_eq_false stays
        (List.mem_map.2 ⟨j, List.mem_filter.2 ⟨Db.job?_mem row, purged⟩, Db.job?_id row⟩)
    intro gone
    exact lookup_none_iff.1 gone j (jobs ▸ mem_deleteWhere.2 ⟨Db.job?_mem row, notPurged⟩) (Db.job?_id row)

end AttemptStep

theorem Sys.AttemptsSound.commit {s : Sys} {i : Nat} {u : Commit} (attempts : s.AttemptsSound) (sound : s.Sound)
    (on : u.db = s.db) (fresh : u.env.uuid ∉ s.issued) : (s.commit i u).AttemptsSound := by
  have attempt : AttemptStep u.env s.db u.after u.call u.reply := by
    rw [← on]
    exact Call.attempt_step (on ▸ sound.keyed) u.call
  constructor
  · exact attempt.keyed attempts.keyed attempts.numbered
  · intro a mem
    have seq := attempt.seq_le
    show a.id < u.after.attemptSeq
    obtain ⟨old, oldMem, same, -⟩ | ⟨worker, job, lease, rfl⟩ := attempt.stems mem
    · have old := attempts.numbered old oldMem
      have sameId := same.id
      omega
    · rw [attempt.seq_of_lease lease]
      exact Nat.lt_succ_self _
  · intro a mem
    have life := sound.row_step on fresh a.jobId
    obtain ⟨old, oldMem, same, -⟩ | ⟨worker, job, lease, rfl⟩ := attempt.stems mem
    · obtain ⟨j, row⟩ := attempts.owned old oldMem
      rw [← same.jobId] at row
      obtain ⟨j', row', -⟩ | ⟨purge, -, gone⟩ := life.survives row
      · exact ⟨j', row'⟩
      · exact absurd gone (attempt.spared purge mem row)
    · obtain ⟨-, -, -, row', -⟩ := life.of_lease lease rfl
      exact ⟨job, row'⟩

theorem Step.attemptsSound {s s' : Sys} {l : Label} (sound : s.Sound) (attempts : s.AttemptsSound)
    (step : Step s l s') : s'.AttemptsSound := by
  cases step with
  | reorder same =>
    refine ⟨attempts.keyed, attempts.numbered, fun a mem => ?_⟩
    obtain ⟨j, row⟩ := attempts.owned a mem
    exact ⟨j, (sound.keyed.lookup_perm same).trans row⟩
  | commit inFlight on now fresh => exact attempts.commit sound on fresh
  | _ => exact ⟨attempts.keyed, attempts.numbered, attempts.owned⟩

theorem Sys.attemptsSound_of_run {t : Int} {ls : List Label} {s : Sys} (run : Run Step (Sys.init t) ls s) :
    s.AttemptsSound := by
  induction run with
  | nil =>
    constructor
    · exact List.nodup_nil
    · intro a mem
      exact absurd mem List.not_mem_nil
    · intro a mem
      exact absurd mem List.not_mem_nil
  | snoc before last ih => exact last.attemptsSound (Sys.sound_of_run before) ih

/-- The latest attempt row of the job is the one its lease opened. -/
def Db.LeaseRow (db : Db) (j : Job) : Prop :=
  ∃ a ∈ db.attempts, lastAttempt db.attempts j.id = some a.id ∧ a.jobId = j.id ∧ a.attempt = j.attempts ∧
    a.workerId = j.lockedBy

theorem Step.leaseRow {s s' : Sys} {l : Label} (sound : s.Sound) (step : Step s l s')
    (rows : ∀ id j, s.db.job? id = some j → j.status = .processing → s.db.LeaseRow j) {id : Uuid} {j' : Job}
    (row' : s'.db.job? id = some j') (processing : j'.status = .processing) : s'.db.LeaseRow j' := by
  cases step with
  | reorder same => exact rows id j' ((sound.keyed.lookup_perm same).symm.trans row') processing
  | @commit i u inFlight on now fresh =>
    have attempt : AttemptStep u.env s.db u.after u.call u.reply := by
      rw [← on]
      exact Call.attempt_step (on ▸ sound.keyed) u.call
    have life := sound.row_step on fresh id
    by_cases leases : u.lease.map (·.2.id) = some id
    · obtain ⟨⟨worker, job⟩, lease, isId⟩ := Option.map_eq_some_iff.1 leases
      obtain ⟨j, secs, -, row'', eq, -⟩ := life.of_lease lease isId
      obtain rfl := Option.some.inj (row'.symm.trans row'')
      have opened := attempt.rows_of_lease lease
      refine ⟨s.db.attemptRow u.env.now worker j', ?_, ?_, rfl, rfl, ?_⟩
      · rw [Sys.commit, opened]
        exact List.mem_append_right _ (List.mem_singleton_self _)
      · rw [Sys.commit, opened, lastAttempt_open]
        exact if_pos rfl
      · rw [eq]
        rfl
    · obtain ⟨j, row, was, holder, attempts⟩ := life.processing leases row' processing
      obtain ⟨a, mem, last, ofJob, number, worker⟩ := rows id j row was
      have sameId : j'.id = j.id := (Db.job?_id row').trans (Db.job?_id row).symm
      have there : u.after.job? a.jobId = some j' := by
        rw [ofJob, Db.job?_id row]
        exact row'
      obtain ⟨a', mem', same⟩ := attempt.stays sound.keyed mem there
      have kept := attempt.last_kept sound.keyed (fun _ _ lease isId => leases (by simp [Commit.lease, lease, isId])) row'
      refine ⟨a', mem', ?_, ?_, ?_, ?_⟩
      · rw [same.id, ← last, sameId, Db.job?_id row]
        exact kept
      · exact same.jobId.trans (ofJob.trans sameId.symm)
      · exact same.attempt.trans (number.trans attempts.symm)
      · exact same.workerId.trans (worker.trans holder.symm)
  | _ => exact rows id j' row' processing

/-- **The attempt of a lease.** In every state of every run, the latest attempt row
of a job that is processing carries the number and the worker of its lease. -/
theorem Sys.leaseRow_of_run {t : Int} {ls : List Label} {s : Sys} (run : Run Step (Sys.init t) ls s) :
    ∀ id j, s.db.job? id = some j → j.status = .processing → s.db.LeaseRow j := by
  induction run with
  | nil =>
    intro id j row
    exact absurd (Db.job?_mem row) List.not_mem_nil
  | snoc before last ih =>
    intro id j row processing
    exact last.leaseRow (Sys.sound_of_run before) ih row processing

end Djq
