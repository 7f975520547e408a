import Djq.Lease.Pause
import Djq.Relational.Flow
import Djq.Relational.Group
import Djq.Transition.Tally

/-!
# The statistics of a queue

`queue_stats` reads the queue, then the counts of its jobs by status. What it
returns is compared with the rows, and its total with what has been submitted to
the queue and purged from it since the database was new.
-/

namespace Djq

open Relational Transition

structure QueueStats where
  queue : String
  paused : Bool
  queued : Nat
  scheduled : Nat
  processing : Nat
  completed : Nat
  failed : Nat
  retrying : Nat
  cancelled : Nat
  deadLettered : Nat
  deriving DecidableEq

namespace QueueStats

/-- `match status.as_str()` of one row of the answer. -/
def record (stats : QueueStats) (row : String × Nat) : QueueStats :=
  match row.1 with
  | "queued" => { stats with queued := row.2 }
  | "scheduled" => { stats with scheduled := row.2 }
  | "processing" => { stats with processing := row.2 }
  | "completed" => { stats with completed := row.2 }
  | "failed" => { stats with failed := row.2 }
  | "retrying" => { stats with retrying := row.2 }
  | "cancelled" => { stats with cancelled := row.2 }
  | "dead_lettered" => { stats with deadLettered := row.2 }
  | _ => stats

/-- The field of a status. -/
def count (stats : QueueStats) : JobStatus → Nat
  | .queued => stats.queued
  | .scheduled => stats.scheduled
  | .processing => stats.processing
  | .completed => stats.completed
  | .failed => stats.failed
  | .retrying => stats.retrying
  | .cancelled => stats.cancelled
  | .deadLettered => stats.deadLettered

def total (stats : QueueStats) : Nat :=
  stats.queued + stats.scheduled + stats.processing + stats.completed + stats.failed + stats.retrying +
    stats.cancelled + stats.deadLettered

theorem record_count (stats : QueueStats) (text : String) (n : Nat) (status : JobStatus) :
    (stats.record (text, n)).count status = if text = status.asStr then n else stats.count status := by
  unfold record
  split <;> rename_i isText
  all_goals cases status
  all_goals first
    | rfl
    | simp_all [count, JobStatus.asStr]

end QueueStats

/-- `queue_stats`: the queue as its first statement finds it, the groups as its second returns them. -/
def PgStore.queueStats (name : String) (first : Db) (groups : List (String × Nat)) : Except QueueError QueueStats :=
  match first.queue? name with
  | none => .error (.queueNotFound name)
  | some queue => .ok (groups.foldl QueueStats.record ⟨name, queue.paused, 0, 0, 0, 0, 0, 0, 0, 0⟩)

/-- `SELECT status, COUNT(*) FROM jobs WHERE queue = $1 GROUP BY status`. -/
def Db.StatusCounts (db : Db) (name : String) (groups : List (String × Nat)) : Prop :=
  Grouped (fun j : Job => j.status.asStr) (db.jobs.filter fun j => decide (j.queue = name)) groups

/-! ## What comes and goes -/

namespace Label

/-- A new job among those looked at. -/
def insertedOf (has : Job → Bool) (l : Label) : Nat := l.inserted.toList.countP has

/-- Those of the jobs looked at that a purge deletes. -/
def purgedOf (has : Job → Bool) : Label → Nat
  | .commit _ u =>
    match u.call with
    | .start (.purgeFinished olderThan) => u.db.jobs.countP fun j => Db.purgeable olderThan j && has j
    | _ => 0
  | _ => 0

end Label

/-- A matter of the columns a job is submitted with. -/
def Job.Fixed (has : Job → Bool) : Prop := ∀ j j', SameSubmission j j' → has j = has j'

section Unit

variable {env : Env} {db : Db} {has : Job → Bool}

/-- A unit that neither inserts nor purges keeps the number of jobs with a fixed property. -/
theorem countP_fixed_kept (fixed : Job.Fixed has) (keyed : Keyed Job.id db.jobs) (unused : db.job? env.uuid = none)
    {c : Call} (noInsert : ∀ s j, c = .submitInsert s → (c.step env db).2 ≠ .done (.ok (.submission ⟨j, true⟩)))
    (noPurge : c.isPurge = false) : (c.step env db).1.jobs.countP has = db.jobs.countP has := by
  have keyed' : Keyed Job.id (c.step env db).1.jobs := (c.jobs_step env db).keyed keyed
  have life : ∀ id, RowStep env db id c (c.step env db).2 (db.job? id) ((c.step env db).1.job? id) := fun id =>
    Call.row_step keyed unused c
  have stays : ∀ a ∈ (c.step env db).1.jobs, has a = true → (fun _ => false) a = false →
      ∃ b ∈ db.jobs, b.id = a.id ∧ has b = true := by
    intro a mem here _
    obtain ⟨j, row, same⟩ | ⟨s, insert, reply, -⟩ := (life a.id).origin (keyed'.lookup_self mem)
    · exact ⟨j, Db.job?_mem row, Db.job?_id row, (fixed a j same).symm.trans here⟩
    · exact absurd reply (noInsert s a insert)
  have kept : ∀ a ∈ db.jobs, has a = true → (fun _ => false) a = false →
      ∃ b ∈ (c.step env db).1.jobs, b.id = a.id ∧ has b = true := by
    intro a mem here _
    obtain ⟨j, row, same⟩ | ⟨purge, -⟩ := (life a.id).survives (keyed.lookup_self mem)
    · exact ⟨j, Db.job?_mem row, Db.job?_id row, (fixed j a same).trans here⟩
    · cases noPurge.symm.trans purge
  have less := keyed'.countP_le_gained stays
  have more := keyed.countP_le_gained kept
  simp only [List.countP_false] at less more
  exact le_antisymm less more

/-- What a submission's INSERT that answers with a row has done. -/
theorem submitInsert_answers {job : Submittable} {sub : Submission}
    (reply : ((Call.submitInsert job).step env db).2 = .done (.ok (.submission sub))) :
    sub = ⟨job.job.row env, true⟩ ∧ ((Call.submitInsert job).step env db).1.jobs = db.jobs ++ [job.job.row env] := by
  obtain ⟨ends, -⟩ | ⟨ends, -⟩ | ⟨ends, -⟩ := db.insertJob_spec env job.job
  · simp only [Call.step, ends] at reply
    cases reply
  · simp only [Call.step, ends] at reply
    split at reply <;> cases reply
  · simp only [Call.step, ends] at reply ⊢
    injection reply with reply
    injection reply with reply
    injection reply with reply
    exact ⟨reply.symm, trivial⟩

end Unit

/-- One step: the jobs after it and those it purges are the jobs before and those it inserts. -/
theorem Step.flow {has : Job → Bool} (fixed : Job.Fixed has) {s s' : Sys} {l : Label} (sound : s.Sound)
    (step : Step s l s') :
    s'.db.jobs.countP has + l.purgedOf has = s.db.jobs.countP has + l.insertedOf has := by
  cases step with
  | @reorder jobs same => exact same.countP_eq has
  | tick later => rfl
  | begin request => rfl
  | stop inFlight => rfl
  | @commit i u inFlight on now fresh =>
    obtain ⟨c, env, db⟩ := u
    obtain rfl : db = s.db := on
    show (c.step env s.db).1.jobs.countP has + _ = _
    by_cases insert : ∃ job sub, c = .submitInsert job ∧ (c.step env s.db).2 = .done (.ok (.submission sub))
    · obtain ⟨job, sub, rfl, reply⟩ := insert
      obtain ⟨rfl, jobs⟩ := submitInsert_answers reply
      have inserted : (Label.commit i ⟨.submitInsert job, env, s.db⟩).inserted = some (job.job.row env) := by
        unfold Label.inserted Commit.reply
        simp only [reply]
      rw [jobs, List.countP_append, Label.insertedOf, inserted]
      rfl
    · have none : (Label.commit i ⟨c, env, s.db⟩).inserted = none := by
        simp only [Label.inserted]
        split
        · rename_i sub reply
          exact absurd ⟨_, sub, rfl, reply⟩ insert
        · rfl
      have zero : (Label.commit i ⟨c, env, s.db⟩).insertedOf has = 0 := by
        unfold Label.insertedOf
        rw [none]
        rfl
      rw [zero, Nat.add_zero]
      cases purge : c.isPurge with
      | false =>
        have noPurge : (Label.commit i ⟨c, env, s.db⟩).purgedOf has = 0 := by
          simp only [Label.purgedOf]
          split
          · cases purge
          · rfl
        rw [noPurge, Nat.add_zero]
        exact countP_fixed_kept fixed sound.keyed (sound.unused fresh)
          (fun job row called reply => insert ⟨job, _, called, reply⟩) purge
      | true =>
        unfold Call.isPurge at purge
        split at purge
        · exact countP_deleteWhere _ _ _
        · cases purge

theorem Sys.flow_of_run {has : Job → Bool} (fixed : Job.Fixed has) {t : Int} {ls : List Label} {s : Sys}
    (run : Run Step (Sys.init t) ls s) :
    s.db.jobs.countP has + tally (Label.purgedOf has) ls = tally (Label.insertedOf has) ls := by
  induction run with
  | nil => rfl
  | snoc before last ih =>
    have one := last.flow fixed (Sys.sound_of_run before)
    rw [tally_snoc, tally_snoc]
    omega

/-- A job of the queue. -/
def Job.isIn (name : String) (j : Job) : Bool := decide (j.queue = name)

theorem Job.isIn_fixed (name : String) : Job.Fixed (Job.isIn name) := by
  intro j j' same
  rw [isIn, isIn, same.queue]

/-! ## The statistics -/

theorem JobStatus.asStr_inj {a b : JobStatus} (same : a.asStr = b.asStr) : a = b := by
  have parsed := congrArg JobStatus.fromStr same
  rw [JobStatus.fromStr_asStr, JobStatus.fromStr_asStr] at parsed
  exact Except.ok.inj parsed

/-- The eight counts are those of all jobs of the queue. -/
theorem countP_statuses (t : List Job) :
    t.countP (fun j => decide (j.status = .queued)) + t.countP (fun j => decide (j.status = .scheduled)) +
      t.countP (fun j => decide (j.status = .processing)) + t.countP (fun j => decide (j.status = .completed)) +
      t.countP (fun j => decide (j.status = .failed)) + t.countP (fun j => decide (j.status = .retrying)) +
      t.countP (fun j => decide (j.status = .cancelled)) + t.countP (fun j => decide (j.status = .deadLettered)) =
    t.length := by
  induction t with
  | nil => rfl
  | cons j t ih =>
    simp only [List.countP_cons, List.length_cons]
    cases j.status <;> simp <;> omega

/-- The second statement's groups, read into the record. -/
theorem Db.StatusCounts.read {db : Db} {name : String} {groups : List (String × Nat)}
    (grouped : db.StatusCounts name groups) (start : QueueStats) (zero : ∀ status, start.count status = 0)
    (status : JobStatus) :
    (groups.foldl QueueStats.record start).count status =
      (db.jobs.filter (Job.isIn name)).countP fun j => decide (j.status = status) := by
  have read := Grouped.fold QueueStats.record_count grouped status (zero status)
  rw [read]
  apply List.countP_congr
  intro j _
  simp only [decide_eq_true_eq]
  exact ⟨JobStatus.asStr_inj, congrArg JobStatus.asStr⟩

theorem queueStats_record_queue (groups : List (String × Nat)) (start : QueueStats) :
    (groups.foldl QueueStats.record start).queue = start.queue ∧
      (groups.foldl QueueStats.record start).paused = start.paused := by
  induction groups generalizing start with
  | nil => exact ⟨rfl, rfl⟩
  | cons row rest ih =>
    obtain ⟨queue, paused⟩ := ih (start.record row)
    have same : (start.record row).queue = start.queue ∧ (start.record row).paused = start.paused := by
      unfold QueueStats.record
      split <;> exact ⟨rfl, rfl⟩
    exact ⟨queue.trans same.1, paused.trans same.2⟩

/-- **The statistics are the books of the queue.** `queue_stats` fails exactly where the
queue did not exist when it was read. Otherwise, in whatever order the groups come
and whatever has been committed between its two statements, it shows the flag of
the first and counts the jobs of the second, by status; and what it counts in all,
with what has ever been purged from the queue, is what has ever been submitted to it. -/
theorem queue_stats_account {t : Int} {pre mid : List Label} {s₁ s : Sys} (before : Run Step (Sys.init t) pre s₁)
    (run : Run Step s₁ mid s) (name : String) {groups : List (String × Nat)} (grouped : s.db.StatusCounts name groups) :
    (PgStore.queueStats name s₁.db groups = .error (.queueNotFound name) ∧ ∀ q ∈ s₁.db.queues, q.name ≠ name) ∨
    ∃ stats, PgStore.queueStats name s₁.db groups = .ok stats ∧ (∃ q ∈ s₁.db.queues, q.name = name) ∧
      stats.queue = name ∧ stats.paused = (latest (Label.pauses name) pre).getD false ∧
      (∀ status, stats.count status = (s.db.jobs.filter (Job.isIn name)).countP fun j => decide (j.status = status)) ∧
      stats.total + tally (Label.purgedOf (Job.isIn name)) (pre ++ mid) =
        tally (Label.insertedOf (Job.isIn name)) (pre ++ mid) := by
  unfold PgStore.queueStats
  cases found : s₁.db.queue? name with
  | none => exact .inl ⟨rfl, lookup_none_iff.1 found⟩
  | some q =>
    have paused := Sys.paused_of_run before name
    rw [Db.paused, found, Option.map_some, Option.getD_some] at paused
    have read := fun status => grouped.read ⟨name, q.paused, 0, 0, 0, 0, 0, 0, 0, 0⟩ (by intro s; cases s <;> rfl) status
    obtain ⟨queue, flag⟩ := queueStats_record_queue groups ⟨name, q.paused, 0, 0, 0, 0, 0, 0, 0, 0⟩
    simp only
    generalize groups.foldl QueueStats.record ⟨name, q.paused, 0, 0, 0, 0, 0, 0, 0, 0⟩ = stats at read queue flag ⊢
    refine .inr ⟨stats, rfl, ⟨q, (lookup_mem found).1, (lookup_mem found).2⟩, queue, flag.trans paused, read, ?_⟩
    have all := countP_statuses (s.db.jobs.filter (Job.isIn name))
    rw [← read .queued, ← read .scheduled, ← read .processing, ← read .completed, ← read .failed, ← read .retrying,
      ← read .cancelled, ← read .deadLettered, ← List.countP_eq_length_filter] at all
    have flow := Sys.flow_of_run (Job.isIn_fixed name) (before.append run)
    have total : stats.total = s.db.jobs.countP (Job.isIn name) := all
    omega

/-- The groups of a queue with one job. -/
theorem queue_stats_account_one :
    let s := (Sys.init 0).replay (Action.submit 0 (.sample 2 none NewJob.sample_twice) 7)
    ∃ stats, PgStore.queueStats "emails" s.db [("queued", 1)] = .ok stats ∧
      stats.total + 0 = tally (Label.insertedOf (Job.isIn "emails"))
        ((Sys.init 0).trace (Action.submit 0 (.sample 2 none NewJob.sample_twice) 7)) := by
  have run := @Sys.replay_run (Sys.init 0) (Action.submit 0 (.sample 2 none NewJob.sample_twice) 7) (by decide)
  have grouped : Db.StatusCounts ((Sys.init 0).replay (Action.submit 0 (.sample 2 none NewJob.sample_twice) 7)).db
      "emails" [("queued", 1)] := List.Perm.refl _
  obtain ⟨-, absent⟩ | ⟨stats, read, -, -, -, -, account⟩ := queue_stats_account run .nil "emails" grouped
  · exact absurd rfl (absent ⟨"emails", false, none, 0⟩ (by decide))
  · rw [List.append_nil] at account
    exact ⟨stats, read, account⟩

end Djq
