import Djq.Lifecycle.Epochs
import Djq.Transition.Latest
import Djq.Worker.Provenance

/-!
# What the dates say

Every date in the tables is the time of the commit it stands for: the submission,
the last write, the lease, the completion, the report or the sweep that closed an
attempt, the failure that filed a dead letter. An operator who reads the rows in
the order of their dates reads what has happened.
-/

namespace Djq

open Relational Transition

/-! ## Stamps -/

namespace Call

def isInsert : Call → Bool
  | .submitInsert _ => true
  | _ => false

def isComplete : Call → Bool
  | .start (.completeJob _ _ _) => true
  | _ => false

/-- A unit that closes the running attempts of the job `id`: a report that was
accepted, or the reaper's closing statement. -/
def closes (id : Uuid) : Call → Progress → Bool
  | .closeExpired ids, _ => decide (id ∈ ids)
  | c, p => c.isReport && decide (id ∈ c.written p)

end Call

/-- The time of a commit of this kind that writes the row `id`. -/
def Label.stamp (kind : Call → Bool) (id : Uuid) : Label → Option Int
  | .commit _ u => if kind u.call = true ∧ id ∈ u.written then some u.env.now else none
  | _ => none

/-- The last time a commit of this kind wrote the row `id`. -/
def stamped (kind : Call → Bool) (id : Uuid) (ls : List Label) : Option Int := latest (Label.stamp kind id) ls

/-- The dates `fail_job` leaves. -/
theorem Job.failUpdate_dates (now : Int) (current j : Job) (error : String) :
    (current.failUpdate now error j).createdAt = j.createdAt ∧ (current.failUpdate now error j).updatedAt = now ∧
      (current.failUpdate now error j).lockedAt = none ∧
      (current.failUpdate now error j).completedAt = j.completedAt := by
  unfold Job.failUpdate
  split
  · split <;> exact ⟨rfl, rfl, rfl, rfl⟩
  · exact ⟨rfl, rfl, rfl, rfl⟩

section Columns

variable {t : Int} {ls : List Label} {s : Sys} (run : Run Step (Sys.init t) ls s) {id : Uuid} {j : Job}
  (row : s.db.job? id = some j)

include run row

end Columns

/-! ## The order of the dates of a row -/

/-- The dates of a row, at a reading of the clock. -/
structure Job.InOrder (now : Int) (j : Job) : Prop where
  updated : j.createdAt ≤ j.updatedAt
  past : j.updatedAt ≤ now
  locked : ∀ time, j.lockedAt = some time → j.createdAt ≤ time ∧ time ≤ j.updatedAt
  completed : ∀ time, j.completedAt = some time → j.createdAt ≤ time ∧ time ≤ j.updatedAt

namespace Job.InOrder

variable {now now' : Int} {j j' : Job}

theorem later (dates : j.InOrder now) (later : now ≤ now') : j.InOrder now' := by
  obtain ⟨updated, past, locked, completed⟩ := dates
  exact ⟨updated, by omega, locked, completed⟩

/-- A write that sets `updated_at` to the clock, and the other dates to it, to what they were or to NULL. -/
theorem write (dates : j.InOrder now) (created : j'.createdAt = j.createdAt) (updated : j'.updatedAt = now)
    (locked : j'.lockedAt = some now ∨ j'.lockedAt = none ∨ j'.lockedAt = j.lockedAt)
    (completed : j'.completedAt = some now ∨ j'.completedAt = j.completedAt) : j'.InOrder now := by
  have first := dates.updated
  have past := dates.past
  have between : ∀ time, j.createdAt ≤ time ∧ time ≤ j.updatedAt → j'.createdAt ≤ time ∧ time ≤ j'.updatedAt := by
    intro time
    omega
  refine ⟨by omega, by omega, fun time holds => ?_, fun time holds => ?_⟩
  · rcases locked with eq | eq | eq <;> rw [eq] at holds
    · obtain rfl := Option.some.inj holds
      omega
    · cases holds
    · exact between time (dates.locked time holds)
  · rcases completed with eq | eq <;> rw [eq] at holds
    · obtain rfl := Option.some.inj holds
      omega
    · exact between time (dates.completed time holds)

theorem row_step {env : Env} {db : Db} {id : Uuid} {c : Call} {p : Progress} {r r' : Option Job}
    (life : RowStep env db id c p r r') (before : ∀ j, r = some j → j.InOrder env.now) :
    ∀ j, r' = some j → j.InOrder env.now := by
  intro j' after
  cases life with
  | same => exact before j' after
  | inserted eq =>
    obtain rfl := Option.some.inj after
    subst eq
    exact ⟨Int.le_refl _, Int.le_refl _, nofun, nofun⟩
  | leased =>
    obtain rfl := Option.some.inj after
    exact (before _ rfl).write rfl rfl (.inl rfl) (.inr rfl)
  | renewed =>
    obtain rfl := Option.some.inj after
    exact (before _ rfl).write rfl rfl (.inr (.inr rfl)) (.inr rfl)
  | completed =>
    obtain rfl := Option.some.inj after
    exact (before _ rfl).write rfl rfl (.inr (.inl rfl)) (.inl rfl)
  | @failed _ error _ j =>
    obtain rfl := Option.some.inj after
    obtain ⟨created, updated, locked, completed⟩ := Job.failUpdate_dates env.now j j error
    exact (before _ rfl).write created updated (.inr (.inl locked)) (.inr completed)
  | purged => cases after
  | _ =>
    obtain rfl := Option.some.inj after
    exact (before _ rfl).write rfl rfl (.inr (.inl rfl)) (.inr rfl)

end Job.InOrder

theorem SameAttempt.trans {a b c : JobAttempt} (h : SameAttempt a b) (h' : SameAttempt b c) : SameAttempt a c := by
  constructor
  · exact h.id.trans h'.id
  · exact h.jobId.trans h'.jobId
  · exact h.attempt.trans h'.attempt
  · exact h.workerId.trans h'.workerId
  · exact h.startedAt.trans h'.startedAt

/-- The dates of an attempt row are those of its lease and of the unit that closed it. -/
structure JobAttempt.Dated (ls : List Label) (now : Int) (a : JobAttempt) : Prop where
  past : a.startedAt ≤ now
  opened : ∃ i u worker job, .commit i u ∈ ls ∧ u.lease = some (worker, job) ∧
    SameAttempt a (u.db.attemptRow u.env.now worker job)
  closed : ∀ time, a.finishedAt = some time → a.startedAt ≤ time ∧ time ≤ now ∧
    ∃ i u, .commit i u ∈ ls ∧ u.call.closes a.jobId u.reply = true ∧ u.env.now = time

theorem JobAttempt.Dated.later {ls ls' : List Label} {now now' : Int} {a : JobAttempt} (dated : a.Dated ls now)
    (more : ∀ l ∈ ls, l ∈ ls') (later : now ≤ now') : a.Dated ls' now' := by
  obtain ⟨past, ⟨i, u, worker, job, mem, lease, same⟩, closed⟩ := dated
  refine ⟨by omega, ⟨i, u, worker, job, more _ mem, lease, same⟩, fun time finished => ?_⟩
  obtain ⟨after, past', k, v, mem', closes, date⟩ := closed time finished
  exact ⟨after, by omega, k, v, more _ mem', closes, date⟩

/-- A unit that files dead letters. -/
def Call.files : Call → Bool
  | .start (.failJob _ _ _ _) => true
  | .recoverDeadLetter _ _ => true
  | _ => false

/-- The dates of a dead letter are those of the unit that filed it and of the submission of its job. -/
structure DeadLetterJob.Dated (ls : List Label) (now : Int) (d : DeadLetterJob) : Prop where
  past : d.deadLetteredAt ≤ now
  filed : ∃ i u j error, .commit i u ∈ ls ∧ u.call.files = true ∧ u.db.job? d.id = some j ∧
    d = j.deadLetterRow u.env.now error
  original : ∃ time, d.originalCreatedAt = some time ∧ time ≤ d.deadLetteredAt ∧
    ∃ i u, .commit i u ∈ ls ∧ u.call.isInsert = true ∧ d.id ∈ u.written ∧ u.env.now = time

theorem DeadLetterJob.Dated.later {ls ls' : List Label} {now now' : Int} {d : DeadLetterJob} (dated : d.Dated ls now)
    (more : ∀ l ∈ ls, l ∈ ls') (later : now ≤ now') : d.Dated ls' now' := by
  obtain ⟨past, ⟨i, u, j, error, mem, rest⟩, time, date, before, k, v, mem', rest'⟩ := dated
  exact ⟨by omega, ⟨i, u, j, error, more _ mem, rest⟩, time, date, before, k, v, more _ mem', rest'⟩

/-- The dates of a job. -/
structure Job.Dated (ls : List Label) (now : Int) (j : Job) : Prop where
  order : j.InOrder now
  created : stamped Call.isInsert j.id ls = some j.createdAt
  updated : stamped (fun _ => true) j.id ls = some j.updatedAt
  locked : ∀ time, j.lockedAt = some time → stamped Call.isLease j.id ls = some time
  completed : ∀ time, j.completedAt = some time → stamped Call.isComplete j.id ls = some time

end Djq
