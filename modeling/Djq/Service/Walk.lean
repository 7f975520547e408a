import Djq.Relational.Walk
import Djq.Service.Pages
import Djq.Service.Stats

/-!
# Walking through the listing while others commit

A client asks for page after page until one is empty, and the store commits what it
likes in between. New jobs come in at the head of the listing and push the others
back, so unless jobs are purged none is passed over.
-/

namespace Djq

open Relational Transition

/-! ## What the listing gains between two pages -/

def Label.isPurge : Label → Bool
  | .commit _ u => u.call.isPurge
  | _ => false

theorem Label.purgedOf_eq_zero {l : Label} (noPurge : l.isPurge = false) (has : Job → Bool) : l.purgedOf has = 0 := by
  cases l with
  | commit i u =>
    simp only [purgedOf]
    split
    · rename_i purge
      rw [isPurge, purge] at noPurge
      cases noPurge
    · rfl
  | _ => rfl

theorem tally_eq_zero {done : Label → Nat} {ls : List Label} (none : ∀ l ∈ ls, done l = 0) : tally done ls = 0 := by
  induction ls with
  | nil => rfl
  | cons l ls ih =>
    have first := none l List.mem_cons_self
    have rest := ih fun k mem => none k (List.mem_cons_of_mem _ mem)
    simp only [tally, List.map_cons, List.sum_cons] at rest ⊢
    omega

section Between

variable {t : Int} {pre ls : List Label} {s s' : Sys} (before : Run Step (Sys.init t) pre s) (run : Run Step s ls s')

include before run

/-- Without purges, the jobs that have a fixed property become more by those that are submitted. -/
theorem Sys.grows_between (noPurge : ∀ l ∈ ls, l.isPurge = false) {has : Job → Bool} (fixed : Job.Fixed has) :
    s'.db.jobs.countP has = s.db.jobs.countP has + tally (Label.insertedOf has) ls := by
  have first := Sys.flow_of_run fixed before
  have both := Sys.flow_of_run fixed (before.append run)
  have none := tally_eq_zero fun l mem => l.purgedOf_eq_zero (noPurge l mem) has
  simp only [tally, List.map_append, List.sum_append] at first both none ⊢
  omega

omit before in
/-- A new row is dated when it comes in. -/
theorem Sys.inserted_late {l : Label} (mem : l ∈ ls) {row : Job} (inserted : l.inserted = some row) :
    s.clock ≤ row.createdAt := by
  obtain ⟨first, rest, rfl⟩ := List.append_of_mem mem
  obtain ⟨s₁, s₂, run₁, step, -⟩ := run.at_label
  have clock := Run.clock run₁
  cases step with
  | @commit i u inFlight on now fresh =>
    obtain ⟨c, env, db⟩ := u
    simp only [Label.inserted, Commit.reply] at inserted
    split at inserted
    · rename_i job sub reply
      obtain ⟨rfl, -⟩ := submitInsert_answers reply
      obtain rfl := Option.some.inj inserted
      show s.clock ≤ env.now
      have now : env.now = s₁.clock := now
      omega
    · cases inserted
  | _ => cases inserted

end Between

/-! ## A walk -/

theorem JobFilter.selects_fixed {filter : JobFilter} (anyStatus : filter.status = none) : Job.Fixed filter.selects := by
  intro j j' same
  unfold selects Db.listed
  rw [anyStatus, same.queue, same.jobType]
  rfl

/-- A client asks for page `k` in the state `s k`; until it asks for the next one the store commits `ls k`. -/
structure Walked (t : Int) (s : Nat → Sys) (ls : Nat → List Label) : Prop where
  before : ∃ pre, Run Step (Sys.init t) pre (s 0)
  between : ∀ k, Run Step (s k) (ls k) (s (k + 1))
  noPurge : ∀ k, ∀ l ∈ ls k, l.isPurge = false

namespace Walked

variable {t : Int} {s : Nat → Sys} {ls : Nat → List Label} (walked : Walked t s ls) {has : Job → Bool}
include walked

theorem reached (k : Nat) : ∃ pre, Run Step (Sys.init t) pre (s k) ∧ (s 0).clock ≤ (s k).clock := by
  induction k with
  | zero =>
    obtain ⟨pre, run⟩ := walked.before
    exact ⟨pre, run, Int.le_refl _⟩
  | succ k ih =>
    obtain ⟨pre, run, later⟩ := ih
    exact ⟨pre ++ ls k, run.append (walked.between k), Int.le_trans later (Run.clock (walked.between k))⟩

theorem grows (fixed : Job.Fixed has) (k : Nat) :
    (s (k + 1)).db.jobs.countP has = (s k).db.jobs.countP has + tally (Label.insertedOf has) (ls k) := by
  obtain ⟨pre, run, -⟩ := walked.reached k
  exact Sys.grows_between run (walked.between k) (walked.noPurge k) fixed

/-- Of the jobs with a fixed property no new jobs have, there are as many at every page. -/
theorem settled (fixed : Job.Fixed has) (old : ∀ j, (s 0).clock ≤ j.createdAt → has j = false) (k : Nat) :
    (s k).db.jobs.countP has = (s 0).db.jobs.countP has := by
  induction k with
  | zero => rfl
  | succ k ih =>
    have none : tally (Label.insertedOf has) (ls k) = 0 := by
      apply tally_eq_zero
      intro l mem
      unfold Label.insertedOf
      cases inserted : l.inserted with
      | none => rfl
      | some row =>
        obtain ⟨-, -, later⟩ := walked.reached k
        have late := Sys.inserted_late (walked.between k) mem inserted
        simp [old row (by omega)]
    rw [walked.grows fixed k, ih, none, Nat.add_zero]

/-- The listed jobs that are later than a date become more by those that are submitted. -/
theorem rank_grows {filter : JobFilter} (anyStatus : filter.status = none) (date : Int) (k : Nat) :
    rank Job.createdAt ((s (k + 1)).db.jobs.filter filter.selects) date =
      rank Job.createdAt ((s k).db.jobs.filter filter.selects) date +
        tally (Label.insertedOf fun a => decide (date < a.createdAt) && filter.selects a) (ls k) := by
  rw [rank, rank, List.countP_filter, List.countP_filter]
  apply walked.grows
  intro a b same
  simp only [same.createdAt, JobFilter.selects_fixed anyStatus a b same]

/-- Between two pages without a new job among those listed they are as many as before. -/
theorem rank_same {filter : JobFilter} (anyStatus : filter.status = none) (date : Int) {k k' : Nat} (le : k ≤ k')
    (quiet : ∀ i, k ≤ i → i < k' → ∀ l ∈ ls i, ∀ row, l.inserted = some row → filter.selects row = false) :
    rank Job.createdAt ((s k').db.jobs.filter filter.selects) date =
      rank Job.createdAt ((s k).db.jobs.filter filter.selects) date := by
  induction k', le using Nat.le_induction with
  | base => rfl
  | succ i le ih =>
    have none : tally (Label.insertedOf fun a => decide (date < a.createdAt) && filter.selects a) (ls i) = 0 := by
      apply tally_eq_zero
      intro l mem
      unfold Label.insertedOf
      cases inserted : l.inserted with
      | none => rfl
      | some row => simp [quiet i le (Nat.lt_add_one i) l mem row inserted]
    rw [walked.rank_grows anyStatus, none, Nat.add_zero]
    exact ih fun n low high => quiet n low (by omega)

section Row

variable {filter : JobFilter} (anyStatus : filter.status = none) {j : Job} (there : j ∈ (s 0).db.jobs)
  (selected : filter.selects j = true) (earlier : j.createdAt < (s 0).clock)
  (alone : ∀ j' ∈ (s 0).db.jobs, filter.selects j' = true → j'.createdAt = j.createdAt → j'.id = j.id)

include anyStatus there selected earlier alone

/-- A job that is alone with its date stays so. -/
theorem single (k : Nat) :
    (∀ a ∈ (s k).db.jobs, filter.selects a = true → a.createdAt = j.createdAt → a.id = j.id) ∧
    ∃ j' ∈ (s k).db.jobs, j'.id = j.id ∧ j'.createdAt = j.createdAt ∧ filter.selects j' = true := by
  have selects := JobFilter.selects_fixed anyStatus
  have settled : ∀ more : Job → Bool, Job.Fixed more →
      (s k).db.jobs.countP (fun a => filter.selects a && decide (a.createdAt = j.createdAt) && more a) =
        (s 0).db.jobs.countP (fun a => filter.selects a && decide (a.createdAt = j.createdAt) && more a) := by
    intro more fixed
    apply walked.settled
    · intro a b same
      simp only [selects a b same, same.createdAt, fixed a b same]
    · intro a late
      have old : ¬ a.createdAt = j.createdAt := by omega
      rw [decide_eq_false old, Bool.and_false, Bool.false_and]
  constructor
  · have none := settled (fun a => decide (a.id ≠ j.id)) fun a b same => by simp only [same.id]
    have start : (s 0).db.jobs.countP
        (fun a => filter.selects a && decide (a.createdAt = j.createdAt) && decide (a.id ≠ j.id)) = 0 := by
      rw [List.countP_eq_zero]
      intro a mem holds
      simp only [Bool.and_eq_true, decide_eq_true_eq] at holds
      exact holds.2 (alone a mem holds.1.1 holds.1.2)
    rw [start, List.countP_eq_zero] at none
    intro a mem selected' date
    by_contra other
    exact none a mem (by simp [selected', date, other])
  · have mine := settled (fun a => decide (a.id = j.id)) fun a b same => by simp only [same.id]
    have start : 0 < (s 0).db.jobs.countP
        (fun a => filter.selects a && decide (a.createdAt = j.createdAt) && decide (a.id = j.id)) :=
      List.countP_pos_iff.2 ⟨j, there, by simp [selected]⟩
    rw [← mine] at start
    obtain ⟨j', mem, holds⟩ := List.countP_pos_iff.1 start
    simp only [Bool.and_eq_true, decide_eq_true_eq] at holds
    exact ⟨j', mem, holds.2, holds.1.2, holds.1.1⟩

variable {size : Nat} (one : 1 ≤ size) (most : size ≤ 200) {pages : Nat → List Job}
  (served : ∀ k, QueueService.listJobs (filter.onPage size k) (s k).db = .ok (pages k))

include one most served

/-- The page it is on, by the number of later jobs. -/
theorem on_page (k : Nat) :
    ((s k).db.jobs.filter filter.selects).countP (fun a => decide (a.createdAt = j.createdAt)) = 1 ∧
    ((∃ j' ∈ pages k, j'.id = j.id) ↔
      k * size ≤ rank Job.createdAt ((s k).db.jobs.filter filter.selects) j.createdAt ∧
      rank Job.createdAt ((s k).db.jobs.filter filter.selects) j.createdAt < (k + 1) * size) := by
  obtain ⟨only, j', mem, isId, date, selected'⟩ := walked.single anyStatus there selected earlier alone k
  obtain ⟨pre, run, -⟩ := walked.reached k
  have keyed := (Sys.sound_of_run run).keyed
  have answer := @answer_of_layout (s k).db filter (s k).db.jobs (.refl _)
  have page := Except.ok.inj ((served k).symm.trans (QueueService.listJobs_onPage filter one most (s k).db))
  have listed : ∀ a ∈ pages k, a ∈ (s k).db.jobs ∧ filter.selects a = true := by
    intro a inside
    rw [page] at inside
    exact List.mem_filter.1 (mem_orderBy.1 (List.mem_of_mem_drop (List.mem_of_mem_take inside)))
  have single : ((s k).db.jobs.filter filter.selects).countP (fun a => decide (a.createdAt = j.createdAt)) = 1 := by
    rw [List.countP_filter, keyed.countP_one mem]
    · simp [date, selected']
    · intro a inside holds
      simp only [Bool.and_eq_true, decide_eq_true_eq] at holds
      exact (only a inside holds.2 holds.1).trans isId.symm
  refine ⟨single, ?_⟩
  rw [← answer.mem_page_iff single, ← page]
  constructor
  · rintro ⟨a, inside, same⟩
    obtain rfl := keyed.unique (listed a inside).1 mem (same.trans isId.symm)
    exact ⟨a, inside, date⟩
  · rintro ⟨a, inside, same⟩
    exact ⟨a, inside, only a (listed a inside).1 (listed a inside).2 same⟩

/-- **A walk passes no job over.** Whatever is committed between the pages of a listing
(of any status), but for purges, and however the rows lie at each query: a job that
was there at the first page, alone with its date among those listed, is on some page
before the first empty one; and it is on two pages only if a job of the listing has
been submitted in between. -/
theorem passes_no_job_over {m : Nat} (ends : pages m = []) :
    (∃ k < m, ∃ j' ∈ pages k, j'.id = j.id) ∧
    ∀ k k', k < k' → (∃ j' ∈ pages k, j'.id = j.id) → (∃ j' ∈ pages k', j'.id = j.id) →
      ∃ i, k ≤ i ∧ i < k' ∧ ∃ l ∈ ls i, ∃ row, l.inserted = some row ∧ filter.selects row = true := by
  have on := fun k => walked.on_page anyStatus there selected earlier alone one most served k
  constructor
  · have page := fun k => Except.ok.inj ((served k).symm.trans (QueueService.listJobs_onPage filter one most (s k).db))
    have grows : ∀ k, rank Job.createdAt ((s k).db.jobs.filter filter.selects) j.createdAt ≤
        rank Job.createdAt ((s (k + 1)).db.jobs.filter filter.selects) j.createdAt := by
      intro k
      have more := walked.rank_grows anyStatus j.createdAt k
      omega
    obtain ⟨k, less, met⟩ := exists_page_of_growing (fun k => @answer_of_layout (s k).db filter _ (.refl _))
      (fun k => (on k).1) grows one ((page m).symm.trans ends)
    refine ⟨k, less, (on k).2.2 ?_⟩
    exact ((@answer_of_layout (s k).db filter _ (.refl _)).mem_page_iff (on k).1).1 met
  · intro k k' less first second
    by_contra quiet
    push Not at quiet
    have same := walked.rank_same anyStatus j.createdAt less.le fun i low high l mem row inserted =>
      Bool.eq_false_iff.2 (quiet i low high l mem row inserted)
    obtain ⟨-, high⟩ := (on k).2.1 first
    obtain ⟨low, -⟩ := (on k').2.1 second
    have apart : (k + 1) * size ≤ k' * size := Nat.mul_le_mul_right size less
    omega

end Row

end Walked

/-! A client reads pages of one job; a third job comes in after the first page. -/

def twoSubmits : List Action :=
  Action.submit 0 (.sample 2 none NewJob.sample_twice) 7 ++ [.tick 5] ++
    Action.submit 1 (.sample 2 none NewJob.sample_twice) 8 ++ [.tick 9]

def thirdSubmit : List Action := Action.submit 2 (.sample 2 none NewJob.sample_twice) 9

def walkedStates (k : Nat) : Sys :=
  if k = 0 then (Sys.init 0).replay twoSubmits else ((Sys.init 0).replay twoSubmits).replay thirdSubmit

def walkedLabels (k : Nat) : List Label := if k = 0 then ((Sys.init 0).replay twoSubmits).trace thirdSubmit else []

theorem walked_submits : Walked 0 walkedStates walkedLabels := by
  constructor
  · exact ⟨_, @Sys.replay_run (Sys.init 0) twoSubmits (by decide)⟩
  · intro k
    match k with
    | 0 => exact @Sys.replay_run ((Sys.init 0).replay twoSubmits) thirdSubmit (by decide)
    | k + 1 => exact .nil
  · intro k
    match k with
    | 0 => decide
    | k + 1 => exact fun l mem => absurd mem List.not_mem_nil

/-- The oldest job is found, after one that is read twice. -/
theorem passes_no_job_over_oldest :
    ∃ pages : Nat → List Job,
      (∀ k, QueueService.listJobs (JobFilter.all.onPage 1 k) (walkedStates k).db = .ok (pages k)) ∧
      ∃ k < 3, ∃ j' ∈ pages k, j'.id = 7 := by
  have served : ∀ k, QueueService.listJobs (JobFilter.all.onPage 1 k) (walkedStates k).db = .ok _ := fun k =>
    @QueueService.listJobs_onPage .all 1 k (Nat.le_refl 1) (by decide) (walkedStates k).db
  have oldest : Job.sample 2 none ∈ (walkedStates 0).db.jobs := List.mem_cons_self
  have alone : ∀ j' ∈ (walkedStates 0).db.jobs, JobFilter.all.selects j' = true →
      j'.createdAt = (Job.sample 2 none).createdAt → j'.id = (Job.sample 2 none).id := by decide
  refine ⟨_, served, ?_⟩
  exact (walked_submits.passes_no_job_over rfl oldest rfl (by decide) alone (Nat.le_refl 1) (by decide) served
    (m := 3) rfl).1

end Djq
