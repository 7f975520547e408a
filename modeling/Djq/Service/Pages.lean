import Djq.Relational.Paging
import Djq.System.Serial

/-!
# Pages of the job listing

`QueueService::list_jobs` over `Store::list_jobs`. The listing is ordered by
`created_at` alone, so which of two jobs of one instant comes first is left to
each query: the table may lie in another order at every page.
-/

namespace Djq

open Relational Transition

structure JobFilter where
  queue : Option String
  status : Option JobStatus
  jobType : Option String
  limit : Option Int
  offset : Option Int

/-- `JobFilter::bounded`: the page size and the offset, clamped. -/
def JobFilter.bounded (filter : JobFilter) : Int × Int :=
  (max 1 (min (filter.limit.getD 50) 200), max (filter.offset.getD 0) 0)

/-- `ORDER BY created_at DESC`. -/
def createdOrder (a b : Job) : Prop := b.createdAt ≤ a.createdAt

instance : DecidableRel createdOrder := fun _ _ => inferInstanceAs (Decidable (_ ≤ _))

instance : Std.Total createdOrder := ⟨fun _ _ => le_total _ _⟩

instance : IsTrans Job createdOrder := ⟨fun _ _ _ first second => le_trans second first⟩

namespace Db

/-- The WHERE clause of `list_jobs`; a status is compared by its text. -/
def listed (queue status jobType : Option String) (j : Job) : Bool :=
  queue.all (fun q => decide (j.queue = q)) && status.all (fun s => decide (j.status.asStr = s)) &&
    jobType.all (fun t => decide (j.jobType = t))

/-- The error a statement with `OFFSET $1` ends with when the offset is negative. -/
def negativeOffset : QueueError := .storage "OFFSET must not be negative"

/-- `list_jobs`. -/
def listJobs (db : Db) (queue status jobType : Option String) (limit offset : Int) : Except QueueError (List Job) :=
  if limit < 0 then .error negativeLimit
  else if offset < 0 then .error negativeOffset
  else .ok (((orderBy createdOrder (db.jobs.filter (listed queue status jobType))).drop offset.toNat).take limit.toNat)

end Db

/-- `QueueService::list_jobs`. -/
def QueueService.listJobs (filter : JobFilter) (db : Db) : Except QueueError (List Job) :=
  let (limit, offset) := filter.bounded
  db.listJobs filter.queue (filter.status.map JobStatus.asStr) filter.jobType limit offset

namespace JobFilter

variable (filter : JobFilter)

/-- The jobs a filter is about, whatever the page. -/
def selects (j : Job) : Bool := Db.listed filter.queue (filter.status.map JobStatus.asStr) filter.jobType j

/-- The filter for the page `k` of `size` rows. -/
def onPage (size k : Nat) : JobFilter := { filter with limit := some size, offset := some (k * size : Nat) }

/-- The limits of a request are never negative. -/
theorem bounded_nonneg : 1 ≤ filter.bounded.1 ∧ filter.bounded.1 ≤ 200 ∧ 0 ≤ filter.bounded.2 := by
  simp only [bounded]
  omega

theorem bounded_onPage {size k : Nat} (one : 1 ≤ size) (most : size ≤ 200) :
    (filter.onPage size k).bounded = ((size : Int), ((k * size : Nat) : Int)) := by
  simp only [bounded, onPage, Option.getD_some, Prod.mk.injEq]
  omega

end JobFilter

/-- A page is a slice of the ordered jobs. -/
theorem QueueService.listJobs_onPage (filter : JobFilter) {size k : Nat} (one : 1 ≤ size) (most : size ≤ 200) (db : Db) :
    QueueService.listJobs (filter.onPage size k) db =
      .ok (page size (orderBy createdOrder (db.jobs.filter filter.selects)) k) := by
  have limit : ¬ ((size : Int) < 0) := by omega
  have offset : ¬ (((k * size : Nat) : Int) < 0) := by omega
  rw [QueueService.listJobs, filter.bounded_onPage one most]
  simp only [Db.listJobs, if_neg limit, if_neg offset, Int.toNat_natCast]
  rfl

/-! ## Answers -/

variable {db : Db} {filter : JobFilter}

/-- The order the rows lie in makes an answer, -/
theorem answer_of_layout {jobs : List Job} (layout : jobs.Perm db.jobs) :
    Answer Job.createdAt (db.jobs.filter filter.selects) (orderBy createdOrder (jobs.filter filter.selects)) :=
  ⟨(List.perm_insertionSort _ _).trans (layout.filter _), orderBy_pairwise⟩

/-- and every answer is made by one. -/
theorem exists_layout {o : List Job} (answer : Answer Job.createdAt (db.jobs.filter filter.selects) o) :
    ∃ jobs : List Job, jobs.Perm db.jobs ∧ orderBy createdOrder (jobs.filter filter.selects) = o := by
  refine ⟨o ++ db.jobs.filter fun j => !filter.selects j, ?_, ?_⟩
  · exact (answer.rows.append_right _).trans (List.filter_append_perm _ _)
  · have all : o.filter filter.selects = o := by
      rw [List.filter_eq_self]
      intro j mem
      exact (List.mem_filter.1 (answer.rows.mem_iff.1 mem)).2
    have none : (db.jobs.filter fun j => !filter.selects j).filter filter.selects = [] := by
      simp [List.filter_filter]
    rw [List.filter_append, all, none, List.append_nil]
    exact List.Pairwise.insertionSort_eq answer.sorted

/-- **Pages partition the listing** of the jobs a filter selects, however the rows
lie at each query, exactly when no page begins between jobs of one instant. -/
theorem pages_partition_iff (keyed : Keyed Job.id db.jobs) (filter : JobFilter) {size : Nat} (one : 1 ≤ size)
    (most : size ≤ 200) :
    (∀ layout : Nat → List Job, (∀ k, (layout k).Perm db.jobs) → ∃ pages : Nat → List Job,
      (∀ k, QueueService.listJobs (filter.onPage size k) { db with jobs := layout k } = .ok (pages k)) ∧
      ∃ m, (∀ k, k < m → pages k ≠ []) ∧ pages m = [] ∧
        ((List.range m).flatMap pages).Perm (db.jobs.filter filter.selects)) ↔
    CleanPages Job.createdAt (db.jobs.filter filter.selects) size := by
  have distinct : (db.jobs.filter filter.selects).Nodup := (List.Nodup.of_map _ keyed).filter _
  rw [← readsAll_perm_iff one distinct (answer_of_layout (.refl db.jobs))]
  constructor
  · intro all answers valid
    choose layout same answer using fun k => exists_layout (valid k)
    obtain ⟨pages, served, m, some, ends, perm⟩ := all layout same
    have eq : pages = fun k => page size (answers k) k := by
      funext k
      have here := (served k).symm.trans (QueueService.listJobs_onPage filter one most _)
      rw [← answer k]
      exact Except.ok.inj here
    subst eq
    exact ⟨_, ⟨m, some, ends, rfl⟩, perm⟩
  · intro all layout same
    obtain ⟨_, ⟨m, some, ends, rfl⟩, perm⟩ := all _ fun k => answer_of_layout (same k)
    exact ⟨_, fun k => QueueService.listJobs_onPage filter one most _, m, some, ends, perm⟩

/-- Two jobs submitted at one instant, with the ids 7 and 8. -/
def twinsScript : List Serial.Action :=
  Serial.requests [.submit (.sample 2 none NewJob.sample_twice), .submit (.sample 2 none NewJob.sample_twice)]

def JobFilter.all : JobFilter := ⟨none, none, none, none, none⟩

/-- They are on one page of the default size, in any order. -/
theorem pages_partition_twins :
    let db := (outcome Serial.act (.init 0) twinsScript).db
    (Keyed Job.id db.jobs ∧ 1 ≤ 50 ∧ 50 ≤ 200) ∧
    ∀ layout : Nat → List Job, (∀ k, (layout k).Perm db.jobs) → ∃ pages : Nat → List Job,
      (∀ k, QueueService.listJobs (JobFilter.all.onPage 50 k) { db with jobs := layout k } = .ok (pages k)) ∧
      ∃ m, (∀ k, k < m → pages k ≠ []) ∧ pages m = [] ∧
        ((List.range m).flatMap pages).Perm (db.jobs.filter JobFilter.all.selects) := by
  have keyed : Keyed Job.id (outcome Serial.act (.init 0) twinsScript).db.jobs :=
    (Serial.sound_of_run (@outcome_run _ _ _ Serial.act Serial.Step Serial.act_step (.init 0) twinsScript
      (by decide))).keyed
  refine ⟨⟨keyed, by decide, by decide⟩, (pages_partition_iff keyed .all (by decide) (by decide)).2 ?_⟩
  intro k inside
  have two : ((outcome Serial.act (.init 0) twinsScript).db.jobs.filter JobFilter.all.selects).length = 2 := by decide
  obtain rfl : k = 0 := by omega
  exact ⟨Job.sample 2 none, by decide, by decide⟩

/-- On pages of one, the first of them may come twice and the other not at all. -/
theorem twins_split :
    let db := (outcome Serial.act (.init 0) twinsScript).db
    QueueService.listJobs (JobFilter.all.onPage 1 0) db = .ok [Job.sample 2 none] ∧
    QueueService.listJobs (JobFilter.all.onPage 1 1) { db with jobs := db.jobs.reverse } = .ok [Job.sample 2 none] ∧
    ¬ ∀ layout : Nat → List Job, (∀ k, (layout k).Perm db.jobs) → ∃ pages : Nat → List Job,
      (∀ k, QueueService.listJobs (JobFilter.all.onPage 1 k) { db with jobs := layout k } = .ok (pages k)) ∧
      ∃ m, (∀ k, k < m → pages k ≠ []) ∧ pages m = [] ∧
        ((List.range m).flatMap pages).Perm (db.jobs.filter JobFilter.all.selects) := by
  refine ⟨rfl, rfl, ?_⟩
  intro all
  obtain ⟨pages, served, m, some, ends, perm⟩ := all
    (fun k => if k = 0 then (outcome Serial.act (.init 0) twinsScript).db.jobs
      else (outcome Serial.act (.init 0) twinsScript).db.jobs.reverse)
    (fun k => by
      split
      · exact .refl _
      · exact List.reverse_perm _)
  have first : pages 0 = [Job.sample 2 none] := (Except.ok.inj (served 0)).symm
  have second : pages 1 = [Job.sample 2 none] := (Except.ok.inj (served 1)).symm
  have third : pages 2 = [] := (Except.ok.inj (served 2)).symm
  have two : m = 2 := by
    by_contra other
    rcases Nat.lt_or_ge m 2 with less | more
    · have cases : m = 0 ∨ m = 1 := by omega
      rcases cases with rfl | rfl
      · simp [first] at ends
      · simp [second] at ends
    · exact some 2 (by omega) third
  subst two
  have read : (List.range 2).flatMap pages = [Job.sample 2 none, Job.sample 2 none] := by
    simp [List.range_succ, first, second]
  rw [read] at perm
  exact absurd perm (by decide)

end Djq
