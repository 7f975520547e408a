import Djq.System.RowInvariants
import Djq.System.Serial

/-!
# The attempt rows, epoch by epoch

An operator's retry sets `attempts` back to zero and leaves the rows of the
attempts where they are, so the rows of a job are one block for each stretch
between two such retries, numbered from one again in each. `epochs` reads the
lengths of the blocks off the labels of the run; `Numbered` is the invariant.
-/

namespace Djq

open Relational Transition

/-! ## Epochs -/

/-- How often a job was leased, by the retries in between. -/
structure Epochs where
  earlier : List Nat
  current : Nat

/-- The numbers a block of `n` rows carries. -/
def counted (n : Nat) : List Int := (List.range n).map fun k : Nat => (k : Int) + 1

theorem counted_succ (n : Nat) : counted (n + 1) = counted n ++ [(n : Int) + 1] := by
  simp only [counted, List.range_succ, List.map_append, List.map_cons, List.map_nil]

namespace Epochs

def start : Epochs := ⟨[], 0⟩

/-- A retry's UPDATE ends an epoch, a lease adds to the current one. -/
def after (id : Uuid) (e : Epochs) (l : Label) : Epochs :=
  if l.wrote Call.isRetry id then ⟨e.earlier ++ [e.current], 0⟩
  else if l.lease.map (·.2.id) = some id then ⟨e.earlier, e.current + 1⟩
  else e

/-- The numbers of all rows, block by block. -/
def numbers (e : Epochs) : List Int := e.earlier.flatMap counted ++ counted e.current

theorem numbers_retried (e : Epochs) : numbers ⟨e.earlier ++ [e.current], 0⟩ = e.numbers := by
  simp [numbers, counted]

theorem numbers_leased (e : Epochs) : numbers ⟨e.earlier, e.current + 1⟩ = e.numbers ++ [(e.current : Int) + 1] := by
  simp only [numbers, counted_succ, List.append_assoc]

end Epochs

def epochs (id : Uuid) (ls : List Label) : Epochs := ls.foldl (Epochs.after id) .start

theorem epochs_snoc (id : Uuid) (ls : List Label) (l : Label) : epochs id (ls ++ [l]) = (epochs id ls).after id l :=
  List.foldl_concat ..

/-- There is one block more than there were retries. -/
theorem epochs_earlier_length (id : Uuid) (ls : List Label) :
    (epochs id ls).earlier.length = ls.countP (Label.wrote Call.isRetry id) := by
  induction ls using List.reverseRecOn with
  | nil => rfl
  | append_singleton ls l ih =>
    rw [epochs_snoc, List.countP_append, List.countP_singleton, Epochs.after, ← ih]
    split
    · simp
    · split <;> simp

/-! ## Numbers -/

/-- The rows of a job are numbered by its epochs. -/
structure Numbered (id : Uuid) (ls : List Label) (s : Sys) : Prop where
  unborn : id ∉ s.issued → epochs id ls = .start
  rows : ∀ j, s.db.job? id = some j →
    (s.db.history id).map JobAttempt.attempt = (epochs id ls).numbers ∧ j.attempts = (epochs id ls).current

/-- An operator's retry gives a row that is done a fresh start. -/
theorem RowStep.of_retry {env : Env} {db : Db} {id : Uuid} {c : Call} {p : Progress} {r r' : Option Job}
    (life : RowStep env db id c p r r') (retry : c.isRetry = true) (written : id ∈ c.written p) {j' : Job}
    (after : r' = some j') :
    ∃ j, r = some j ∧ j.status ∈ [.failed, .deadLettered] ∧ j' = j.setRequeued env.now := by
  cases life with
  | same quiet => exact absurd written quiet
  | requeued done => exact ⟨_, rfl, done, (Option.some.inj after).symm⟩
  | _ => cases retry

/-- Attempt rows belong to jobs that are there. -/
theorem Sys.AttemptsSound.history_none {s : Sys} (attempts : s.AttemptsSound) {id : Uuid} (gone : s.db.job? id = none) :
    s.db.history id = [] := by
  rw [Db.history, List.filter_eq_nil_iff]
  intro a mem isId
  obtain ⟨j, row⟩ := attempts.owned a mem
  rw [of_decide_eq_true isId, gone] at row
  cases row

/-- A row that is absent and stays absent was not written. -/
theorem RowStep.unwritten {env : Env} {db : Db} {id : Uuid} {c : Call} {p : Progress}
    (life : RowStep env db id c p none none) : id ∉ c.written p := by
  cases life with
  | same quiet => exact quiet

theorem Epochs.after_quiet (e : Epochs) (id : Uuid) {l : Label} (quiet : ∀ i u, l ≠ .commit i u) : e.after id l = e := by
  cases l with
  | commit i u => exact absurd rfl (quiet i u)
  | _ => rfl

theorem Epochs.after_unwritten {id : Uuid} (e : Epochs) {i : Nat} {u : Commit} (out : id ∉ u.written) :
    e.after id (.commit i u) = e := by
  have noRetry : (Label.commit i u).wrote Call.isRetry id = false := by
    rw [Bool.eq_false_iff]
    intro wrote
    exact out (Label.wrote_commit.1 wrote).2
  have noLease : ¬ (Label.commit i u).lease.map (·.2.id) = some id := by
    intro leases
    obtain ⟨⟨worker, job⟩, leased, isId⟩ := Option.map_eq_some_iff.1 leases
    have written : job.id ∈ u.written := Call.written_of_lease leased
    exact out (isId ▸ written)
  rw [Epochs.after, noRetry, if_neg (by simp), if_neg noLease]

theorem Call.isRetry_of_lease {c : Call} {p : Progress} {who : Uuid × Job} (leased : c.lease p = some who) :
    c.isRetry = false := by
  unfold Call.lease at leased
  split at leased
  · rfl
  · cases leased

theorem Label.wrote_of_lease {id : Uuid} {l : Label} {who : Uuid × Job} (leased : l.lease = some who) :
    l.wrote Call.isRetry id = false := by
  cases l with
  | commit i u =>
    have leased : u.call.lease u.reply = some who := leased
    rw [Label.wrote, Call.isRetry_of_lease leased, Bool.false_and]
  | _ => rfl

theorem Numbered.commit {id : Uuid} {ls : List Label} {s : Sys} {i : Nat} {u : Commit} (numbered : Numbered id ls s)
    (sound : s.Sound) (attempts : s.AttemptsSound) (on : u.db = s.db) (fresh : u.env.uuid ∉ s.issued) {j' : Job}
    (row' : u.after.job? id = some j') :
    (u.after.history id).map JobAttempt.attempt = ((epochs id ls).after id (.commit i u)).numbers ∧
      j'.attempts = ((epochs id ls).after id (.commit i u)).current := by
  have attempt : AttemptStep u.env s.db u.after u.call u.reply := by
    rw [← on]
    exact Call.attempt_step (on ▸ sound.keyed) u.call
  have life := sound.row_step on fresh id
  by_cases leases : (Label.commit i u).lease.map (·.2.id) = some id
  · obtain ⟨⟨worker, job⟩, leased, isId⟩ := Option.map_eq_some_iff.1 leases
    have noRetry : (Label.commit i u).wrote Call.isRetry id = false := Label.wrote_of_lease leased
    obtain ⟨j, secs, row, row'', eq, -⟩ := life.of_lease leased isId
    obtain rfl := Option.some.inj (row'.symm.trans row'')
    obtain ⟨rows, number⟩ := numbered.rows j row
    have next : j'.attempts = ((epochs id ls).current : Int) + 1 := by
      rw [eq, ← number]
      rfl
    have history : u.after.history id = s.db.history id ++ [s.db.attemptRow u.env.now worker j'] := by
      have ofJob : (s.db.attemptRow u.env.now worker j').jobId = id := isId
      have own : [s.db.attemptRow u.env.now worker j'].filter (fun a => decide (a.jobId = id)) =
          [s.db.attemptRow u.env.now worker j'] := by simp [ofJob]
      rw [Db.history, attempt.rows_of_lease leased, List.filter_append, own]
      rfl
    rw [Epochs.after, noRetry, if_neg (by simp), if_pos leases]
    constructor
    · rw [history, List.map_append, rows, Epochs.numbers_leased, ← next]
      rfl
    · rw [next]
      rfl
  · have notLeased : ∀ worker job, u.call.lease u.reply = some (worker, job) → job.id ≠ id := by
      intro worker job leased isId
      exact leases (Option.map_eq_some_iff.2 ⟨_, leased, isId⟩)
    have history : (u.after.history id).map JobAttempt.attempt = (s.db.history id).map JobAttempt.attempt :=
      attempt.column_kept sound.keyed notLeased row' fun a b same => same.attempt
    rw [history]
    by_cases retried : (Label.commit i u).wrote Call.isRetry id = true
    · obtain ⟨retry, written⟩ := Label.wrote_commit.1 retried
      obtain ⟨j, row, -, eq⟩ := life.of_retry retry written row'
      rw [Epochs.after, if_pos retried, Epochs.numbers_retried, eq]
      exact ⟨(numbered.rows j row).1, rfl⟩
    · rw [Epochs.after, if_neg retried, if_neg leases]
      obtain ⟨j, row, kept⟩ | ⟨retry, written⟩ | ⟨absent, drawn⟩ := life.attempts_kept leases row'
      · rw [kept]
        exact numbered.rows j row
      · exact absurd (Label.wrote_commit.2 ⟨retry, written⟩) retried
      · obtain ⟨sub, -, -, eq, -⟩ := life.appears absent row'
        rw [numbered.unborn (drawn ▸ fresh), attempts.history_none absent, eq]
        exact ⟨rfl, rfl⟩

theorem Numbered.step {id : Uuid} {ls : List Label} {s s' : Sys} {l : Label} (numbered : Numbered id ls s)
    (sound : s.Sound) (attempts : s.AttemptsSound) (step : Step s l s') : Numbered id (ls ++ [l]) s' := by
  obtain ⟨quiet, same⟩ | ⟨i, u, rfl, inFlight, on, now, fresh, rfl, life⟩ := step.row sound id
  · have still := Epochs.after_quiet (epochs id ls) id quiet
    constructor
    · intro unborn
      rw [epochs_snoc, still]
      exact numbered.unborn fun drawn => unborn (step.issued drawn)
    · intro j' row'
      have history : s'.db.history id = s.db.history id := by
        cases step with
        | commit => exact absurd rfl (quiet _ _)
        | _ => rfl
      rw [epochs_snoc, still, history]
      exact numbered.rows j' (same ▸ row')
  · constructor
    · intro unborn
      have earlier : id ∉ s.issued := fun drawn => unborn (step.issued drawn)
      have out : id ∉ u.written := by
        rw [sound.unused earlier, (step.sound sound).unused unborn] at life
        exact life.unwritten
      rw [epochs_snoc, Epochs.after_unwritten _ out]
      exact numbered.unborn earlier
    · intro j' row'
      rw [epochs_snoc]
      exact numbered.commit sound attempts on fresh row'

theorem Sys.numbered_of_run {t : Int} {ls : List Label} {s : Sys} (run : Run Step (Sys.init t) ls s) (id : Uuid) :
    Numbered id ls s := by
  induction run with
  | nil =>
    constructor
    · intro _
      rfl
    · intro j row
      exact absurd (Db.job?_mem row) List.not_mem_nil
  | snoc before last ih => exact ih.step (Sys.sound_of_run before) (Sys.attemptsSound_of_run before) last

/-! ## Order and closing -/

/-- A property of the tables that every unit keeps. -/
theorem Sys.db_invariant {P : Db → Prop} (start : P .empty)
    (reorder : ∀ db jobs, P db → P { db with jobs := jobs })
    (keep : ∀ env db c, Keyed Job.id db.jobs → P db → P (Call.step env db c).1) {t : Int} {ls : List Label} {s : Sys}
    (run : Run Step (Sys.init t) ls s) : P s.db := by
  induction run with
  | nil => exact start
  | @snoc ls s l s' before last ih =>
    cases last with
    | reorder => exact reorder s.db _ ih
    | @commit i u inFlight on =>
      have sound := Sys.sound_of_run before
      exact keep u.env u.db u.call (on ▸ sound.keyed) (on ▸ ih)
    | _ => exact ih

theorem Sys.ordered_of_run {t : Int} {ls : List Label} {s : Sys} (run : Run Step (Sys.init t) ls s) : s.db.Ordered := by
  apply Sys.db_invariant (P := Db.Ordered) _ _ _ run
  · constructor
    · exact List.Pairwise.nil
    · intro a mem
      exact absurd mem List.not_mem_nil
  · intro db jobs ordered
    exact ordered
  · intro env db c keyed ordered
    exact (Call.attempt_step keyed c).ordered ordered

/-- A row has a time it ended at exactly when it has ended. -/
def Db.Stamped (db : Db) : Prop := ∀ a ∈ db.attempts, a.finishedAt = none ↔ a.status = .running

theorem Db.Stamped.close {db db' : Db} (stamped : db.Stamped) {which : JobAttempt → Bool}
    {set : JobAttempt → JobAttempt} (ends : ∀ a, (set a).finishedAt ≠ none ∧ (set a).status ≠ .running)
    (rows : db'.attempts = closeAttempts which set db.attempts) : db'.Stamped := by
  intro a mem
  obtain ⟨old, oldMem, rfl⟩ := mem_updateWhere.1 (rows ▸ mem)
  split
  · exact iff_of_false (ends old).1 (ends old).2
  · exact stamped old oldMem

/-- A unit that neither leases nor closes nor purges. -/
theorem AttemptStep.rows_same {env : Env} {db db' : Db} {c : Call} {p : Progress} (attempt : AttemptStep env db db' c p)
    (noLease : c.lease p = none) (noReport : c.isReport = false) (notClosing : ∀ ids, c ≠ .closeExpired ids)
    (notPurge : c.isPurge = false) : db'.attempts = db.attempts := by
  cases attempt with
  | same _ _ _ _ rows => exact rows
  | opened lease => cases noLease.symm.trans lease
  | @closed _ _ ids _ _ _ who =>
    rcases who with ⟨report, -⟩ | closing
    · exact absurd (noReport.symm.trans report) Bool.false_ne_true
    · exact absurd closing (notClosing ids)
  | purged => cases notPurge

theorem Db.Stamped.step {env : Env} {db : Db} (keyed : Keyed Job.id db.jobs) (stamped : db.Stamped) (c : Call) :
    (c.step env db).1.Stamped := by
  have other : ∀ c : Call, (∀ p, c.lease p = none) → c.isReport = false → (∀ ids, c ≠ .closeExpired ids) →
      c.isPurge = false → (c.step env db).1.Stamped := by
    intro c noLease noReport notClosing notPurge
    have attempt : AttemptStep env db (c.step env db).1 c (c.step env db).2 := Call.attempt_step keyed c
    have rows := attempt.rows_same (noLease _) noReport notClosing notPurge
    unfold Db.Stamped
    rw [rows]
    exact stamped
  cases c with
  | start request =>
    cases request with
    | leaseNext worker queues secs =>
      simp only [Call.step]
      obtain ⟨none, -⟩ | ⟨pick, -, -, -, leased⟩ := db.leaseNext_spec env worker queues secs
      · rw [none]
        exact stamped
      · rw [leased]
        intro a mem
        rcases List.mem_append.1 mem with mem | last
        · exact stamped a mem
        · obtain rfl := List.mem_singleton.1 last
          exact iff_of_true rfl rfl
    | completeJob id worker result =>
      simp only [Call.step]
      obtain ⟨none, -⟩ | ⟨j, -, -, -, done⟩ := Db.completeJob_spec keyed env id worker result
      · simp only [none]
        exact stamped
      · simp only [done]
        exact stamped.close (fun a => ⟨by simp, by simp⟩) rfl
    | failJob id worker error timedOut =>
      simp only [Call.step]
      obtain ⟨⟨e, refused⟩, -⟩ | ⟨j, -, -, -, done⟩ := db.failJob_spec env id worker error timedOut
      · simp only [refused]
        exact stamped
      · simp only [done]
        exact stamped.close (fun a => ⟨by simp, by cases timedOut <;> simp⟩) rfl
    | purgeFinished olderThan =>
      intro a mem
      exact stamped a (List.mem_filter.1 mem).1
    | _ => exact other _ (fun _ => rfl) rfl (by simp) rfl
  | closeExpired ids => exact stamped.close (fun a => ⟨by simp, by simp⟩) rfl
  | _ => exact other _ (fun _ => rfl) rfl (by simp) rfl

theorem Sys.stamped_of_run {t : Int} {ls : List Label} {s : Sys} (run : Run Step (Sys.init t) ls s) : s.db.Stamped := by
  apply Sys.db_invariant (P := Db.Stamped) _ _ _ run
  · intro a mem
    exact absurd mem List.not_mem_nil
  · intro db jobs stamped
    exact stamped
  · intro env db c keyed stamped
    exact stamped.step keyed c

/-! ## Rows that have ended -/

theorem AttemptStep.ended_stays {env : Env} {db db' : Db} {c : Call} {p : Progress}
    (attempt : AttemptStep env db db' c p) (keyed : Keyed Job.id db.jobs) {a : JobAttempt} (mem : a ∈ db.attempts)
    (ended : a.status ≠ .running) {j : Job} (row : db'.job? a.jobId = some j) : a ∈ db'.attempts := by
  cases attempt with
  | same _ _ _ _ rows => exact rows ▸ mem
  | opened _ _ _ _ rows => exact rows ▸ List.mem_append_left _ mem
  | closed _ _ _ _ _ _ rows =>
    rw [rows]
    refine mem_updateWhere.2 ⟨a, mem, if_neg ?_⟩
    simp [ended]
  | purged rows jobs => exact rows ▸ mem_deleteWhere.2 ⟨mem, decide_eq_false (not_purged keyed jobs row)⟩

/-- A row that has ended is left as it is, or goes with its job. -/
theorem Step.ended_row {s s' : Sys} {l : Label} (sound : s.Sound) (step : Step s l s') {a : JobAttempt}
    (mem : a ∈ s.db.attempts) (ended : a.status ≠ .running) {j : Job} (row : s.db.job? a.jobId = some j) :
    a ∈ s'.db.attempts ∨ (l.deletes a.jobId = true ∧ s'.db.job? a.jobId = none) := by
  have kept := step.row_kept sound row
  cases step with
  | @commit i u inFlight on now fresh =>
    have attempt : AttemptStep u.env s.db u.after u.call u.reply := by
      rw [← on]
      exact Call.attempt_step (on ▸ sound.keyed) u.call
    obtain ⟨j', row', -⟩ | ⟨deleted, -, gone⟩ := kept
    · exact .inl (attempt.ended_stays sound.keyed mem ended row')
    · exact .inr ⟨deleted, gone⟩
  | _ => exact .inl mem

/-- A job that is gone stays gone: its id is not drawn again. -/
theorem Step.stays_gone {s s' : Sys} {l : Label} (sound : s.Sound) (step : Step s l s') {id : Uuid}
    (drawn : id ∈ s.issued) (gone : s.db.job? id = none) : s'.db.job? id = none := by
  obtain ⟨-, same⟩ | ⟨i, u, rfl, -, -, -, fresh, rfl, life⟩ := step.row sound id
  · exact same.trans gone
  · cases row' : (s.commit i u).db.job? id with
    | none => rfl
    | some j' =>
      obtain ⟨j, row, -⟩ | ⟨-, -, -, new⟩ := life.origin row'
      · cases gone.symm.trans row
      · exact absurd (new ▸ drawn) fresh

theorem Run.ended_row {t : Int} {pre ls : List Label} {s s' : Sys} (before : Run Step (Sys.init t) pre s)
    (run : Run Step s ls s') {a : JobAttempt} (mem : a ∈ s.db.attempts) (ended : a.status ≠ .running) :
    a ∈ s'.db.attempts ∨
      ((∃ l ∈ ls, l.deletes a.jobId = true) ∧ s'.db.job? a.jobId = none ∧ a.jobId ∈ s'.issued) := by
  induction run with
  | nil => exact .inl mem
  | snoc run last ih =>
    have all := before.append run
    have sound := Sys.sound_of_run all
    rcases ih with here | ⟨⟨l, lMem, deleted⟩, gone, drawn⟩
    · obtain ⟨j, row⟩ := (Sys.attemptsSound_of_run all).owned a here
      obtain stays | ⟨deleted, gone⟩ := last.ended_row sound here ended row
      · exact .inl stays
      · have drawn := last.issued (sound.issued j (Db.job?_mem row))
        rw [Db.job?_id row] at drawn
        exact .inr ⟨⟨_, by simp, deleted⟩, gone, drawn⟩
    · exact .inr ⟨⟨l, List.mem_append_left _ lMem, deleted⟩, last.stays_gone sound drawn gone, last.issued drawn⟩

/-- **The attempt history.** In every state the rows of a job, in the order of their
ids, are its epochs one after the other, each numbered from one, the last up to
`attempts`; a row has no end exactly while it is running; and from then on it
stays as it is for as long as its job does. -/
theorem attempt_history {t : Int} {ls : List Label} {s : Sys} (run : Run Step (Sys.init t) ls s) :
    (∀ j ∈ s.db.jobs,
      (s.db.history j.id).Pairwise (fun a b => a.id < b.id) ∧
      (s.db.history j.id).map JobAttempt.attempt =
        (epochs j.id ls).earlier.flatMap counted ++ counted (epochs j.id ls).current ∧
      (epochs j.id ls).earlier.length = ls.countP (Label.wrote Call.isRetry j.id) ∧
      j.attempts = (epochs j.id ls).current) ∧
    (∀ a ∈ s.db.attempts, a.finishedAt = none ↔ a.status = .running) ∧
    (∀ a ∈ s.db.attempts, a.status ≠ .running → ∀ ls' s', Run Step s ls' s' →
      a ∈ s'.db.attempts ∨
        ((∃ l ∈ ls', l.deletes a.jobId = true) ∧ s'.db.job? a.jobId = none ∧ s'.db.history a.jobId = [])) := by
  refine ⟨?_, Sys.stamped_of_run run, ?_⟩
  · intro j mem
    obtain ⟨rows, number⟩ := (Sys.numbered_of_run run j.id).rows j ((Sys.sound_of_run run).keyed.lookup_self mem)
    exact ⟨(Sys.ordered_of_run run).history j.id, rows, epochs_earlier_length j.id ls, number⟩
  · intro a mem ended ls' s' rest
    obtain stays | ⟨deleted, gone, -⟩ := Run.ended_row run rest mem ended
    · exact .inl stays
    · exact .inr ⟨deleted, gone, (Sys.attemptsSound_of_run (run.append rest)).history_none gone⟩

/-- A job of two attempts fails twice, is retried by an operator and leased again. -/
def secondRoundScript : List Action :=
  Action.submit 0 (.sample 2 none NewJob.sample_twice) 7 ++ Action.call 1 (.leaseNext 1 ["emails"] 60) ++
    Action.call 2 (.failJob 7 1 "boom" false) ++ [.tick 300000000] ++ Action.call 3 (.leaseNext 1 ["emails"] 60) ++
    Action.call 4 (.failJob 7 1 "boom" false) ++ Action.call 5 (.retryJob 7) ++
    Action.call 6 (.leaseNext 2 ["emails"] 60)

/-- Its rows are numbered 1, 2 and 1. -/
theorem attempt_history_second_round :
    let s := (Sys.init 0).replay secondRoundScript
    ∃ j ∈ s.db.jobs, (s.db.history j.id).map JobAttempt.attempt = [1, 2] ++ [1] ∧ j.attempts = 1 := by
  have run := @Sys.replay_run (Sys.init 0) secondRoundScript (by decide)
  obtain ⟨-, rows, -, number⟩ := (attempt_history run).1 _ List.mem_cons_self
  exact ⟨_, List.mem_cons_self, rows, number⟩

end Djq
