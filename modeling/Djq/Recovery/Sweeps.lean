import Djq.System.Attempts

/-!
# Sweeps of the reaper

A sweep takes jobs back in up to three commits, each of which releases the row,
and closes their attempt rows in a fourth, selected by nothing but the job. That
the rows closed are those of the expired leases, and that they are closed at all,
rests on nobody leasing the job in between and on the sweep coming to its end.
-/

namespace Djq

open Relational Transition

/-! ## One unit -/

namespace Call

/-- The jobs a sweep has taken back so far. -/
def recovered : Call → List Uuid
  | .recoverDeadLetter _ ids => ids
  | .recoverFailed _ ids => ids
  | .closeExpired ids => ids
  | _ => []

/-- The jobs a unit of a sweep takes back. -/
def taken (c : Call) (p : Progress) : List Uuid := if c.isSweep then c.written p else []

/-- One of the four statements of `recover_expired_leases`. -/
def ofSweep : Call → Bool
  | .closeExpired _ => true
  | c => c.isSweep

theorem mem_written_of_taken {c : Call} {p : Progress} {id : Uuid} (taken : id ∈ c.taken p) :
    c.isSweep = true ∧ id ∈ c.written p := by
  unfold Call.taken at taken
  split at taken
  · rename_i sweep
    exact ⟨sweep, taken⟩
  · exact absurd taken List.not_mem_nil

theorem taken_eq_nil {c : Call} (notSweep : c.isSweep = false) (p : Progress) : c.taken p = [] := by
  unfold taken
  rw [notSweep]
  rfl

theorem not_report_of_sweep {c : Call} (ofSweep : c.ofSweep = true) : ¬ c.isReport = true := by
  intro report
  unfold isReport at report
  split at report
  · cases ofSweep
  · cases ofSweep
  · cases report

theorem not_sweep_of_lease {c : Call} {p : Progress} {worker : Uuid} {job : Job} (lease : c.lease p = some (worker, job)) :
    c.isSweep = false := by
  unfold Call.lease at lease
  split at lease
  · rfl
  · cases lease

/-- A sweep still in flight remembers what it took back. -/
theorem recovered_next {env : Env} {db : Db} {c c' : Call} (next : (c.step env db).2 = .next c') :
    c'.recovered = c.recovered ++ c.taken (.next c') := by
  cases Call.follows next with
  | @rejected request => cases request <;> rfl
  | recoverFailed => simp [recovered, taken, isSweep, written]
  | closeExpired => simp [recovered, taken, isSweep, written]
  | _ => rfl

/-- A sweep that ends has closed the rows of what it took back. -/
theorem recovered_done {env : Env} {db : Db} {c : Call} {result : Except QueueError Value}
    (done : (c.step env db).2 = .done result) : c.recovered = [] ∨ c = .closeExpired c.recovered := by
  cases c with
  | recoverDeadLetter limit before => cases done
  | recoverFailed limit before =>
    simp only [step] at done
    split at done
    · rename_i empty
      exact .inl (List.append_eq_nil_iff.1 (List.isEmpty_iff.1 empty)).1
    · cases done
  | closeExpired ids => exact .inr rfl
  | _ => exact .inl rfl

/-- The unit with which a sweep ends takes nothing back. -/
theorem taken_done (c : Call) (result : Except QueueError Value) : c.taken (.done result) = [] := by
  cases c with
  | start request => cases request <;> rfl
  | _ => rfl

end Call

namespace RowStep

variable {env : Env} {db : Db} {id : Uuid} {c : Call} {p : Progress} {r r' : Option Job}

/-- A row taken back was processing, and is not any more. -/
theorem of_taken (life : RowStep env db id c p r r') (taken : id ∈ c.taken p) :
    (∃ j, r = some j ∧ j.status = .processing) ∧ ∀ j', r' = some j' → j'.status ≠ .processing := by
  cases life with
  | same quiet => exact absurd (Call.mem_written_of_taken taken).2 quiet
  | expiredRetrying _ expired =>
    refine ⟨⟨_, rfl, Db.processing_of_expired expired⟩, ?_⟩
    rintro _ ⟨⟩ ⟨⟩
  | expiredDeadLettered _ expired =>
    refine ⟨⟨_, rfl, Db.processing_of_expired expired⟩, ?_⟩
    rintro _ ⟨⟩ ⟨⟩
  | expiredFailed _ expired =>
    refine ⟨⟨_, rfl, Db.processing_of_expired expired⟩, ?_⟩
    rintro _ ⟨⟩ ⟨⟩
  | _ => exact absurd taken List.not_mem_nil

/-- A row that is processing was so before, and was not taken back, or is leased. -/
theorem processing_after (life : RowStep env db id c p r r') {j' : Job} (after : r' = some j')
    (processing : j'.status = .processing) :
    (id ∉ c.taken p ∧ ∃ j, r = some j ∧ j.status = .processing) ∨
    ∃ worker j, c.lease p = some (worker, j') ∧ j'.id = id ∧ r = some j ∧
      j.status ∈ [.queued, .scheduled, .retrying] ∧ c.isSweep = false := by
  by_cases leases : (c.lease p).map (·.2.id) = some id
  · obtain ⟨⟨worker, job⟩, lease, isId⟩ := Option.map_eq_some_iff.1 leases
    obtain ⟨j, -, row, row', -, waiting, -⟩ := life.of_lease lease isId
    obtain rfl := Option.some.inj (after.symm.trans row')
    exact .inr ⟨worker, j, lease, isId, row, waiting, Call.not_sweep_of_lease lease⟩
  · obtain ⟨j, row, was, -⟩ := life.processing leases after processing
    exact .inl ⟨fun taken => (life.of_taken taken).2 j' after processing, j, row, was⟩

/-- How a row comes to be neither processing nor cancelled. -/
theorem released_after (life : RowStep env db id c p r r') {j' : Job} (after : r' = some j')
    (notProcessing : j'.status ≠ .processing) (notCancelled : j'.status ≠ .cancelled) :
    r = none ∨ (∃ j, r = some j ∧ j.status ≠ .processing ∧ j.status ≠ .cancelled) ∨
    (c.isReport = true ∧ id ∈ c.written p) ∨ id ∈ c.taken p := by
  cases life with
  | same quiet => exact .inr (.inl ⟨j', after, notProcessing, notCancelled⟩)
  | inserted => exact .inl rfl
  | leased =>
    obtain rfl := Option.some.inj after
    exact absurd rfl notProcessing
  | renewed processing =>
    obtain rfl := Option.some.inj after
    exact absurd processing notProcessing
  | completed => exact .inr (.inr (.inl ⟨rfl, List.mem_singleton_self id⟩))
  | failed => exact .inr (.inr (.inl ⟨rfl, List.mem_singleton_self id⟩))
  | cancelled =>
    obtain rfl := Option.some.inj after
    exact absurd rfl notCancelled
  | requeued ended =>
    simp only [List.mem_cons, List.not_mem_nil, or_false] at ended
    rcases ended with was | was
    · exact .inr (.inl ⟨_, rfl, by simp [was], by simp [was]⟩)
    · exact .inr (.inl ⟨_, rfl, by simp [was], by simp [was]⟩)
  | expiredRetrying taken => exact .inr (.inr (.inr taken))
  | expiredDeadLettered taken =>
    refine .inr (.inr (.inr ?_))
    simpa only [Call.taken, Call.isSweep, Call.written, if_pos, List.drop_left] using taken
  | expiredFailed taken =>
    refine .inr (.inr (.inr ?_))
    simpa only [Call.taken, Call.isSweep, Call.written, if_pos, List.drop_left] using taken
  | purged => cases after

/-- A row that is processing is not leased. -/
theorem not_leased (life : RowStep env db id c p r r') {j : Job} (before : r = some j)
    (processing : j.status = .processing) {worker : Uuid} {job : Job} (lease : c.lease p = some (worker, job)) :
    job.id ≠ id := by
  intro isId
  obtain ⟨old, -, row, -, -, waiting, -⟩ := life.of_lease lease isId
  obtain rfl := Option.some.inj (before.symm.trans row)
  simp [processing] at waiting

end RowStep

/-- The job `id` has the attempt row `k`, still running. -/
def Db.runs (db : Db) (id : Uuid) (k : Nat) : Prop := ∃ a ∈ db.attempts, a.jobId = id ∧ a.id = k ∧ a.status = .running

theorem AttemptStep.runs {env : Env} {db db' : Db} {c : Call} {p : Progress} (attempt : AttemptStep env db db' c p)
    {id : Uuid} {k : Nat} (running : db'.runs id k) :
    db.runs id k ∨ ∃ worker job, c.lease p = some (worker, job) ∧ job.id = id ∧ k = db.attemptSeq := by
  obtain ⟨a', mem, rfl, rfl, status⟩ := running
  obtain ⟨a, mem, same, was⟩ | ⟨worker, job, lease, rfl⟩ := attempt.stems mem
  · exact .inl ⟨a, mem, same.jobId.symm, same.id.symm, was status⟩
  · exact .inr ⟨worker, job, lease, rfl, rfl⟩

/-! ## Sweeps in flight -/

/-- Call `i` is a sweep that has taken the job `id` back and not come to its end. -/
def Sys.sweeping (s : Sys) (i : Nat) (id : Uuid) : Prop := ∃ c, s.calls i = some c ∧ id ∈ c.recovered

/-- The attempts a unit takes back: the latest one of every job it takes back. -/
def Commit.taken (u : Commit) : List (Uuid × Nat) :=
  (u.call.taken u.reply).filterMap fun id => (lastAttempt u.db.attempts id).map fun k => (id, k)

/-- The attempts that call `i` takes back with this step. -/
def Label.taken (i : Nat) : Label → List (Uuid × Nat)
  | .commit k u => if k = i then u.taken else []
  | _ => []

/-- The attempts that the sweep `i` has taken back. -/
def takenBy (i : Nat) (ls : List Label) : List (Uuid × Nat) := ls.flatMap (Label.taken i)

theorem mem_takenBy_snoc {i : Nat} {ls : List Label} {l : Label} {x : Uuid × Nat} :
    x ∈ takenBy i (ls ++ [l]) ↔ x ∈ takenBy i ls ∨ x ∈ l.taken i := by
  simp only [takenBy, List.flatMap_append, List.mem_append, List.flatMap_cons, List.flatMap_nil, List.append_nil]

theorem mem_commit_taken {u : Commit} {id : Uuid} {k : Nat} :
    (id, k) ∈ u.taken ↔ id ∈ u.call.taken u.reply ∧ lastAttempt u.db.attempts id = some k := by
  simp only [Commit.taken, List.mem_filterMap, Option.map_eq_some_iff, Prod.mk.injEq]
  constructor
  · rintro ⟨_, taken, _, last, rfl, rfl⟩
    exact ⟨taken, last⟩
  · rintro ⟨taken, last⟩
    exact ⟨id, taken, k, last, rfl, rfl⟩

section Sweeping

variable {s : Sys} {i : Nat} {u : Commit}

theorem Sys.sweeping_of_commit (inFlight : s.calls i = some u.call) {k : Nat} {id : Uuid}
    (sweeping : (s.commit i u).sweeping k id) : s.sweeping k id ∨ (k = i ∧ id ∈ u.call.taken u.reply) := by
  obtain ⟨c', inFlight', recovered⟩ := sweeping
  by_cases this : k = i
  · subst this
    have pending : u.reply.pending = some c' := (s.setCall_self _ _).symm.trans inFlight'
    cases reply : u.reply with
    | done result =>
      rw [reply] at pending
      cases pending
    | next c =>
      rw [reply] at pending
      obtain rfl := Option.some.inj pending
      rw [Call.recovered_next reply, List.mem_append] at recovered
      rcases recovered with before | taken
      · exact .inl ⟨u.call, inFlight, before⟩
      · exact .inr ⟨rfl, taken⟩
  · exact .inl ⟨c', (s.setCall_other _ this).symm.trans inFlight', recovered⟩

theorem Sys.sweeping_commit (inFlight : s.calls i = some u.call) {k : Nat} {id : Uuid} (sweeping : s.sweeping k id) :
    (s.commit i u).sweeping k id ∨ ∃ ids, u.call = .closeExpired ids ∧ id ∈ ids := by
  obtain ⟨c, inFlight', recovered⟩ := sweeping
  by_cases this : k = i
  · subst this
    obtain rfl := Option.some.inj (inFlight.symm.trans inFlight')
    cases reply : u.reply with
    | done result =>
      rcases Call.recovered_done reply with empty | closing
      · rw [empty] at recovered
        exact absurd recovered List.not_mem_nil
      · exact .inr ⟨_, closing, recovered⟩
    | next c =>
      refine .inl ⟨c, ?_, ?_⟩
      · show s.setCall k u.reply.pending k = some c
        rw [s.setCall_self, reply]
        rfl
      · rw [Call.recovered_next reply]
        exact List.mem_append_left _ recovered
  · exact .inl ⟨c, (s.setCall_other _ this).trans inFlight', recovered⟩

theorem Sys.sweeping_taken {id : Uuid} (taken : id ∈ u.call.taken u.reply) : (s.commit i u).sweeping i id := by
  cases reply : u.reply with
  | done result =>
    rw [reply, Call.taken_done] at taken
    exact absurd taken List.not_mem_nil
  | next c =>
    refine ⟨c, ?_, ?_⟩
    · show s.setCall i u.reply.pending i = some c
      rw [s.setCall_self, reply]
      rfl
    · rw [Call.recovered_next reply]
      exact List.mem_append_right _ (reply ▸ taken)

end Sweeping

/-! ## Every run -/

/-- The steps that leave the sweeps alone: no lease takes a job that a sweep in
flight has taken back, and no sweep stops while such a job is in the table. -/
structure SweepsAlone (s : Sys) (l : Label) : Prop where
  noLease : ∀ i id, s.sweeping i id → ∀ worker job, l.lease = some (worker, job) → job.id ≠ id
  noStop : ∀ i c, l = .stop i c → ∀ id ∈ c.recovered, s.db.job? id = none

/-- Which attempt rows are running, and what the sweeps in flight have to do with them. -/
structure Sys.Swept (ls : List Label) (s : Sys) : Prop where
  held : ∀ id j, s.db.job? id = some j → j.status = .processing →
    (∀ k, s.db.runs id k → lastAttempt s.db.attempts id = some k) ∧ ∀ i, ¬ s.sweeping i id
  released : ∀ id j, s.db.job? id = some j → j.status ≠ .processing → j.status ≠ .cancelled →
    ∀ k, s.db.runs id k → ∃ i, s.sweeping i id
  pending : ∀ i id, s.sweeping i id → ∀ k, s.db.runs id k → (id, k) ∈ takenBy i ls
  taken : ∀ i id k, (id, k) ∈ takenBy i ls → k < s.db.attemptSeq ∧ (s.db.runs id k → s.sweeping i id)

/-- What a commit starts from: the invariants, and a unit of a call in flight
that leases no job a sweep has taken back. -/
structure Sys.Commits (ls : List Label) (s : Sys) (i : Nat) (u : Commit) : Prop where
  sound : s.Sound
  attempts : s.AttemptsSound
  swept : s.Swept ls
  inFlight : s.calls i = some u.call
  on : u.db = s.db
  fresh : u.env.uuid ∉ s.issued
  noLease : ∀ k id, s.sweeping k id → ∀ worker job, u.lease = some (worker, job) → job.id ≠ id

namespace Sys.Commits

variable {ls : List Label} {s : Sys} {i : Nat} {u : Commit}

theorem life (h : s.Commits ls i u) (id : Uuid) :
    RowStep u.env u.db id u.call u.reply (s.db.job? id) (u.after.job? id) :=
  h.sound.row_step h.on h.fresh id

theorem attempt (h : s.Commits ls i u) : AttemptStep u.env s.db u.after u.call u.reply := by
  rw [← h.on]
  exact Call.attempt_step (h.on ▸ h.sound.keyed) u.call

/-- A sweep that still has a running row to close stays in flight. -/
theorem sweeping (h : s.Commits ls i u) {k : Nat} {id : Uuid} {n : Nat} (running : u.after.runs id n)
    (sweeping : s.sweeping k id) : (s.commit i u).sweeping k id := by
  obtain still | closing := Sys.sweeping_commit h.inFlight sweeping
  · exact still
  · obtain ⟨a, mem, isId, -, status⟩ := running
    exact absurd status (h.attempt.ended (.inr closing) mem isId)

theorem held (h : s.Commits ls i u) {id : Uuid} {j' : Job} (row' : u.after.job? id = some j')
    (processing : j'.status = .processing) :
    (∀ k, u.after.runs id k → lastAttempt u.after.attempts id = some k) ∧
      ∀ k, ¬ (s.commit i u).sweeping k id := by
  obtain ⟨untaken, j, row, was⟩ | ⟨worker, j, lease, isId, row, waiting, notSweep⟩ :=
    (h.life id).processing_after row' processing
  · obtain ⟨last, free⟩ := h.swept.held id j row was
    have notLeased : ∀ worker job, u.call.lease u.reply = some (worker, job) → job.id ≠ id := fun _ _ lease =>
      (h.life id).not_leased row was lease
    constructor
    · intro k running
      rw [h.attempt.last_kept h.sound.keyed notLeased row']
      obtain old | ⟨worker, job, lease, isId, -⟩ := h.attempt.runs running
      · exact last k old
      · exact absurd isId (notLeased worker job lease)
    · intro k sweeping
      obtain before | ⟨-, taken⟩ := Sys.sweeping_of_commit h.inFlight sweeping
      · exact free k before
      · exact untaken taken
  · have idle : ∀ k, ¬ s.sweeping k id := fun k sweeping => h.noLease k id sweeping worker j' lease isId
    constructor
    · intro k running
      obtain old | ⟨-, -, -, -, new⟩ := h.attempt.runs running
      · -- a row still running would be one that a sweep in flight has to close
        have notProcessing : j.status ≠ .processing := by
          intro was
          simp [was] at waiting
        have notCancelled : j.status ≠ .cancelled := by
          intro was
          simp [was] at waiting
        obtain ⟨n, sweeping⟩ := h.swept.released id j row notProcessing notCancelled k old
        exact absurd sweeping (idle n)
      · rw [h.attempt.rows_of_lease lease, lastAttempt_open, new]
        exact if_pos isId
    · intro k sweeping
      obtain before | ⟨-, taken⟩ := Sys.sweeping_of_commit h.inFlight sweeping
      · exact idle k before
      · rw [Call.taken_eq_nil notSweep] at taken
        exact List.not_mem_nil taken

theorem released (h : s.Commits ls i u) {id : Uuid} {j' : Job} (row' : u.after.job? id = some j')
    (notProcessing : j'.status ≠ .processing) (notCancelled : j'.status ≠ .cancelled) {k : Nat}
    (running : u.after.runs id k) : ∃ n, (s.commit i u).sweeping n id := by
  have old : s.db.runs id k := by
    obtain old | ⟨worker, job, lease, isId, -⟩ := h.attempt.runs running
    · exact old
    · obtain ⟨j, secs, -, leased, rfl, -⟩ := (h.life id).of_lease lease isId
      obtain rfl := Option.some.inj (row'.symm.trans leased)
      exact absurd rfl notProcessing
  obtain absent | ⟨j, row, was, was'⟩ | report | taken :=
    (h.life id).released_after row' notProcessing notCancelled
  · obtain ⟨a, mem, rfl, -⟩ := old
    obtain ⟨j, row⟩ := h.attempts.owned a mem
    cases absent.symm.trans row
  · obtain ⟨n, sweeping⟩ := h.swept.released id j row was was' k old
    exact ⟨n, h.sweeping running sweeping⟩
  · obtain ⟨a, mem, isId, -, status⟩ := running
    exact absurd status (h.attempt.ended (.inl report) mem isId)
  · exact ⟨i, Sys.sweeping_taken taken⟩

theorem pending (h : s.Commits ls i u) {n : Nat} {id : Uuid} (sweeping : (s.commit i u).sweeping n id) {k : Nat}
    (running : u.after.runs id k) : (id, k) ∈ takenBy n (ls ++ [.commit i u]) := by
  rw [mem_takenBy_snoc]
  obtain before | ⟨rfl, taken⟩ := Sys.sweeping_of_commit h.inFlight sweeping
  · obtain old | ⟨worker, job, lease, isId, -⟩ := h.attempt.runs running
    · exact .inl (h.swept.pending n id before k old)
    · exact absurd isId (h.noLease n id before worker job lease)
  · obtain ⟨⟨j, row, processing⟩, -⟩ := (h.life id).of_taken taken
    obtain old | ⟨worker, job, lease, isId, -⟩ := h.attempt.runs running
    · have last := (h.swept.held id j row processing).1 k old
      rw [← h.on] at last
      simp only [Label.taken, ↓reduceIte]
      exact .inr (mem_commit_taken.2 ⟨taken, last⟩)
    · exact absurd isId ((h.life id).not_leased row processing lease)

theorem taken (h : s.Commits ls i u) {n : Nat} {id : Uuid} {k : Nat}
    (mem : (id, k) ∈ takenBy n (ls ++ [.commit i u])) :
    k < u.after.attemptSeq ∧ (u.after.runs id k → (s.commit i u).sweeping n id) := by
  have seq := h.attempt.seq_le
  rcases mem_takenBy_snoc.1 mem with old | new
  · obtain ⟨lt, sweeps⟩ := h.swept.taken n id k old
    refine ⟨lt.trans_le seq, fun running => ?_⟩
    obtain before | ⟨-, -, -, -, opened⟩ := h.attempt.runs running
    · exact h.sweeping running (sweeps before)
    · exact absurd opened (Nat.ne_of_lt lt)
  · simp only [Label.taken] at new
    split at new
    · rename_i this
      subst this
      obtain ⟨taken, last⟩ := mem_commit_taken.1 new
      obtain ⟨a, aMem, -, rfl⟩ := lastAttempt_mem last
      have lt := h.attempts.numbered a (h.on ▸ aMem)
      exact ⟨lt.trans_le seq, fun _ => Sys.sweeping_taken taken⟩
    · exact absurd new List.not_mem_nil

theorem keeps (h : s.Commits ls i u) : (s.commit i u).Swept (ls ++ [.commit i u]) := by
  constructor
  · intro id j row processing
    exact h.held row processing
  · intro id j row notProcessing notCancelled k running
    exact h.released row notProcessing notCancelled running
  · intro n id sweeping k running
    exact h.pending sweeping running
  · intro n id k mem
    exact h.taken mem

end Sys.Commits

namespace Sys.Swept

variable {ls : List Label} {s s' : Sys}

/-- A step that commits nothing, as long as the sweeps it ends have no row to close. -/
theorem quiet (swept : s.Swept ls) {l : Label} (noCommit : ∀ i u, l ≠ .commit i u)
    (jobs : ∀ id, s'.db.job? id = s.db.job? id) (rows : s'.db.attempts = s.db.attempts)
    (seq : s'.db.attemptSeq = s.db.attemptSeq) (fewer : ∀ i id, s'.sweeping i id → s.sweeping i id)
    (ended : ∀ i id k, s.sweeping i id → s.db.runs id k → s'.sweeping i id) : s'.Swept (ls ++ [l]) := by
  have runs : ∀ id k, s'.db.runs id k ↔ s.db.runs id k := by
    intro id k
    unfold Db.runs
    rw [rows]
  have taken : ∀ i x, x ∈ takenBy i (ls ++ [l]) ↔ x ∈ takenBy i ls := by
    intro i x
    rw [mem_takenBy_snoc]
    refine or_iff_left fun mem => ?_
    cases l with
    | commit k u => exact noCommit k u rfl
    | _ => exact List.not_mem_nil mem
  constructor
  · intro id j row processing
    rw [jobs] at row
    obtain ⟨last, free⟩ := swept.held id j row processing
    refine ⟨fun k running => ?_, fun i sweeping => free i (fewer i id sweeping)⟩
    rw [rows]
    exact last k ((runs id k).1 running)
  · intro id j row notProcessing notCancelled k running
    rw [jobs] at row
    have old := (runs id k).1 running
    obtain ⟨i, sweeping⟩ := swept.released id j row notProcessing notCancelled k old
    exact ⟨i, ended i id k sweeping old⟩
  · intro i id sweeping k running
    exact (taken i _).2 (swept.pending i id (fewer i id sweeping) k ((runs id k).1 running))
  · intro i id k mem
    obtain ⟨lt, sweeps⟩ := swept.taken i id k ((taken i _).1 mem)
    rw [seq]
    refine ⟨lt, fun running => ?_⟩
    have old := (runs id k).1 running
    exact ended i id k (sweeps old) old

/-- **One step** that leaves the sweeps alone. -/
theorem step (swept : s.Swept ls) (sound : s.Sound) (attempts : s.AttemptsSound) {l : Label}
    (last : Restrict SweepsAlone Step s l s') : s'.Swept (ls ++ [l]) := by
  obtain ⟨alone, step⟩ := last
  cases step with
  | tick later => exact swept.quiet (by simp) (fun _ => rfl) rfl rfl (fun _ _ h => h) (fun _ _ _ h _ => h)
  | reorder same =>
    exact swept.quiet (by simp) (fun _ => sound.keyed.lookup_perm same) rfl rfl (fun _ _ h => h) (fun _ _ _ h _ => h)
  | begin request =>
    refine swept.quiet (by simp) (fun _ => rfl) rfl rfl ?_ ?_
    · rintro i id ⟨c, inFlight, recovered⟩
      by_cases new : i = s.nextCall
      · subst new
        obtain rfl : .start request = c := Option.some.inj ((s.setCall_self _ _).symm.trans inFlight)
        exact absurd recovered List.not_mem_nil
      · exact ⟨c, (s.setCall_other _ new).symm.trans inFlight, recovered⟩
    · rintro i id k ⟨c, inFlight, recovered⟩ -
      have old : i ≠ s.nextCall := by
        have lt := sound.lt_nextCall inFlight
        omega
      exact ⟨c, (s.setCall_other _ old).trans inFlight, recovered⟩
  | @commit i u inFlight on now fresh =>
    exact Sys.Commits.keeps ⟨sound, attempts, swept, inFlight, on, fresh, alone.noLease⟩
  | @stop i c inFlight =>
    refine swept.quiet (by simp) (fun _ => rfl) rfl rfl ?_ ?_
    · rintro k id ⟨c', inFlight', recovered⟩
      by_cases this : k = i
      · subst this
        cases (s.setCall_self _ _).symm.trans inFlight'
      · exact ⟨c', (s.setCall_other _ this).symm.trans inFlight', recovered⟩
    · rintro k id n ⟨c', inFlight', recovered⟩ ⟨a, mem, rfl, -⟩
      by_cases this : k = i
      · -- the job of a running row is in the table, so its sweep does not stop
        subst this
        obtain rfl := Option.some.inj (inFlight.symm.trans inFlight')
        obtain ⟨j, row⟩ := attempts.owned a mem
        cases (alone.noStop k c rfl a.jobId recovered).symm.trans row
      · exact ⟨c', (s.setCall_other _ this).trans inFlight', recovered⟩

end Sys.Swept

theorem Sys.swept_init (t : Int) : (Sys.init t).Swept [] := by
  constructor
  · intro id j row
    cases row
  · intro id j row
    cases row
  · rintro i id ⟨c, inFlight, -⟩
    cases inFlight
  · intro i id k mem
    exact absurd mem List.not_mem_nil

theorem Sys.swept_of_run {t : Int} {ls : List Label} {s : Sys}
    (run : Run (Restrict SweepsAlone Step) (Sys.init t) ls s) : s.Swept ls := by
  induction run with
  | nil => exact Sys.swept_init t
  | snoc before last ih =>
    exact ih.step (Sys.sound_of_run before.unrestrict) (Sys.attemptsSound_of_run before.unrestrict) last

/-! ## What goes wrong, and when it does not -/

/-- What a run and the state it arrives at owe to the sweeps: a statement of a
sweep changes an attempt row only if that is the attempt of an expired lease this
sweep took back, and of the attempts taken back by a sweep that has ended or
stopped none is running. -/
structure SweptAsOne (ls : List Label) (s : Sys) : Prop where
  onlyTaken : ∀ pre i u post, ls = pre ++ .commit i u :: post → u.call.ofSweep = true →
    ∀ a ∈ u.db.attempts, ∀ a' ∈ u.after.attempts, a'.id = a.id → a' ≠ a → (a.jobId, a.id) ∈ takenBy i pre
  noneLeft : ∀ i id k, (id, k) ∈ takenBy i ls → s.calls i = none → ¬ s.db.runs id k

/-- A lease of 60 seconds runs out and a sweep takes the job back. -/
def expiryScript : List Action :=
  Action.submit 0 (.sample 2 none NewJob.sample_twice) 7 ++ Action.call 1 (.leaseNext 1 ["emails"] 60) ++
    [.tick 61000000] ++ Action.call 2 (.recoverExpiredLeases 10)

/-- A sweep that stops after its first statement leaves the attempt of the expired lease running. -/
theorem not_sweptAsOne : ¬ ∀ t ls s, Run Step (Sys.init t) ls s → SweptAsOne ls s := by
  intro asOne
  have run := @Sys.replay_run (Sys.init 0) (expiryScript ++ [.stop 2]) (by decide)
  refine (asOne 0 _ _ run).noneLeft 2 7 1 (by decide) rfl ?_
  unfold Db.runs
  decide

/-- **A sweep as one unit.** In every run in which no lease takes a job that a
sweep in flight has taken back, and no sweep stops while such a job is in the table. -/
theorem swept_as_one {t : Int} {ls : List Label} {s : Sys} (run : Run (Restrict SweepsAlone Step) (Sys.init t) ls s) :
    SweptAsOne ls s := by
  constructor
  · rintro pre i u post rfl ofSweep a mem a' mem' sameId changed
    obtain ⟨r, _, before, ⟨-, step⟩, -⟩ := run.at_label
    have swept := Sys.swept_of_run before
    have keyed := (Sys.attemptsSound_of_run before.unrestrict).keyed
    obtain ⟨inFlight, on, -⟩ := step.commit_inv
    rw [on] at mem
    have attempt : AttemptStep u.env r.db u.after u.call u.reply := by
      rw [← on]
      exact Call.attempt_step (on ▸ (Sys.sound_of_run before.unrestrict).keyed) u.call
    generalize u.reply = p at attempt
    generalize u.after = db' at attempt mem'
    generalize u.call = c at attempt inFlight ofSweep
    cases attempt with
    | same _ _ _ _ rows => exact absurd (keyed.unique (rows ▸ mem') mem sameId) changed
    | opened lease =>
      unfold Call.lease at lease
      split at lease
      · cases ofSweep
      · cases lease
    | @closed _ _ ids _ _ _ who _ ofJobs keeps _ rows =>
      obtain ⟨old, oldMem, rfl⟩ := mem_updateWhere.1 (rows ▸ mem')
      split at changed
      · rename_i hit
        rw [if_pos hit, (keeps old).id] at sameId
        obtain rfl := keyed.unique oldMem mem sameId
        rw [Bool.and_eq_true, ofJobs, decide_eq_true_eq, decide_eq_true_eq] at hit
        have sweeping : r.sweeping i old.jobId := by
          rcases who with ⟨report, -⟩ | rfl
          · exact absurd report (Call.not_report_of_sweep ofSweep)
          · exact ⟨_, inFlight, hit.1⟩
        exact swept.pending i old.jobId sweeping old.id ⟨old, mem, rfl, rfl, hit.2⟩
      · rename_i miss
        rw [if_neg miss] at sameId
        exact absurd (keyed.unique oldMem mem sameId) changed
    | purged => cases ofSweep
  · intro i id k taken ended running
    obtain ⟨c, inFlight, -⟩ := ((Sys.swept_of_run run).taken i id k taken).2 running
    cases ended.symm.trans inFlight

/-- No sweep has taken anything back that is not closed, as far as the numbers given. -/
def Sys.noSweep (s : Sys) : Bool := (List.range s.nextCall).all fun i => (s.calls i).all fun c => c.recovered.isEmpty

/-- Nothing is stopped, and nothing leased during a sweep. -/
def sweepsAloneCheck (s : Sys) : Label → Bool
  | .stop _ _ => false
  | .commit _ u => u.lease.isNone || s.noSweep
  | _ => true

theorem sweepsAlone_of_check (s : Sys) (l : Label) (sound : s.Sound) (check : sweepsAloneCheck s l = true) :
    SweepsAlone s l := by
  constructor
  · rintro i id ⟨c, inFlight, recovered⟩ worker job leased
    cases l with
    | commit k u =>
      rcases Bool.or_eq_true_iff.1 check with noLease | clear
      · rw [Option.isNone_iff_eq_none] at noLease
        cases noLease.symm.trans leased
      · have empty := sound.of_given (p := Option.all fun c => c.recovered.isEmpty) clear inFlight
        simp only [Option.all_some, List.isEmpty_iff] at empty
        rw [empty] at recovered
        exact absurd recovered List.not_mem_nil
    | _ => cases leased
  · rintro i c rfl
    cases check

/-- The same sweep, left to come to its end. -/
theorem swept_as_one_expired :
    let script := expiryScript ++ [.commit 2 4000, .commit 2 4001, .commit 2 4002]
    SweptAsOne ((Sys.init 0).trace script) ((Sys.init 0).replay script) ∧
      (7, 1) ∈ takenBy 2 ((Sys.init 0).trace script) := by
  have passes := @Sys.replay_passes sweepsAloneCheck (Sys.init 0)
    (expiryScript ++ [.commit 2 4000, .commit 2 4001, .commit 2 4002]) (by decide)
  exact ⟨swept_as_one (Sys.run_of_check sweepsAlone_of_check passes), by decide⟩

end Djq
