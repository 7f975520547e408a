import Djq.Submission.Idempotency
import Djq.Transition.Replay

/-!
# One submission among the other clients

A call of `submit`, for any job that meets the CHECKs, statement by statement
between the commits of everybody else. Every statement finds what it relies on
but the last: the row to which the call has lost the race for its key may have
been purged by the time it is fetched.
-/

namespace Djq

open Relational Transition

/-! ## The call -/

/-- What is left of a call of `submit`. -/
inductive SubmitCall where
  | ensureQueue
  | readQueue
  /-- The fast path for idempotency. -/
  | lookup
  | insert
  /-- To fetch the row the other writer inserted. -/
  | fallback
  deriving DecidableEq

inductive SubmitProgress where
  | next (c : SubmitCall)
  | done (result : Except QueueError Submission)
  deriving DecidableEq

/-- A row holds the queue and the key of the job. -/
def NormalizedJob.Taken (job : NormalizedJob) (db : Db) : Prop :=
  ∃ j ∈ db.jobs, j.sameKey job.queue job.idempotencyKey = true

instance (job : NormalizedJob) (db : Db) : Decidable (job.Taken db) :=
  inferInstanceAs (Decidable (∃ j ∈ db.jobs, _))

/-- The call returns `created` with its own row, or the row it found. -/
inductive NormalizedJob.Delivered (job : NormalizedJob) (env : Env) (db db' : Db) :
    Except QueueError Submission → Prop where
  | created (absent : db.job? env.uuid = none) (stored : db'.job? env.uuid = some (job.row env)) :
      job.Delivered env db db' (.ok ⟨job.row env, true⟩)
  | existing {j} (there : j ∈ db.jobs) (key : j.sameKey job.queue job.idempotencyKey = true) :
      job.Delivered env db db' (.ok ⟨j, false⟩)

namespace SubmitCall

/-- Commit the next statement of the call. -/
def step (job : NormalizedJob) (env : Env) (db : Db) : SubmitCall → Db × SubmitProgress
  | ensureQueue => (db.ensureQueue env job.queue, .next readQueue)
  | readQueue =>
    match db.queue? job.queue with
    | none => (db, .done (.error rowNotFound))
    | some _ => (db, .next (if job.idempotencyKey.isSome then lookup else insert))
  | lookup =>
    match job.idempotencyKey.bind (db.findByKey job.queue) with
    | some existing => (db, .done (.ok ⟨existing, false⟩))
    | none => (db, .next insert)
  | insert =>
    match db.insertJob env job with
    | (db, .inserted row) => (db, .done (.ok ⟨row, true⟩))
    | (db, .otherViolation) => (db, .done (.error constraintViolation))
    | (db, .uniqueViolation) =>
      (db, if job.idempotencyKey.isSome then .next fallback else .done (.error duplicateKey))
  | fallback =>
    match job.idempotencyKey.bind (db.findByKey job.queue) with
    | some existing => (db, .done (.ok ⟨existing, false⟩))
    | none => (db, .done (.error rowNotFound))

/-- How many statements are left, at most. -/
def left : SubmitCall → Nat
  | ensureQueue => 5
  | readQueue => 4
  | lookup => 3
  | insert => 2
  | fallback => 1

/-- The call of the store, for a job that `normalized` let through. -/
def call (s : Submittable) : SubmitCall → Call
  | ensureQueue => .start (.submit s)
  | readQueue => .submitReadQueue s
  | lookup => .submitLookup s
  | insert => .submitInsert s
  | fallback => .submitFallback s

end SubmitCall

def SubmitProgress.progress (s : Submittable) : SubmitProgress → Progress
  | .next c => .next (c.call s)
  | .done result => .done (result.map .submission)

/-- The statements are the units of the store's call. -/
theorem SubmitCall.call_step (s : Submittable) (c : SubmitCall) (env : Env) (db : Db) :
    (c.call s).step env db = ((c.step s.job env db).1, (c.step s.job env db).2.progress s) := by
  cases c with
  | ensureQueue => rfl
  | readQueue =>
    simp only [call, Call.step, step]
    cases db.queue? s.job.queue with
    | none => rfl
    | some q => cases s.job.idempotencyKey <;> rfl
  | lookup =>
    simp only [call, Call.step, step]
    cases s.job.idempotencyKey.bind (db.findByKey s.job.queue) <;> rfl
  | insert =>
    simp only [call, Call.step, step]
    rcases db.insertJob env s.job with ⟨db', reply⟩
    cases reply with
    | uniqueViolation => cases s.job.idempotencyKey <;> rfl
    | _ => rfl
  | fallback =>
    simp only [call, Call.step, step]
    cases s.job.idempotencyKey.bind (db.findByKey s.job.queue) <;> rfl

/-! ## One statement -/

section Unit

variable {job : NormalizedJob} {env : Env} {db : Db}

theorem NormalizedJob.Taken.keyed (taken : job.Taken db) : job.idempotencyKey.isSome = true := by
  obtain ⟨j, -, key⟩ := taken
  exact (Job.sameKey_iff.1 key).2.1

/-- Both lookups of the key. -/
theorem NormalizedJob.lookup_cases (job : NormalizedJob) (db : Db) :
    (∃ j ∈ db.jobs, job.idempotencyKey.bind (db.findByKey job.queue) = some j ∧
      j.sameKey job.queue job.idempotencyKey = true) ∨
    (job.idempotencyKey.bind (db.findByKey job.queue) = none ∧ ¬ job.Taken db) := by
  cases key : job.idempotencyKey with
  | none =>
    refine .inr ⟨rfl, fun taken => ?_⟩
    have keyed := taken.keyed
    rw [key] at keyed
    cases keyed
  | some k =>
    rw [Option.bind_some]
    cases hit : db.findByKey job.queue k with
    | none =>
      refine .inr ⟨rfl, ?_⟩
      rintro ⟨j, mem, same⟩
      rw [key] at same
      exact List.find?_eq_none.1 hit j mem same
    | some j => exact .inl ⟨j, List.mem_of_find?_eq_some hit, rfl, List.find?_some hit⟩

/-- An INSERT that the CHECKs and the foreign key let through loses only to a row of its key. -/
theorem NormalizedJob.insert_cases (job : NormalizedJob) (checked : (job.row env).checks = true)
    (unused : db.job? env.uuid = none) (queue : ∃ q ∈ db.queues, q.name = job.queue) :
    (db.insertJob env job = (db, .uniqueViolation) ∧ job.Taken db) ∨
    (db.insertJob env job = ({ db with jobs := db.jobs ++ [job.row env] }, .inserted (job.row env)) ∧
      Db.job? { db with jobs := db.jobs ++ [job.row env] } env.uuid = some (job.row env)) := by
  obtain ⟨-, refused⟩ | ⟨ends, j, there, clash⟩ | ⟨ends, -⟩ := db.insertJob_spec env job
  · rcases refused with unchecked | missing
    · cases checked.symm.trans unchecked
    · have present : (db.queue? job.queue).isSome = true := lookup_isSome_iff.2 queue
      rw [missing] at present
      cases present
  · rcases clash with isId | key
    · exact absurd isId (lookup_none_iff.1 unused j there)
    · exact .inl ⟨ends, j, there, key⟩
  · refine .inr ⟨ends, ?_⟩
    have appended : Db.job? { db with jobs := db.jobs ++ [job.row env] } env.uuid =
        (db.job? env.uuid).or (if (job.row env).id = env.uuid then some (job.row env) else none) := lookup_append
    rw [appended, unused, Option.none_or]
    exact if_pos rfl

/-- What a statement can do, once the queue is there: it comes nearer to the end
and leaves the jobs alone, delivers, or misses the row it was to fetch. -/
theorem SubmitCall.step_cases (checked : (job.row env).checks = true) (unused : db.job? env.uuid = none)
    (c : SubmitCall) (queue : c ≠ .ensureQueue → ∃ q ∈ db.queues, q.name = job.queue) :
    (∃ c', (c.step job env db).2 = .next c' ∧ c'.left < c.left ∧ (c.step job env db).1.jobs = db.jobs ∧
      (∀ q ∈ db.queues, q ∈ (c.step job env db).1.queues) ∧
      (∃ q ∈ (c.step job env db).1.queues, q.name = job.queue) ∧ (c' = .fallback → job.Taken db)) ∨
    (∃ r, (c.step job env db).2 = .done r ∧ job.Delivered env db (c.step job env db).1 r ∧
      (c = .fallback → job.Taken db)) ∨
    (c = .fallback ∧ ¬ job.Taken db ∧ (c.step job env db).2 = .done (.error rowNotFound)) := by
  cases c with
  | ensureQueue =>
    refine .inl ⟨.readQueue, rfl, by decide, rfl, fun q mem => mem_insertIgnore_of_mem mem, ?_, by simp⟩
    exact insertIgnore_has
  | readQueue =>
    obtain ⟨q, mem, name⟩ := queue (by simp)
    obtain ⟨q', there⟩ := Option.isSome_iff_exists.1 (lookup_isSome_iff.2 ⟨q, mem, name⟩)
    have present : db.queue? job.queue = some q' := there
    have unit : SubmitCall.step job env db .readQueue =
        (db, .next (if job.idempotencyKey.isSome then .lookup else .insert)) := by simp only [step, present]
    rw [unit]
    refine .inl ⟨_, rfl, ?_, rfl, fun q mem => mem, ⟨q, mem, name⟩, ?_⟩
    · split <;> decide
    · split <;> simp
  | lookup =>
    obtain ⟨j, mem, hit, key⟩ | ⟨miss, -⟩ := job.lookup_cases db
    · have unit : SubmitCall.step job env db .lookup = (db, .done (.ok ⟨j, false⟩)) := by simp only [step, hit]
      rw [unit]
      exact .inr (.inl ⟨_, rfl, .existing mem key, by simp⟩)
    · have unit : SubmitCall.step job env db .lookup = (db, .next .insert) := by simp only [step, miss]
      rw [unit]
      exact .inl ⟨.insert, rfl, by decide, rfl, fun q mem => mem, queue (by simp), by simp⟩
  | insert =>
    obtain ⟨ends, taken⟩ | ⟨ends, stored⟩ := job.insert_cases checked unused (queue (by simp))
    · have unit : SubmitCall.step job env db .insert = (db, .next .fallback) := by
        simp only [step, ends, taken.keyed, if_true]
      rw [unit]
      exact .inl ⟨.fallback, rfl, by decide, rfl, fun q mem => mem, queue (by simp), fun _ => taken⟩
    · have unit : SubmitCall.step job env db .insert =
          ({ db with jobs := db.jobs ++ [job.row env] }, .done (.ok ⟨job.row env, true⟩)) := by
        simp only [step, ends]
      rw [unit]
      exact .inr (.inl ⟨_, rfl, .created unused stored, by simp⟩)
  | fallback =>
    obtain ⟨j, mem, hit, key⟩ | ⟨miss, free⟩ := job.lookup_cases db
    · have unit : SubmitCall.step job env db .fallback = (db, .done (.ok ⟨j, false⟩)) := by simp only [step, hit]
      rw [unit]
      exact .inr (.inl ⟨_, rfl, .existing mem key, fun _ => ⟨j, mem, key⟩⟩)
    · have unit : SubmitCall.step job env db .fallback = (db, .done (.error rowNotFound)) := by
        simp only [step, miss]
      rw [unit]
      exact .inr (.inr ⟨rfl, free, rfl⟩)

end Unit

/-! ## The call among the others -/

/-- The database with its other clients, and what is left of the call. -/
structure Submitting where
  sys : Sys
  own : SubmitProgress

namespace Submitting

/-- The call is made. -/
def start (sys : Sys) : Submitting := ⟨sys, .next .ensureQueue⟩

def commit (s : Submitting) (job : NormalizedJob) (c : SubmitCall) (env : Env) : Submitting where
  sys := { s.sys with db := (c.step job env s.sys.db).1, issued := env.uuid :: s.sys.issued }
  own := (c.step job env s.sys.db).2

inductive Label where
  | other (l : Djq.Label)
  | own (c : SubmitCall) (env : Env)

def Label.isOwn : Label → Bool
  | .other _ => false
  | .own _ _ => true

def Label.deletes (id : Uuid) : Label → Bool
  | .other l => l.deletes id
  | .own _ _ => false

inductive Step (job : NormalizedJob) : Submitting → Label → Submitting → Prop where
  | other {s l sys} (step : Djq.Step s.sys l sys) : Step job s (.other l) { s with sys := sys }
  | own {s c env} (waits : s.own = .next c) (now : env.now = s.sys.clock) (fresh : env.uuid ∉ s.sys.issued) :
      Step job s (.own c env) (s.commit job c env)

/-- While the call waits to fetch the row it lost to, no purge deletes a row under its key. -/
def Spared (job : NormalizedJob) (s : Submitting) (l : Label) : Prop :=
  s.own = .next .fallback → ∀ j ∈ s.sys.db.jobs, j.sameKey job.queue job.idempotencyKey = true → l.deletes j.id = false

instance (job : NormalizedJob) (s : Submitting) (l : Label) : Decidable (Spared job s l) :=
  inferInstanceAs (Decidable (_ → ∀ j ∈ s.sys.db.jobs, _ → _))

/-- What a call in flight relies on. -/
structure Sound (job : NormalizedJob) (s : Submitting) (c : SubmitCall) : Prop where
  sys : s.sys.Sound
  queue : c ≠ .ensureQueue → ∃ q ∈ s.sys.db.queues, q.name = job.queue

/-- At most so many statements are left. -/
def left (s : Submitting) : Nat :=
  match s.own with
  | .next c => c.left
  | .done _ => 0

variable {job : NormalizedJob} {s s' : Submitting} {l : Label} {c : SubmitCall} {env : Env}

/-- No step of a client deletes a queue. -/
theorem queue_kept {sys sys' : Sys} {l : Djq.Label} (step : Djq.Step sys l sys') {q : Queue}
    (mem : q ∈ sys.db.queues) : ∃ q' ∈ sys'.db.queues, q'.name = q.name := by
  cases step with
  | @commit i u inFlight on => exact Call.queues_kept u.env u.db u.call (on ▸ mem)
  | _ => exact ⟨q, mem, rfl⟩

/-- A key stays taken unless a purge deletes the row that holds it. -/
theorem taken_kept {sys sys' : Sys} {l : Djq.Label} (sound : sys.Sound) (step : Djq.Step sys l sys')
    (taken : job.Taken sys.db)
    (spared : ∀ j ∈ sys.db.jobs, j.sameKey job.queue job.idempotencyKey = true → l.deletes j.id = false) :
    job.Taken sys'.db := by
  obtain ⟨j, mem, key⟩ := taken
  obtain ⟨j', row', same⟩ | ⟨deleted, -⟩ := step.row_kept sound (sound.keyed.lookup_self mem)
  · obtain ⟨queue, keyed, eq⟩ := Job.sameKey_iff.1 key
    exact ⟨j', Db.job?_mem row', Job.sameKey_iff.2 ⟨same.queue.trans queue, keyed, same.idempotencyKey.trans eq⟩⟩
  · cases (spared j mem key).symm.trans deleted

theorem Sound.other {sys : Sys} {l : Djq.Label} (sound : s.Sound job c) (step : Djq.Step s.sys l sys) :
    Sound job { s with sys := sys } c := by
  refine ⟨step.sound sound.sys, fun begun => ?_⟩
  obtain ⟨q, mem, name⟩ := sound.queue begun
  obtain ⟨q', mem', name'⟩ := queue_kept step mem
  exact ⟨q', mem', name'.trans name⟩

/-- A statement of the call, by what it comes to. -/
theorem Sound.own (checked : ∀ env, (job.row env).checks = true) (sound : s.Sound job c)
    (fresh : env.uuid ∉ s.sys.issued) :
    (∃ c', (s.commit job c env).own = .next c' ∧ c'.left < c.left ∧ (s.commit job c env).Sound job c' ∧
      (c' = .fallback → job.Taken (s.commit job c env).sys.db)) ∨
    (∃ r, (s.commit job c env).own = .done r ∧ job.Delivered env s.sys.db (s.commit job c env).sys.db r ∧
      (c = .fallback → job.Taken s.sys.db)) ∨
    (c = .fallback ∧ ¬ job.Taken s.sys.db ∧ (s.commit job c env).own = .done (.error rowNotFound)) := by
  obtain ⟨c', next, fewer, jobs, queues, queue, taken⟩ | delivered | missed :=
    SubmitCall.step_cases (checked env) (sound.sys.unused fresh) c sound.queue
  · refine .inl ⟨c', next, fewer, ⟨⟨?_, ?_, ?_, sound.sys.idle⟩, fun _ => queue⟩, ?_⟩
    · show Keyed Job.id (c.step job env s.sys.db).1.jobs
      rw [jobs]
      exact sound.sys.keyed
    · intro j mem
      exact List.mem_cons_of_mem _ (sound.sys.issued j (jobs ▸ mem))
    · intro j mem
      obtain ⟨q, qMem, name⟩ := sound.sys.queues j (jobs ▸ mem)
      exact ⟨q, queues q qMem, name⟩
    · intro lost
      obtain ⟨j, mem, key⟩ := taken lost
      exact ⟨j, jobs ▸ mem, key⟩
  · exact .inr (.inl delivered)
  · exact .inr (.inr missed)

variable {t : Int} {pre : List Djq.Label} {sys : Sys} {ls : List Label}

theorem sound_of_run (checked : ∀ env, (job.row env).checks = true) (before : Run Djq.Step (Sys.init t) pre sys)
    (run : Run (Step job) (start sys) ls s) : ∀ c, s.own = .next c → s.Sound job c := by
  induction run with
  | nil =>
    intro c begun
    obtain rfl := SubmitProgress.next.inj begun
    exact ⟨Sys.sound_of_run before, fun begun => absurd rfl begun⟩
  | snoc _ last ih =>
    intro c waits
    cases last with
    | other step => exact (ih c waits).other step
    | @own c' env waits' now fresh =>
      obtain ⟨c'', next, -, sound, -⟩ | ⟨r, ends, -⟩ | ⟨-, -, ends⟩ := (ih c' waits').own checked fresh
      · obtain rfl := SubmitProgress.next.inj (waits.symm.trans next)
        exact sound
      · cases waits.symm.trans ends
      · cases waits.symm.trans ends

/-- The call makes at most five statements. -/
theorem left_of_run (checked : ∀ env, (job.row env).checks = true) (before : Run Djq.Step (Sys.init t) pre sys)
    (run : Run (Step job) (start sys) ls s) : ls.countP Label.isOwn + s.left ≤ 5 := by
  induction run with
  | nil => exact le_refl 5
  | @snoc ls s l s' rest last ih =>
    rw [List.countP_append, List.countP_singleton]
    cases last with
    | other step =>
      show List.countP Label.isOwn ls + 0 + s.left ≤ 5
      omega
    | @own c env waits now fresh =>
      have here : s.left = c.left := by rw [left, waits]
      have positive : 0 < c.left := by cases c <;> decide
      have fewer : (s.commit job c env).left < c.left := by
        unfold left
        obtain ⟨c', next, fewer, -⟩ | ⟨r, ends, -⟩ | ⟨-, -, ends⟩ :=
          (sound_of_run checked before rest c waits).own checked fresh
        · rw [next]
          exact fewer
        · rw [ends]
          exact positive
        · rw [ends]
          exact positive
      simp only [Label.isOwn, if_true]
      omega

/-- Where no purge takes it, the row the call has lost to is there. -/
theorem taken_of_run (checked : ∀ env, (job.row env).checks = true) (before : Run Djq.Step (Sys.init t) pre sys)
    (run : Run (Restrict (Spared job) (Step job)) (start sys) ls s) (waits : s.own = .next .fallback) :
    job.Taken s.sys.db := by
  induction run with
  | nil => cases waits
  | snoc rest last ih =>
    obtain ⟨spared, last⟩ := last
    have sound := sound_of_run checked before rest.unrestrict
    cases last with
    | other step => exact taken_kept (sound _ waits).sys step (ih waits) (spared waits)
    | @own c env waits' now fresh =>
      obtain ⟨c', next, -, -, taken⟩ | ⟨r, ends, -⟩ | ⟨-, -, ends⟩ := (sound c waits').own checked fresh
      · exact taken (SubmitProgress.next.inj (next.symm.trans waits))
      · cases waits.symm.trans ends
      · cases waits.symm.trans ends

/-- **A submission delivers** exactly where the row it has lost the race for its key
to, if it has, is not gone by the time it is fetched: so in every run in which no
purge deletes that row in between. It always comes to its end. -/
theorem submit_delivers_iff (job : NormalizedJob) (checked : ∀ env, (job.row env).checks = true)
    (before : Run Djq.Step (Sys.init t) pre sys) (run : Run (Step job) (start sys) ls s) :
    (ls.countP Label.isOwn ≤ 5 ∧ ∀ c, s.own = .next c → ∃ env s', Step job s (.own c env) s') ∧
    ∀ c env s' r, Step job s (.own c env) s' → s'.own = .done r →
      (job.Delivered env s.sys.db s'.sys.db r ↔ (c = .fallback → job.Taken s.sys.db)) ∧
      (Run (Restrict (Spared job) (Step job)) (start sys) ls s → job.Delivered env s.sys.db s'.sys.db r) := by
  have sound := sound_of_run checked before run
  refine ⟨⟨?_, ?_⟩, ?_⟩
  · have bound := left_of_run checked before run
    omega
  · intro c waits
    obtain ⟨uuid, fresh⟩ := Sys.exists_fresh s.sys.issued
    exact ⟨⟨s.sys.clock, [], uuid⟩, _, .own waits rfl fresh⟩
  · intro c env s' r step ends
    cases step with
    | own waits now fresh =>
      have delivers : job.Delivered env s.sys.db (s.commit job c env).sys.db r ↔
          (c = .fallback → job.Taken s.sys.db) := by
        obtain ⟨c', next, -⟩ | ⟨r', ends', delivered, taken⟩ | ⟨rfl, free, ends'⟩ := (sound c waits).own checked fresh
        · cases ends.symm.trans next
        · obtain rfl := SubmitProgress.done.inj (ends'.symm.trans ends)
          exact iff_of_true delivered taken
        · obtain rfl := SubmitProgress.done.inj (ends'.symm.trans ends)
          refine iff_of_false ?_ fun taken => free (taken rfl)
          intro delivered
          cases delivered
      refine ⟨delivers, fun spared => delivers.2 ?_⟩
      rintro rfl
      exact taken_of_run checked before spared waits

/-! ## Replaying concrete runs -/

inductive Action where
  | other (a : Djq.Action)
  | own (uuid : Uuid)

/-- Do an action, if it is enabled. -/
def act (job : NormalizedJob) (s : Submitting) : Action → Option (Label × Submitting)
  | .other a => (s.sys.act a).map fun (l, sys) => (.other l, { s with sys := sys })
  | .own uuid =>
    match s.own with
    | .done _ => none
    | .next c =>
      if uuid ∈ s.sys.issued then none
      else some (.own c ⟨s.sys.clock, [], uuid⟩, s.commit job c ⟨s.sys.clock, [], uuid⟩)

theorem act_step (job : NormalizedJob) (s : Submitting) (a : Action) (l : Label) (s' : Submitting)
    (done : s.act job a = some (l, s')) : Step job s l s' := by
  cases a with
  | other a =>
    obtain ⟨⟨l, sys⟩, did, eq⟩ := Option.map_eq_some_iff.1 done
    cases eq
    exact .other (Sys.act_step did)
  | own uuid =>
    simp only [act] at done
    split at done
    · cases done
    · rename_i c waits
      obtain ⟨fresh, eq⟩ := Option.ite_none_left_eq_some.1 done
      cases eq
      exact .own waits rfl fresh

/-- The job of both clients. -/
def raced : NormalizedJob := .sample 2 (some "k")

/-- Both clients miss the key; the other one inserts it first. -/
def lostScript : List Action :=
  [.own 1, .own 2, .own 3, .other (.begin (.submit (.sample 2 (some "k") NewJob.sample_keyed))),
    .other (.commit 0 4), .other (.commit 0 5), .other (.commit 0 6), .other (.commit 0 7), .own 8]

/-- The row the call has lost to is still there. -/
theorem submit_delivers_lost :
    let s := outcome (guarded (Spared raced) (act raced)) (start (.init 0)) lostScript
    s.own = .next .fallback ∧ ∀ env s' r, Step raced s (.own .fallback env) s' → s'.own = .done r →
      raced.Delivered env s.sys.db s'.sys.db r := by
  have run := @outcome_run _ _ _ (guarded (Spared raced) (act raced)) _ (guarded_step (act_step raced))
    (start (.init 0)) lostScript (by decide)
  refine ⟨by decide, ?_⟩
  intro env s' r step ends
  exact ((submit_delivers_iff raced (fun _ => rfl) .nil run.unrestrict).2 _ _ _ _ step ends).2 run

/-- The row is cancelled and purged. -/
def purgedScript : List Action :=
  lostScript ++ (Djq.Action.call 1 (.cancelJob 7) ++ .tick 1000000 ::
    Djq.Action.call 2 (.purgeFinished 500000)).map .other

/-- The call fails, though no statement of anyone has failed but its INSERT. -/
theorem submit_fails_purged :
    let s := outcome (act raced) (start (.init 0)) purgedScript
    (∀ env, (raced.row env).checks = true) ∧
    Run (Step raced) (start (.init 0)) (script (act raced) (start (.init 0)) purgedScript) s ∧
    ∃ env s', Step raced s (.own .fallback env) s' ∧ s'.own = .done (.error rowNotFound) ∧
      ¬ raced.Delivered env s.sys.db s'.sys.db (.error rowNotFound) := by
  have run := @outcome_run _ _ _ (act raced) _ (act_step raced) (start (.init 0)) purgedScript (by decide)
  refine ⟨fun _ => rfl, run, ⟨_, [], 9⟩, _, .own (by decide) rfl (by decide), by decide, ?_⟩
  intro delivered
  cases delivered

end Submitting

end Djq
