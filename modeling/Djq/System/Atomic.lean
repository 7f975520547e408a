import Djq.Submission.Race
import Djq.System.Phases

/-!
# Calls that act at one instant

Most calls are several units long, and other clients commit in between. All but a
sweep still act as if they were one: a single unit does to the jobs, their attempts
and the workers what the whole operation would have done then and there, and the
other units do nothing to them.
-/

namespace Djq

open Relational Transition

/-- The same jobs, attempts and workers. -/
structure Db.SameWork (a b : Db) : Prop where
  jobs : a.jobs = b.jobs
  attempts : a.attempts = b.attempts
  attemptSeq : a.attemptSeq = b.attemptSeq
  workers : a.workers = b.workers

theorem Db.SameWork.refl (db : Db) : db.SameWork db := ⟨rfl, rfl, rfl, rfl⟩

/-- The database without its dead letters. -/
def Db.live (db : Db) : Db := { db with deadLetters := [] }

theorem Db.SameWork.of_live {a b : Db} (same : a.live = b.live) : a.SameWork b := by
  obtain ⟨-, jobs, attempts, -, workers, attemptSeq⟩ := Db.mk.inj same
  exact ⟨jobs, attempts, attemptSeq, workers⟩

/-- The units leave the jobs, the attempts and the workers alone. -/
def Idle (us : List Commit) : Prop := ∀ u ∈ us, u.after.SameWork u.db

theorem Idle.nil : Idle [] := fun _ mem => absurd mem List.not_mem_nil

theorem Idle.one {u : Commit} (same : u.after.SameWork u.db) : Idle [u] := by
  intro v mem
  rw [List.mem_singleton.1 mem]
  exact same

theorem Idle.snoc {us : List Commit} {u : Commit} (idle : Idle us) (same : u.after.SameWork u.db) : Idle (us ++ [u]) := by
  intro v mem
  rcases List.mem_append.1 mem with mem | mem
  · exact idle v mem
  · exact Idle.one same v mem

/-- The units act at one of them as the operation by itself would there. -/
def ActsAt (request : Request) (us : List Commit) (ok : Commit → Prop) : Prop :=
  ∃ pre v post, us = pre ++ v :: post ∧ Idle pre ∧ Idle post ∧
    (request.serve v.env v.db).1.SameWork v.after ∧ ok v

theorem ActsAt.first {request : Request} {u : Commit} {vs : List Commit} {ok : Commit → Prop} (rest : Idle vs)
    (same : (request.serve u.env u.db).1.SameWork u.after) (here : ok u) : ActsAt request (u :: vs) ok :=
  ⟨[], u, vs, rfl, .nil, rest, same, here⟩

theorem ActsAt.last {request : Request} {u : Commit} {vs : List Commit} {ok : Commit → Prop} (before : Idle vs)
    (same : (request.serve u.env u.db).1.SameWork u.after) (here : ok u) : ActsAt request (vs ++ [u]) ok :=
  ⟨vs, u, [], rfl, before, .nil, same, here⟩

/-- A call has come to its end, with success. -/
def Progress.succeeds : Progress → Bool
  | .done (.ok _) => true
  | _ => false

theorem Progress.succeeds_iff {p : Progress} : p.succeeds = true ↔ ∃ value, p = .done (.ok value) := by
  constructor
  · intro succeeds
    obtain c | (e | value) := p
    · cases succeeds
    · cases succeeds
    · exact ⟨value, rfl⟩
  · rintro ⟨value, rfl⟩
    rfl

/-- The operation that takes effect with a unit, or is answered by it. -/
def Commit.operation (u : Commit) : Option Request :=
  match u.call with
  | .start (.submit s) => some (.ensureQueue s.job.queue)
  | .start request => some request
  | .readQueue name => some (.ensureQueue name)
  | .submitLookup s | .submitInsert s | .submitFallback s => if u.reply.succeeds then some (.submit s) else none
  | _ => none

/-! ## Which units act -/

/-- The phases that never touch the jobs, the attempts or the workers. -/
def Call.passive : Call → Bool
  | .readQueue _ => true
  | .submitReadQueue _ => true
  | .submitLookup _ => true
  | .submitFallback _ => true
  | .rejected _ _ => true
  | .removeDeadLetter _ => true
  | .rereadFailed _ => true
  | .start (.ensureQueue _) => true
  | .start (.submit _) => true
  | _ => false

/-- The requests that act at their first unit. -/
def Request.prompt : Request → Bool
  | .ensureQueue _ => false
  | .submit _ => false
  | .recoverExpiredLeases _ => false
  | _ => true

/-- What follows the first unit of such a request is passive, and its last unit. -/
theorem Call.passive_of_prompt {request : Request} (prompt : request.prompt = true) {c : Call}
    (follows : (Call.start request).Follows c) : c.passive = true ∧ ∀ c', ¬ c.Follows c' := by
  cases follows with
  | readQueue => cases prompt
  | submitReadQueue => cases prompt
  | recoverDeadLetter => cases prompt
  | _ => exact ⟨rfl, fun c' follows => by cases follows⟩

/-- What follows the first unit leaves all tables but the dead letters, and is no operation of its own. -/
theorem Call.live_of_prompt {request : Request} (prompt : request.prompt = true) {c : Call}
    (follows : (Call.start request).Follows c) (env : Env) (db : Db) :
    (c.step env db).1.live = db.live ∧ Commit.operation ⟨c, env, db⟩ = none := by
  cases follows with
  | readQueue => cases prompt
  | submitReadQueue => cases prompt
  | recoverDeadLetter => cases prompt
  | _ => exact ⟨rfl, rfl⟩

theorem Commit.operation_of_prompt {u : Commit} {request : Request} (prompt : request.prompt = true)
    (first : u.call = .start request) : u.operation = some request := by
  rw [operation, first]
  cases request with
  | submit s => cases prompt
  | _ => rfl

/-- The operation, from what its first unit comes to. -/
theorem Request.serve_of_prompt {request : Request} (prompt : request.prompt = true) (env : Env) (db : Db) :
    (request.serve env db).1.live = ((Call.start request).step env db).1.live ∧
    (∀ r, ((Call.start request).step env db).2 = .done r → (request.serve env db).2 = r) ∧
    ∀ c, ((Call.start request).step env db).2 = .next c →
      (c.step env ((Call.start request).step env db).1).2 = .done (request.serve env db).2 := by
  have alone := request.alone_eq_serve env db
  rcases unit : (Call.start request).step env db with ⟨db', c | r⟩
  · rw [Call.alone_next unit] at alone
    have follows : (Call.start request).Follows c := Call.follows (congrArg Prod.snd unit)
    obtain ⟨-, last⟩ := Call.passive_of_prompt prompt follows
    rcases second : c.step env db' with ⟨db'', c' | r⟩
    · exact absurd (Call.follows (congrArg Prod.snd second)) (last c')
    rw [Call.alone_done second] at alone
    have serve := Option.some.inj alone
    refine ⟨?_, (fun r' same => by cases same), fun c' same => ?_⟩
    · have live := (Call.live_of_prompt prompt follows env db').1
      rw [second] at live
      rw [← serve]
      exact live
    · obtain rfl := Progress.next.inj same
      rw [← serve, second]
  · rw [Call.alone_done unit] at alone
    have serve := Option.some.inj alone
    refine ⟨?_, fun r' same => ?_, (fun c' same => by cases same)⟩
    · rw [← serve]
    · rw [← serve]
      exact Progress.done.inj same

/-! ## Submissions -/

theorem Db.ensureQueue_present {db : Db} {name : String} (present : ∃ q ∈ db.queues, q.name = name) (env : Env) :
    db.ensureQueue env name = db := by
  have there : (lookup Queue.name name db.queues).isSome = true := lookup_isSome_iff.2 present
  rw [ensureQueue, insertIgnore, if_pos there]

/-- Once its queue is there, `submit` is its lookup and its INSERT. -/
theorem PgStore.submit_present {db : Db} {job : NormalizedJob} (present : ∃ q ∈ db.queues, q.name = job.queue) (env : Env) :
    (∀ j, job.idempotencyKey.bind (db.findByKey job.queue) = some j → PgStore.submit job env db = (db, .ok ⟨j, false⟩)) ∧
    (job.idempotencyKey.bind (db.findByKey job.queue) = none → ∀ db' row, db.insertJob env job = (db', .inserted row) →
      PgStore.submit job env db = (db', .ok ⟨row, true⟩)) := by
  obtain ⟨q, there⟩ := Option.isSome_iff_exists.1 (lookup_isSome_iff.2 present)
  have queue : db.queue? job.queue = some q := there
  constructor
  · intro j hit
    simp only [PgStore.submit, PgStore.ensureQueue, Db.ensureQueue_present present, queue, found, hit]
  · intro miss db' row won
    simp only [PgStore.submit, PgStore.ensureQueue, Db.ensureQueue_present present, queue, found, miss, won]

/-- The last unit of a submission that has succeeded. -/
theorem Commit.Sound.submitted {u : Commit} (sound : u.Sound) {s : Submittable} (busy : u.call.submission = some s)
    {value : Value} (ends : u.reply = .done (.ok value)) :
    ((Request.submit s).serve u.env u.db).1 = u.after ∧ ((Request.submit s).serve u.env u.db).2 = .ok value := by
  obtain ⟨c, env, db⟩ := u
  have present := sound.ensured
  simp only [reply] at ends
  simp only [after]
  cases c with
  | submitReadQueue s' =>
    simp only [Call.step] at ends
    split at ends <;> cases ends
  | submitLookup s' =>
    obtain rfl := Option.some.inj busy
    obtain ⟨existing, -⟩ := PgStore.submit_present (present _ rfl) env
    simp only [Call.step] at ends ⊢
    split at ends
    · rename_i j hit
      obtain rfl := Except.ok.inj (Progress.done.inj ends)
      simp only [Request.serve, existing j hit]
      exact ⟨rfl, rfl⟩
    · cases ends
  | submitFallback s' =>
    obtain rfl := Option.some.inj busy
    obtain ⟨existing, -⟩ := PgStore.submit_present (present _ rfl) env
    simp only [Call.step] at ends ⊢
    split at ends
    · rename_i j hit
      obtain rfl := Except.ok.inj (Progress.done.inj ends)
      simp only [Request.serve, existing j hit]
      exact ⟨rfl, rfl⟩
    · cases ends
  | submitInsert s' =>
    obtain rfl := Option.some.inj busy
    obtain ⟨-, inserted⟩ := PgStore.submit_present (present _ rfl) env
    obtain ⟨lost, taken⟩ | ⟨won, -⟩ := s'.job.insert_cases (s'.sound.checks env) sound.unused (present _ rfl)
    · simp only [Call.step, lost, taken.keyed, if_true] at ends
      cases ends
    · have miss : s'.job.idempotencyKey.bind (db.findByKey s'.job.queue) = none := by
        obtain ⟨j, mem, -, key⟩ | ⟨miss, -⟩ := s'.job.lookup_cases db
        · obtain ⟨lost, -⟩ | ⟨lost, -⟩ | ⟨-, free, -⟩ := db.insertJob_spec env s'.job
          · cases (congrArg Prod.snd won).symm.trans (congrArg Prod.snd lost)
          · cases (congrArg Prod.snd won).symm.trans (congrArg Prod.snd lost)
          · exact absurd ((free j mem).2.symm.trans key) Bool.false_ne_true
        · exact miss
      simp only [Call.step, won] at ends ⊢
      obtain rfl := Except.ok.inj (Progress.done.inj ends)
      simp only [Request.serve, inserted miss _ _ won]
      exact ⟨rfl, rfl⟩
  | start request =>
    cases request with
    | submit s' => cases ends
    | _ => cases busy
  | _ => cases busy

theorem Call.submission_next {c c' : Call} {env : Env} {db : Db} {s : Submittable} (busy : c.submission = some s)
    (next : (c.step env db).2 = .next c') : c'.submission = some s := by
  cases c with
  | start request =>
    cases request with
    | submit s' =>
      obtain rfl := Progress.next.inj next
      exact busy
    | _ => cases busy
  | _ =>
    have follows := Call.follows next
    cases follows <;> exact busy

/-- Once its queue is there, a unit of a submission stands for it if it ends it with success. -/
theorem Commit.operation_of_submission {u : Commit} {s : Submittable} (busy : u.call.submission = some s)
    (started : ∀ request, u.call ≠ .start request) :
    u.operation = if u.reply.succeeds then some (.submit s) else none := by
  obtain ⟨c, env, db⟩ := u
  cases c with
  | start request => exact absurd rfl (started request)
  | submitReadQueue s' =>
    have fails : ((Call.submitReadQueue s').step env db).2.succeeds = false := by
      simp only [Call.step]
      split <;> rfl
    rw [reply, fails]
    rfl
  | submitLookup s' =>
    obtain rfl := Option.some.inj busy
    rfl
  | submitInsert s' =>
    obtain rfl := Option.some.inj busy
    rfl
  | submitFallback s' =>
    obtain rfl := Option.some.inj busy
    rfl
  | _ => cases busy

end Djq
