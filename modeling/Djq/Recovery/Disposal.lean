import Djq.System.Serial
import Mathlib.Algebra.Order.Floor.Div

/-!
# What a sweep disposes of

The three statements of `recover_expired_leases` divide the expired leases by
what becomes of the job, each with the same limit. A sweep takes up to `limit`
jobs of each kind, so every sweep makes each kind shorter by the limit or clears
it, and as many sweeps as the limit fits into the expired jobs clear all three.
-/

namespace Djq

open Relational Transition

/-- What becomes of a job whose lease has expired. -/
inductive Verdict where
  | retrying
  | deadLettered
  | failed
  deriving DecidableEq

namespace Job

/-- `status = 'processing' AND lease_expires_at < now`. -/
def leaseExpired (now : Int) (j : Job) : Bool :=
  decide (j.status = .processing ∧ ∃ e ∈ j.leaseExpiresAt, e < now)

def verdict (j : Job) : Verdict :=
  if j.attempts < j.maxAttempts then .retrying else if j.deadLetter then .deadLettered else .failed

/-- The row a sweep that takes the job leaves. -/
def disposed (now : Int) (j : Job) : Job :=
  match j.verdict with
  | .retrying => j.setExpiredRetrying now
  | .deadLettered => j.setExpiredDeadLettered now
  | .failed => j.setExpiredFailed now

variable {j : Job}

theorem verdict_retrying_iff : j.verdict = .retrying ↔ j.attempts < j.maxAttempts := by
  unfold verdict
  split
  · simp only [*]
  · split <;> simp only [*, reduceCtorEq]

theorem verdict_of_exhausted {v : Verdict} (ends : v ≠ .retrying) :
    j.verdict = v ↔ j.maxAttempts ≤ j.attempts ∧ (if j.deadLetter then Verdict.deadLettered else .failed) = v := by
  unfold verdict
  split
  · rename_i left
    refine iff_of_false (Ne.symm ends) ?_
    intro exhausted
    omega
  · rename_i exhausted
    exact (and_iff_right (by omega)).symm

theorem verdict_deadLettered_iff : j.verdict = .deadLettered ↔ j.maxAttempts ≤ j.attempts ∧ j.deadLetter = true := by
  rw [verdict_of_exhausted (by decide)]
  cases j.deadLetter <;> simp

theorem verdict_failed_iff : j.verdict = .failed ↔ j.maxAttempts ≤ j.attempts ∧ j.deadLetter = false := by
  rw [verdict_of_exhausted (by decide)]
  cases j.deadLetter <;> simp

end Job

/-- The jobs `ids` were taken from their expired leases, and nothing else was changed. -/
structure Disposes (now : Int) (db db' : Db) (ids : List Uuid) : Prop where
  once : ids.Nodup
  taken : ∀ id ∈ ids, ∃ j, db.job? id = some j ∧ j.leaseExpired now = true ∧ db'.job? id = some (j.disposed now) ∧
    db'.history id = closeRunning (JobAttempt.setExpired now) (db.history id) ∧
    db'.entries id =
      if j.verdict = .deadLettered then
        insertIgnore DeadLetterJob.id (db.entries id) (j.deadLetterRow now j.expiryError)
      else db.entries id
  left : ∀ id, id ∉ ids → db'.dossier id = db.dossier id
  queues : db'.queues = db.queues
  workers : db'.workers = db.workers

/-! ## One sweep -/

theorem OpStep.of_sweep {env : Env} {db : Db} {id : Uuid} {limit : Int} {ids : List Uuid} {d d' : Dossier}
    (op : OpStep env db id (.recoverExpiredLeases limit) (.ok (.ids ids)) d d') :
    (id ∈ ids ∧ ∃ j, d.row = some j ∧ j.leaseExpired env.now = true ∧ d'.row = some (j.disposed env.now) ∧
      d'.history = closeRunning (JobAttempt.setExpired env.now) d.history ∧
      d'.entries =
        if j.verdict = .deadLettered then
          insertIgnore DeadLetterJob.id d.entries (j.deadLetterRow env.now j.expiryError)
        else d.entries) ∨
    (id ∉ ids ∧ d' = d) := by
  have lapsed : ∀ j, Db.expired env j = true → j.leaseExpired env.now = true := by
    intro j expired
    obtain ⟨processing, late, -⟩ := of_decide_eq_true expired
    exact decide_eq_true ⟨processing, late⟩
  cases op with
  | same quiet => exact .inr ⟨quiet, rfl⟩
  | @expiredRetrying _ _ j h f taken expired left =>
    have verdict := Job.verdict_retrying_iff.2 left
    refine .inl ⟨taken, j, rfl, lapsed j expired, ?_, rfl, ?_⟩
    · rw [Job.disposed, verdict]
    · rw [verdict, if_neg (by simp)]
  | @expiredDeadLettered _ _ j h f taken expired exhausted deadLetter =>
    have verdict := Job.verdict_deadLettered_iff.2 ⟨exhausted, deadLetter⟩
    refine .inl ⟨taken, j, rfl, lapsed j expired, ?_, rfl, ?_⟩
    · rw [Job.disposed, verdict]
    · rw [if_pos verdict]
  | @expiredFailed _ _ j h f taken expired exhausted deadLetter =>
    have verdict := Job.verdict_failed_iff.2 ⟨exhausted, deadLetter⟩
    refine .inl ⟨taken, j, rfl, lapsed j expired, ?_, rfl, ?_⟩
    · rw [Job.disposed, verdict]
    · rw [verdict, if_neg (by simp)]

/-- A job whose lease has expired and that will come to `o`. -/
def Job.due (now : Int) (o : Verdict) (j : Job) : Bool := j.leaseExpired now && decide (j.verdict = o)

def Db.dueIds (now : Int) (o : Verdict) (db : Db) : List Uuid := (db.jobs.filter (Job.due now o)).map Job.id

namespace Db

variable {db : Db} {env : Env}

/-- A row that the reaper may take and that will come to `o`. -/
def takable (env : Env) (o : Verdict) (j : Job) : Bool := expired env j && decide (j.verdict = o)

def takableIds (env : Env) (o : Verdict) (db : Db) : List Uuid := (db.jobs.filter (takable env o)).map Job.id

theorem retryable_eq_takable : retryable env = takable env .retrying := by
  funext j
  simp only [retryable, takable, Job.verdict_retrying_iff]

theorem exhaustedDeadLetter_eq_takable : exhaustedDeadLetter env = takable env .deadLettered := by
  funext j
  simp only [exhaustedDeadLetter, takable, Job.verdict_deadLettered_iff]

theorem exhaustedFailed_eq_takable : exhaustedFailed env = takable env .failed := by
  funext j
  simp only [exhaustedFailed, takable, Job.verdict_failed_iff]

/-- Where nobody else has rows locked, the reaper may take what is due. -/
theorem takableIds_unlocked (unlocked : env.locked = []) (o : Verdict) : takableIds env o = dueIds env.now o := by
  have same : takable env o = Job.due env.now o := by
    funext j
    simp only [takable, Job.due, expired, Job.leaseExpired, unlocked, List.not_mem_nil, not_false_eq_true, and_true]
  funext db
  rw [takableIds, same, dueIds]

theorem batch_nodup (keyed : Keyed Job.id db.jobs) (which : Job → Bool) (limit : Int) :
    ((db.expiredBatch which limit).map Job.id).Nodup := by
  have kept : ((db.jobs.filter which).map Job.id).Nodup := (List.filter_sublist.map Job.id).nodup keyed
  exact top_sublist_keyed kept

theorem expiredBatch_length (o : Verdict) (limit : Int) :
    ((db.expiredBatch (takable env o) limit).map Job.id).length = min limit.toNat (db.takableIds env o).length := by
  rw [List.length_map, expiredBatch, top_length, takableIds, List.length_map]

/-- A statement that takes up to `limit` of the jobs that come to `o` leaves the others there are to take. -/
theorem takable_release (keyed : Keyed Job.id db.jobs) (set : Job → Job) (keeps : ∀ j, (set j).id = j.id)
    (released : ∀ j, (set j).status ≠ .processing) (env : Env) (o : Verdict) (limit : Int) {db' : Db}
    (jobs : db'.jobs = (db.releaseBatch set (db.expiredBatch (takable env o) limit)).jobs) :
    (db.takableIds env o).Perm ((db.expiredBatch (takable env o) limit).map Job.id ++ db'.takableIds env o) ∧
    ∀ o', o' ≠ o → db'.takableIds env o' = db.takableIds env o' := by
  have lost : ∀ o' j, takable env o' (set j) = false := by
    intro o' j
    have spent : expired env (set j) = false := decide_eq_false fun all => released j all.1
    rw [takable, spent, Bool.false_and]
  unfold takableIds
  rw [jobs]
  constructor
  · exact keyed.filter_update_batch keeps (fun j mem => mem_expiredBatch mem) (batch_nodup keyed _ limit)
      fun j _ => lost o j
  · intro o' other
    apply filter_update_same keeps
    intro j mem taken
    have listed : j.id ∈ (db.expiredBatch (takable env o) limit).map Job.id := of_decide_eq_true taken
    obtain ⟨b, bMem, same⟩ := List.mem_map.1 listed
    obtain ⟨bJob, due⟩ := mem_expiredBatch bMem
    obtain rfl := keyed.unique bJob mem same
    have verdict : b.verdict = o := of_decide_eq_true (Bool.and_eq_true_iff.1 due).2
    rw [lost, takable, verdict, decide_eq_false (Ne.symm other), Bool.and_false]

end Db

/-- The statements of a sweep, one after the other. -/
theorem sweep_stages (env : Env) (db : Db) {limit : Int} (nonneg : 0 ≤ limit) :
    ∃ db₁ retryIds db₂ dlqIds db₃ failedIds, db.recoverRetryable env limit = (db₁, retryIds) ∧
      db₁.recoverDeadLetter env limit = (db₂, dlqIds) ∧ db₂.recoverFailed env limit = (db₃, failedIds) ∧
      ((Request.recoverExpiredLeases limit).serve env db).2 = .ok (.ids (retryIds ++ dlqIds ++ failedIds)) ∧
      ((Request.recoverExpiredLeases limit).serve env db).1.jobs = db₃.jobs ∧
      ((Request.recoverExpiredLeases limit).serve env db).1.queues = db.queues ∧
      ((Request.recoverExpiredLeases limit).serve env db).1.workers = db.workers := by
  refine ⟨_, _, _, _, _, _, rfl, rfl, rfl, ?_⟩
  have notNegative : ¬ limit < 0 := by omega
  simp only [Request.serve, PgStore.recoverExpiredLeases, if_neg notNegative]
  refine ⟨rfl, ?_, ?_, ?_⟩
  all_goals
    simp only [Prod.map_fst, id_eq]
    split <;> rfl

section Sweep

variable {env : Env} {db : Db} {limit : Int}

variable (env) in
/-- What a sweep takes of each kind. -/
theorem sweep_takable (keyed : Keyed Job.id db.jobs) (nonneg : 0 ≤ limit) :
    ∃ taken : Verdict → List Uuid,
      ((Request.recoverExpiredLeases limit).serve env db).2 =
        .ok (.ids (taken .retrying ++ taken .deadLettered ++ taken .failed)) ∧
      ∀ o, (taken o).length = min limit.toNat (db.takableIds env o).length ∧
        (db.takableIds env o).Perm
          (taken o ++ ((Request.recoverExpiredLeases limit).serve env db).1.takableIds env o) := by
  obtain ⟨db₁, retryIds, db₂, dlqIds, db₃, failedIds, first, second, third, reply, jobs, -⟩ := sweep_stages env db nonneg
  obtain ⟨keyed₁, keyed₂⟩ := Db.sweep_keyed keyed first second
  have stage₁ : db₁ = (db.recoverRetryable env limit).1 ∧ retryIds = (db.recoverRetryable env limit).2 := by simp [first]
  have stage₂ : db₂ = (db₁.recoverDeadLetter env limit).1 ∧ dlqIds = (db₁.recoverDeadLetter env limit).2 := by
    simp [second]
  have stage₃ : db₃ = (db₂.recoverFailed env limit).1 ∧ failedIds = (db₂.recoverFailed env limit).2 := by simp [third]
  clear first second third
  simp only [Db.recoverRetryable, Db.retryable_eq_takable] at stage₁
  simp only [Db.recoverDeadLetter, Db.exhaustedDeadLetter_eq_takable] at stage₂
  simp only [Db.recoverFailed, Db.exhaustedFailed_eq_takable] at stage₃
  have jobs₁ := congrArg Db.jobs stage₁.1
  have jobs₂ := congrArg Db.jobs stage₂.1
  have jobs₃ := congrArg Db.jobs stage₃.1
  obtain ⟨perm₁, same₁⟩ := Db.takable_release keyed (Job.setExpiredRetrying env.now) (fun _ => rfl)
    (by simp) env .retrying limit jobs₁
  obtain ⟨perm₂, same₂⟩ := Db.takable_release keyed₁ (Job.setExpiredDeadLettered env.now) (fun _ => rfl)
    (by simp) env .deadLettered limit jobs₂
  obtain ⟨perm₃, same₃⟩ := Db.takable_release keyed₂ (Job.setExpiredFailed env.now) (fun _ => rfl)
    (by simp) env .failed limit jobs₃
  have length₁ := congrArg List.length stage₁.2
  have length₂ := congrArg List.length stage₂.2
  have length₃ := congrArg List.length stage₃.2
  rw [Db.expiredBatch_length] at length₁ length₂ length₃
  rw [← stage₁.2] at perm₁
  rw [← stage₂.2] at perm₂
  rw [← stage₃.2] at perm₃
  have ends : ∀ o, ((Request.recoverExpiredLeases limit).serve env db).1.takableIds env o = db₃.takableIds env o := by
    intro o
    rw [Db.takableIds, jobs]
    rfl
  refine ⟨fun | .retrying => retryIds | .deadLettered => dlqIds | .failed => failedIds, reply, ?_⟩
  intro o
  rw [ends]
  cases o with
  | retrying =>
    rw [same₃ .retrying (by simp), same₂ .retrying (by simp)]
    exact ⟨length₁, perm₁⟩
  | deadLettered =>
    rw [same₃ .deadLettered (by simp), ← same₁ .deadLettered (by simp)]
    exact ⟨length₂, perm₂⟩
  | failed =>
    rw [← same₁ .failed (by simp), ← same₂ .failed (by simp)]
    exact ⟨length₃, perm₃⟩

/-- What it takes as long as nobody else has rows locked. -/
theorem sweep_due (keyed : Keyed Job.id db.jobs) (unlocked : env.locked = []) (nonneg : 0 ≤ limit) :
    ∃ taken : Verdict → List Uuid,
      ((Request.recoverExpiredLeases limit).serve env db).2 =
        .ok (.ids (taken .retrying ++ taken .deadLettered ++ taken .failed)) ∧
      ∀ o, (db.dueIds env.now o).Perm
          (taken o ++ ((Request.recoverExpiredLeases limit).serve env db).1.dueIds env.now o) ∧
        (((Request.recoverExpiredLeases limit).serve env db).1.dueIds env.now o).length =
          (db.dueIds env.now o).length - limit.toNat := by
  obtain ⟨taken, reply, kinds⟩ := sweep_takable env keyed nonneg
  refine ⟨taken, reply, ?_⟩
  intro o
  obtain ⟨length, perm⟩ := kinds o
  rw [Db.takableIds_unlocked unlocked] at length perm
  have total := perm.length_eq
  rw [List.length_append] at total
  exact ⟨perm, by omega⟩

variable (env) in
/-- **One sweep**, in the presence of whatever locks. -/
theorem sweep_disposes_of (keyed : Keyed Job.id db.jobs) (nonneg : 0 ≤ limit) :
    ∃ ids, ((Request.recoverExpiredLeases limit).serve env db).2 = .ok (.ids ids) ∧
      Disposes env.now db ((Request.recoverExpiredLeases limit).serve env db).1 ids := by
  obtain ⟨db₁, retryIds, db₂, dlqIds, db₃, failedIds, first, second, third, reply, -, queues, workers⟩ :=
    sweep_stages env db nonneg
  refine ⟨_, reply, ?_, ?_, ?_, queues, workers⟩
  · obtain ⟨keyed₁, keyed₂⟩ := Db.sweep_keyed keyed first second
    have retry : (db.recoverRetryable env limit).2.Nodup := Db.batch_nodup keyed _ limit
    have dead : (db₁.recoverDeadLetter env limit).2.Nodup := Db.batch_nodup keyed₁ _ limit
    have fail : (db₂.recoverFailed env limit).2.Nodup := Db.batch_nodup keyed₂ _ limit
    rw [first] at retry
    rw [second] at dead
    rw [third] at fail
    have apart := fun id => (Db.sweep_taken keyed first second third id).apart
    rw [List.nodup_append, List.nodup_append]
    refine ⟨⟨retry, dead, ?_⟩, fail, ?_⟩
    · rintro id taken _ again rfl
      exact ((apart id).1 taken).1 again
    · rintro id taken _ again rfl
      rcases List.mem_append.1 taken with taken | taken
      · exact ((apart id).1 taken).2 again
      · exact (apart id).2 taken again
  · intro id mem
    have op := @op_step_recover db env id keyed limit
    rw [reply] at op
    obtain ⟨-, j, row⟩ | ⟨out, -⟩ := op.of_sweep
    · exact ⟨j, row⟩
    · exact absurd mem out
  · intro id out
    have op := @op_step_recover db env id keyed limit
    rw [reply] at op
    obtain ⟨mem, -⟩ | ⟨-, same⟩ := op.of_sweep
    · exact absurd mem out
    · exact same

end Sweep

/-! ## Sweep after sweep -/

/-- Nothing happens but sweeps with this limit, at a fixed time and with no row locked by anyone else. -/
def SweepsOnly (limit : Int) (_ : Serial) : Serial.Label → Prop
  | .tick _ => False
  | .reorder => True
  | .serve o => o.request = .recoverExpiredLeases limit ∧ o.env.locked = []

def Serial.Label.isServe : Serial.Label → Bool
  | .serve _ => true
  | _ => false

/-- The ids an operation returns. -/
def Serial.Label.returned : Serial.Label → List Uuid
  | .serve o => match o.reply with
    | .ok (.ids ids) => ids
    | _ => []
  | _ => []

/-- The expired leases, by what becomes of the job. -/
theorem due_split (now : Int) (jobs : List Job) :
    ((jobs.filter (Job.leaseExpired now)).map Job.id).Perm
      ((jobs.filter (Job.due now .retrying)).map Job.id ++ (jobs.filter (Job.due now .deadLettered)).map Job.id ++
        (jobs.filter (Job.due now .failed)).map Job.id) := by
  induction jobs with
  | nil => exact .refl _
  | cons j jobs ih =>
    by_cases expired : j.leaseExpired now = true
    · have due : ∀ o, Job.due now o j = decide (j.verdict = o) := by
        intro o
        rw [Job.due, expired, Bool.true_and]
      simp only [List.filter_cons, expired, due, ↓reduceIte, List.map_cons]
      cases j.verdict with
      | retrying => exact ih.cons j.id
      | deadLettered =>
        simp only [reduceCtorEq, decide_false, decide_true, Bool.false_eq_true, ↓reduceIte, List.map_cons,
          List.append_assoc, List.cons_append] at ih ⊢
        exact (ih.cons j.id).trans List.perm_middle.symm
      | failed =>
        simp only [reduceCtorEq, decide_false, decide_true, Bool.false_eq_true, ↓reduceIte, List.map_cons] at ih ⊢
        exact (ih.cons j.id).trans List.perm_middle.symm
    · have due : ∀ o, Job.due now o j = false := by
        intro o
        rw [Job.due, Bool.eq_false_iff.2 expired, Bool.false_and]
      simp only [List.filter_cons, expired, due, Bool.false_eq_true, ↓reduceIte]
      exact ih

/-- Where `ls`, a run of sweeps from `s` at its time, has come to. -/
structure Swept (limit : Int) (s : Serial) (ls : List Serial.Label) (s' : Serial) : Prop where
  clock : s'.clock = s.clock
  keyed : Keyed Job.id s'.db.jobs
  kinds : ∃ taken : Verdict → List Uuid,
    (ls.flatMap Serial.Label.returned).Perm (taken .retrying ++ taken .deadLettered ++ taken .failed) ∧
    ∀ o, (s.db.dueIds s.clock o).Perm (taken o ++ s'.db.dueIds s.clock o) ∧
      (s'.db.dueIds s.clock o).length ≤ (s.db.dueIds s.clock o).length - limit.toNat * ls.countP Serial.Label.isServe

theorem Swept.step {limit : Int} (nonneg : 0 ≤ limit) {s s' s'' : Serial} {ls : List Serial.Label} {l : Serial.Label}
    (swept : Swept limit s ls s') (only : SweepsOnly limit s' l) (step : Serial.Step s' l s'') :
    Swept limit s (ls ++ [l]) s'' := by
  obtain ⟨taken, returned, kinds⟩ := swept.kinds
  cases step with
  | tick => exact only.elim
  | @reorder jobs same =>
    refine ⟨swept.clock, swept.keyed.perm same, taken, by simpa [Serial.Label.returned] using returned, ?_⟩
    intro o
    have due : (Db.dueIds s.clock o { s'.db with jobs := jobs }).Perm (s'.db.dueIds s.clock o) :=
      (same.filter _).map Job.id
    obtain ⟨perm, less⟩ := kinds o
    refine ⟨perm.trans (due.symm.append_left _), ?_⟩
    rw [List.countP_append, due.length_eq]
    simpa [Serial.Label.isServe] using less
  | @serve o on now fresh =>
    obtain ⟨request, env, db⟩ := o
    obtain ⟨rfl, unlocked⟩ := only
    obtain rfl : db = s'.db := on
    have time : env.now = s.clock := now.trans swept.clock
    obtain ⟨again, reply, more⟩ := sweep_due swept.keyed unlocked nonneg
    rw [time] at more
    have keyed : Keyed Job.id ((Request.recoverExpiredLeases limit).serve env s'.db).1.jobs :=
      Request.serve_keeps (P := fun db => Keyed Job.id db.jobs) (fun db c keyed => (c.jobs_step env db).keyed keyed) _
        swept.keyed
    have here : Serial.Label.returned (.serve ⟨.recoverExpiredLeases limit, env, s'.db⟩) =
        again .retrying ++ again .deadLettered ++ again .failed := by
      simp only [Serial.Label.returned, Served.reply, reply]
    refine ⟨swept.clock, keyed, fun o => taken o ++ again o, ?_, ?_⟩
    · rw [List.flatMap_append, List.flatMap_singleton, here]
      refine (returned.append_right _).trans ?_
      rw [List.perm_iff_count]
      intro id
      simp only [List.count_append]
      omega
    · intro o
      obtain ⟨perm, less⟩ := kinds o
      obtain ⟨perm', less'⟩ := more o
      constructor
      · rw [List.append_assoc]
        exact perm.trans (perm'.append_left _)
      · show (((Request.recoverExpiredLeases limit).serve env s'.db).1.dueIds s.clock o).length ≤ _
        rw [less', List.countP_append, List.countP_singleton, Nat.mul_add]
        simp only [Serial.Label.isServe, ↓reduceIte, Nat.mul_one]
        omega

theorem Swept.of_run {limit : Int} (nonneg : 0 ≤ limit) {s s' : Serial} {ls : List Serial.Label}
    (keyed : Keyed Job.id s.db.jobs) (run : Run (Restrict (SweepsOnly limit) Serial.Step) s ls s') :
    Swept limit s ls s' := by
  induction run with
  | nil =>
    refine ⟨rfl, keyed, fun _ => [], .refl _, ?_⟩
    intro o
    exact ⟨.refl _, Nat.le_refl _⟩
  | snoc before last ih => exact ih.step nonneg last.1 last.2

/-- Enough sweeps leave nothing due, and what they returned is what was due. -/
theorem Swept.cleared {limit : Int} {s s' : Serial} {ls : List Serial.Label} (swept : Swept limit s ls s')
    (enough : (s.db.jobs.filter (Job.leaseExpired s.clock)).length ≤ limit.toNat * ls.countP Serial.Label.isServe) :
    (∀ j ∈ s'.db.jobs, j.leaseExpired s'.clock = false) ∧
    (ls.flatMap Serial.Label.returned).Perm ((s.db.jobs.filter (Job.leaseExpired s.clock)).map Job.id) := by
  obtain ⟨taken, returned, kinds⟩ := swept.kinds
  have split := due_split s.clock s.db.jobs
  have total := split.length_eq
  simp only [List.length_append, List.length_map] at total
  have none : ∀ o, s'.db.dueIds s.clock o = [] := by
    intro o
    obtain ⟨-, less⟩ := kinds o
    have part : (s.db.dueIds s.clock o).length ≤ (s.db.jobs.filter (Job.leaseExpired s.clock)).length := by
      rw [Db.dueIds, List.length_map]
      cases o <;> omega
    apply List.eq_nil_of_length_eq_zero
    omega
  have all : ∀ o, (s.db.dueIds s.clock o).Perm (taken o) := by
    intro o
    have perm := (kinds o).1
    rwa [none, List.append_nil] at perm
  constructor
  · intro j mem
    rw [swept.clock, Bool.eq_false_iff]
    intro expired
    have due : j.id ∈ s'.db.dueIds s.clock j.verdict := by
      refine List.mem_map_of_mem (List.mem_filter.2 ⟨mem, ?_⟩)
      rw [Job.due, expired, decide_eq_true rfl, Bool.true_and]
    rw [none] at due
    exact List.not_mem_nil due
  · refine returned.trans (.trans ?_ split.symm)
    exact (((all .retrying).append (all .deadLettered)).append (all .failed)).symm

/-- **A sweep disposes of expired leases exactly.** It takes jobs that are
processing with a lease that has expired, once each, changes nothing else, and
returns their ids; and `⌈n / limit⌉` sweeps in a row, for `n` expired leases,
leave none and have together returned each of the `n` ids once. -/
theorem sweep_disposes (s : Serial) (keyed : Keyed Job.id s.db.jobs) {limit : Int} (pos : 1 ≤ limit) :
    (∀ o s', Serial.Step s (.serve o) s' → o.request = .recoverExpiredLeases limit →
      ∃ ids, o.reply = .ok (.ids ids) ∧ Disposes s.clock s.db s'.db ids) ∧
    (∀ ls s', Run (Restrict (SweepsOnly limit) Serial.Step) s ls s' →
      (s.db.jobs.filter (Job.leaseExpired s.clock)).length ⌈/⌉ limit.toNat ≤ ls.countP Serial.Label.isServe →
      (∀ j ∈ s'.db.jobs, j.leaseExpired s'.clock = false) ∧
      (ls.flatMap Serial.Label.returned).Perm ((s.db.jobs.filter (Job.leaseExpired s.clock)).map Job.id)) := by
  have nonneg : 0 ≤ limit := by omega
  constructor
  · intro o s' step recover
    cases step with
    | serve on now fresh =>
      obtain ⟨request, env, db⟩ := o
      obtain rfl : request = .recoverExpiredLeases limit := recover
      obtain rfl : db = s.db := on
      have time : env.now = s.clock := now
      rw [← time]
      exact sweep_disposes_of _ keyed nonneg
  · intro ls s' run enough
    have some : 0 < limit.toNat := by omega
    rw [ceilDiv_le_iff_le_smul some, smul_eq_mul] at enough
    exact (Swept.of_run nonneg keyed run).cleared enough

/-- Run a sweep, drawing the given UUID. -/
def sweepAct (limit : Int) (s : Serial) (uuid : Uuid) : Option (Serial.Label × Serial) :=
  s.act (.serve (.recoverExpiredLeases limit) uuid)

theorem sweepAct_step (limit : Int) (s : Serial) (uuid : Uuid) (l : Serial.Label) (s' : Serial)
    (done : sweepAct limit s uuid = some (l, s')) : Restrict (SweepsOnly limit) Serial.Step s l s' := by
  refine ⟨?_, Serial.act_step s _ l s' done⟩
  simp only [sweepAct, Serial.act, Option.ite_none_left_eq_some, Option.some.injEq, Prod.mk.injEq] at done
  obtain ⟨-, rfl, -⟩ := done
  exact ⟨rfl, rfl⟩

/-- Three jobs, leased a minute ago for ten seconds; the first two have no attempts left. -/
def lapsedScript : List Serial.Action :=
  Serial.requests [.submit (.sample 1 none NewJob.sample_once), .submit (.sample 1 none NewJob.sample_once),
    .submit (.sample 2 none NewJob.sample_twice),
    .leaseNext 1 ["emails"] 10, .leaseNext 1 ["emails"] 10, .leaseNext 1 ["emails"] 10] ++ [.tick 60000000]

theorem sweep_disposes_three :
    let s := outcome Serial.act (.init 0) lapsedScript
    let s' := outcome (sweepAct 1) s [20, 21, 22]
    (∀ j ∈ s'.db.jobs, j.leaseExpired s'.clock = false) ∧
    ((script (sweepAct 1) s [20, 21, 22]).flatMap Serial.Label.returned).Perm
      ((s.db.jobs.filter (Job.leaseExpired s.clock)).map Job.id) := by
  have run := @outcome_run _ _ _ Serial.act Serial.Step Serial.act_step (.init 0) lapsedScript (by decide)
  exact (sweep_disposes _ (Serial.sound_of_run run).keyed (by decide)).2 _ _
    (outcome_run (sweepAct_step 1) (by decide)) (by decide)

end Djq
