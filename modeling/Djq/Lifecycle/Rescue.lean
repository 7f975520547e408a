import Djq.System.RowInvariants
import Djq.Transition.Attain

/-!
# No job is lost

Whatever the other clients have left behind, a job that is neither completed nor
cancelled can be brought to completion: by an operator's retry if it has failed,
by the reaper once its lease has run out, and by a worker that leases and
completes what its queue has to offer. None of this relies on the order in which
the database returns rows that its ORDER BY ties.
-/

namespace Djq

open Relational Transition

/-- Who brings the job `id` to completion: with calls numbered from `first` on,
a worker of their own and a limit on the reaper's batches. -/
structure Rescuer where
  first : Nat
  id : Uuid
  queue : String
  worker : Uuid
  limit : Int

namespace Rescuer

/-- The requests of a rescue. -/
def calls (r : Rescuer) : Request → Prop
  | .setQueuePaused name paused => name = r.queue ∧ paused = false
  | .recoverExpiredLeases limit => limit = r.limit
  | .retryJob id => id = r.id
  | .leaseNext worker _ _ => worker = r.worker
  | .completeJob _ worker _ => worker = r.worker
  | _ => False

/-- The steps of a rescue: time passes, and only the rescuer's own calls go on. -/
def labels (r : Rescuer) : Label → Prop
  | .tick _ => True
  | .reorder => True
  | .begin _ request => r.calls request
  | .commit i _ => r.first ≤ i
  | .stop _ _ => False

end Rescuer

/-- What a rescuer decides on. -/
inductive Aid where
  | wait (now : Int)
  | begin (request : Request)
  | commit (i : Nat)

def Rescuer.may (r : Rescuer) : Aid → Prop
  | .wait _ => True
  | .begin request => r.calls request
  | .commit i => r.first ≤ i

namespace Sys

/-- A unit that finds no row locked by anyone else. -/
def unit (s : Sys) (c : Call) (uuid : Uuid) : Commit := ⟨c, ⟨s.clock, [], uuid⟩, s.db⟩

/-- The outcomes of a decision: before a unit commits, the rows may come to lie in any order. -/
inductive Aided : Sys → Aid → Sys → Prop where
  | wait {s : Sys} {now : Int} (later : s.clock ≤ now) : Aided s (.wait now) { s with clock := now }
  | begin {s : Sys} {request : Request} : Aided s (.begin request) (s.begin request)
  | commit {s s₁ : Sys} {i : Nat} {c : Call} {uuid : Uuid} (shuffle : Step s .reorder s₁)
      (inFlight : s₁.calls i = some c) (fresh : uuid ∉ s₁.issued) :
      Aided s (.commit i) (s₁.commit i (s₁.unit c uuid))

/-- A decision is carried out by steps of the system. -/
theorem Aided.run {r : Rescuer} {s s' : Sys} {a : Aid} (aided : Aided s a s') (may : r.may a) :
    ∃ ls, Run Step s ls s' ∧ ∀ l ∈ ls, r.labels l := by
  cases aided with
  | @wait now later =>
    refine ⟨[.tick now], .one (.tick later), fun l mem => ?_⟩
    obtain rfl := List.mem_singleton.1 mem
    trivial
  | @begin request =>
    refine ⟨[.begin s.nextCall request], .one (.begin request), fun l mem => ?_⟩
    obtain rfl := List.mem_singleton.1 mem
    exact may
  | @commit s₁ i c uuid shuffle inFlight fresh =>
    refine ⟨[.reorder, .commit i (s₁.unit c uuid)], .cons shuffle (.one (.commit inFlight rfl rfl fresh)), ?_⟩
    intro l mem
    rcases List.mem_cons.1 mem with rfl | mem
    · trivial
    · obtain rfl := List.mem_singleton.1 mem
      exact may

theorem run_of_aided {r : Rescuer} {s s' : Sys} {acts : List Aid} (aided : Run Aided s acts s')
    (may : ∀ a ∈ acts, r.may a) : ∃ ls, Run Step s ls s' ∧ ∀ l ∈ ls, r.labels l := by
  induction aided with
  | nil => exact ⟨[], .nil, by simp⟩
  | snoc before last ih =>
    obtain ⟨ls, run, ok⟩ := ih fun a mem => may a (List.mem_append_left _ mem)
    obtain ⟨ls', run', ok'⟩ := last.run (may _ (by simp))
    refine ⟨ls ++ ls', run.append run', fun l mem => ?_⟩
    rcases List.mem_append.1 mem with mem | mem
    · exact ok l mem
    · exact ok' l mem

end Sys

namespace Rescuer

variable {r : Rescuer} {s s₁ : Sys} {P Q : Job → Prop} {goal : Sys → Prop}

/-- The rescuer can bring the goal about. -/
abbrev Forces (r : Rescuer) (goal : Sys → Prop) (s : Sys) : Prop := Attains Sys.Aided r.may goal s

/-- A reachable state in which the row of the job meets `P`. -/
structure At (r : Rescuer) (P : Job → Prop) (s : Sys) : Prop where
  reached : ∃ t ls, Run Step (Sys.init t) ls s
  later : r.first ≤ s.nextCall
  row : ∃ j, s.db.job? r.id = some j ∧ j.queue = r.queue ∧ P j

namespace At

theorem sound (h : r.At P s) : s.Sound := by
  obtain ⟨t, ls, run⟩ := h.reached
  exact Sys.sound_of_run run

theorem mono (h : r.At P s) (sub : ∀ j, P j → Q j) : r.At Q s := by
  obtain ⟨j, row, queue, ok⟩ := h.row
  exact ⟨h.reached, h.later, j, row, queue, sub j ok⟩

theorem step (h : r.At P s) {l : Label} {s' : Sys} (step : Step s l s') (later : s.nextCall ≤ s'.nextCall)
    (row : ∃ j, s'.db.job? r.id = some j ∧ j.queue = r.queue ∧ Q j) : r.At Q s' := by
  obtain ⟨t, ls, run⟩ := h.reached
  exact ⟨⟨t, _, run.snoc step⟩, h.later.trans later, row⟩

theorem begin (h : r.At P s) (request : Request) : r.At P (s.begin request) :=
  h.step (.begin request) (Nat.le_succ _) h.row

theorem shuffle (h : r.At P s) (shuffle : Step s .reorder s₁) : r.At P s₁ := by
  obtain ⟨j, row, queue, ok⟩ := h.row
  refine h.step shuffle ?_ ⟨j, ?_, queue, ok⟩
  · cases shuffle with
    | reorder same => exact le_refl _
  · cases shuffle with
    | reorder same => exact (h.sound.keyed.lookup_perm same).trans row

theorem commit (h : r.At P s) {i : Nat} {c : Call} {uuid : Uuid} (inFlight : s.calls i = some c)
    (fresh : uuid ∉ s.issued)
    (row : ∃ j, (c.step (s.unit c uuid).env s.db).1.job? r.id = some j ∧ j.queue = r.queue ∧ Q j) :
    r.At Q (s.commit i (s.unit c uuid)) :=
  h.step (.commit inFlight rfl rfl fresh) (le_refl _) row

end At

/-! ## Single decisions -/

theorem forces_wait (h : r.At P s) (time : Int) : r.Forces (fun s' => r.At P s' ∧ time ≤ s'.clock ∧ s'.db = s.db) s := by
  refine .one (.wait (max s.clock time)) trivial ⟨_, .wait (le_max_left _ _)⟩ ?_
  rintro _ ⟨later⟩
  exact ⟨h.step (.tick later) (le_refl _) h.row, le_max_right _ _, rfl⟩

theorem forces_begin {request : Request} (allowed : r.calls request) (rest : r.Forces goal (s.begin request)) :
    r.Forces goal s := by
  refine .act (.begin request) allowed ⟨_, .begin⟩ ?_
  intro _ same
  cases same
  exact rest

theorem forces_commit {i : Nat} {c : Call} (inFlight : s.calls i = some c) (own : r.first ≤ i)
    (all : ∀ s₁ uuid, Step s .reorder s₁ → s₁.calls i = some c → uuid ∉ s₁.issued → goal (s₁.commit i (s₁.unit c uuid))) :
    r.Forces goal s := by
  obtain ⟨uuid, fresh⟩ := Sys.exists_fresh s.issued
  refine .one (.commit i) own ⟨_, .commit (.reorder (List.Perm.refl _)) inFlight fresh⟩ ?_
  intro s' aided
  cases aided with
  | @commit s₁ _ c' uuid shuffle inFlight' fresh =>
    have same : s₁.calls i = some c := by
      cases shuffle with
      | reorder => exact inFlight
    obtain rfl := Option.some.inj (same.symm.trans inFlight')
    exact all s₁ uuid shuffle same fresh

/-- A call begun and its first unit committed. -/
theorem forces_call (request : Request) (allowed : r.calls request) (own : r.first ≤ s.nextCall)
    (all : ∀ s₁ uuid, Step (s.begin request) .reorder s₁ → s₁.calls s.nextCall = some (.start request) →
      uuid ∉ s₁.issued → goal (s₁.commit s.nextCall (s₁.unit (.start request) uuid))) : r.Forces goal s :=
  forces_begin allowed (forces_commit (s.setCall_self _ _) own all)

/-! ## An operator's retry -/

theorem forces_retry (h : r.At (fun j => j.status ∈ [.failed, .deadLettered]) s) :
    r.Forces (r.At fun j => j.status.isLeaseable = true) s := by
  have first : r.Forces (fun s' => r.At (fun j => j.status.isLeaseable = true) s' ∧
      ∃ job, s'.calls s.nextCall = some (.removeDeadLetter job)) s := by
    refine forces_call (.retryJob r.id) rfl h.later fun s₁ uuid shuffle inFlight fresh => ?_
    have here := (h.begin _).shuffle shuffle
    obtain ⟨j, row, queue, ended⟩ := here.row
    obtain ⟨-, miss⟩ | ⟨j', row', -, done⟩ :=
      Db.requeueJob_spec here.sound.keyed (s₁.unit (.start (.retryJob r.id)) uuid).env r.id
    · exact absurd ended (miss j row)
    · obtain rfl := Option.some.inj (row.symm.trans row')
      constructor
      · refine here.commit inFlight fresh ⟨j.setRequeued s₁.clock, ?_, queue, rfl⟩
        rw [Call.retryJob_fst, Db.job?_requeueJob, row, Option.map_some, if_pos ⟨Db.job?_id row, ended⟩]
        rfl
      · refine ⟨j.setRequeued s₁.clock, (s₁.setCall_self _ _).trans ?_⟩
        exact congrArg Progress.pending (Call.retryJob_snd _ _ done)
  refine first.bind ?_
  rintro s' ⟨h', job, inFlight⟩
  refine forces_commit inFlight h.later fun s₁ uuid shuffle inFlight fresh => ?_
  have here := h'.shuffle shuffle
  exact here.commit inFlight fresh here.row

/-! ## Sweeps -/

/-- The lease of the row has run out. -/
def late (now : Int) (j : Job) : Bool := decide (j.status = .processing ∧ ∃ e ∈ j.leaseExpiresAt, e < now)

theorem expired_unit {c : Call} {uuid : Uuid} {j : Job} : Db.expired (s.unit c uuid).env j = late s.clock j := by
  simp [Db.expired, late, Sys.unit]

/-- A sweep has taken the row back. -/
def Released (j : Job) : Prop := j.status ∈ [.retrying, .failed, .deadLettered]

/-- Within a sweep of the row `j`: taken back, or not, and then there is less
to take back than before as soon as a statement `seen` it. -/
structure Sweeping (r : Rescuer) (j : Job) (now : Int) (count : Nat) (seen : Prop) (s : Sys) : Prop where
  clock : s.clock = now
  row : r.At Released s ∨
    (r.At (· = j) s ∧ s.db.jobs.countP (late now) ≤ count ∧ (seen → s.db.jobs.countP (late now) < count))

/-- One statement of a sweep on the table. -/
theorem release_progress {db : Db} (keyed : Keyed Job.id db.jobs) {set : Job → Job} {which : Job → Bool} {limit now : Int}
    (same : ∀ j, SameSubmission (set j) j) (out : ∀ j, Released (set j)) (sub : ∀ j, which j = true → late now j = true)
    (pos : 1 ≤ limit) {id : Uuid} {j : Job} (row : db.job? id = some j) :
    let after := db.releaseBatch set (db.expiredBatch which limit)
    (which j = true ∧ after.job? id = some (set j)) ∨
    (after.job? id = some j ∧ after.jobs.countP (late now) ≤ db.jobs.countP (late now) ∧
      (which j = true → after.jobs.countP (late now) < db.jobs.countP (late now))) := by
  intro after
  have gone : ∀ a, late now (set a) = false := by
    intro a
    have released := out a
    refine decide_eq_false ?_
    rintro ⟨processing, -⟩
    simp [Released, processing] at released
  have drops : ∀ a ∈ db.jobs, decide (a.id ∈ (db.expiredBatch which limit).map Job.id) = true →
      late now (set a) = true → late now a = true := by
    intro a _ _ still
    cases (gone a).symm.trans still
  obtain ⟨-, j', hit, -, row', after'⟩ | ⟨-, kept⟩ :=
    Db.job?_releaseBatch keyed (fun j => (same j).id) which limit id
  · obtain rfl := Option.some.inj (row.symm.trans row')
    exact .inl ⟨hit, after'⟩
  · refine .inr ⟨kept.trans row, countP_updateWhere_le drops, fun hit => ?_⟩
    -- the batch is not empty, so it took another row
    have some : db.jobs.filter which ≠ [] := List.ne_nil_of_mem (List.mem_filter.2 ⟨Db.job?_mem row, hit⟩)
    have taken : db.expiredBatch which limit ≠ [] := top_ne_nil some (by omega)
    obtain ⟨a, mem⟩ := List.exists_mem_of_ne_nil _ taken
    obtain ⟨aMem, aHit⟩ := Db.mem_expiredBatch mem
    exact countP_updateWhere_lt drops aMem (decide_eq_true (List.mem_map_of_mem mem)) (sub a aHit) (gone a)

namespace Sweeping

variable {j : Job} {now : Int} {count : Nat} {seen : Prop}

theorem begin (h : r.Sweeping j now count seen s) (request : Request) : r.Sweeping j now count seen (s.begin request) := by
  refine ⟨h.clock, ?_⟩
  obtain released | ⟨row, less⟩ := h.row
  · exact .inl (released.begin request)
  · exact .inr ⟨row.begin request, less⟩

theorem shuffle (h : r.Sweeping j now count seen s) (shuffle : Step s .reorder s₁) : r.Sweeping j now count seen s₁ := by
  cases shuffle with
  | reorder same =>
    refine ⟨h.clock, ?_⟩
    obtain released | ⟨row, less⟩ := h.row
    · exact .inl (released.shuffle (.reorder same))
    · refine .inr ⟨row.shuffle (.reorder same), ?_⟩
      simp only [same.countP_eq]
      exact less

/-- One statement of a sweep, on those of the expired rows that are its `part`. -/
theorem statement (h : r.Sweeping j now count seen s) (isLate : late now j = true) (pos : 1 ≤ r.limit) {i : Nat}
    {c : Call} {uuid : Uuid} (inFlight : s.calls i = some c) (fresh : uuid ∉ s.issued) (set : Job → Job)
    (part : Job → Bool) (same : ∀ a, SameSubmission (set a) a) (out : ∀ a, Released (set a))
    (jobs : (c.step (s.unit c uuid).env s.db).1.jobs = (s.db.releaseBatch set
      (s.db.expiredBatch (fun a => Db.expired (s.unit c uuid).env a && part a) r.limit)).jobs) :
    r.Sweeping j now count (seen ∨ part j = true) (s.commit i (s.unit c uuid)) := by
  have late_iff : ∀ a, Db.expired (s.unit c uuid).env a = late now a := by
    intro a
    rw [expired_unit, h.clock]
  simp only [late_iff] at jobs
  have sub : ∀ a, (late now a && part a) = true → late now a = true := fun a hit => (Bool.and_eq_true_iff.1 hit).1
  have look : ∀ id, (c.step (s.unit c uuid).env s.db).1.job? id =
      (s.db.releaseBatch set (s.db.expiredBatch (fun a => late now a && part a) r.limit)).job? id := by
    intro id
    rw [Db.job?, jobs]
    rfl
  refine ⟨h.clock, ?_⟩
  obtain released | ⟨here, le, less⟩ := h.row
  · obtain ⟨k, row, queue, status⟩ := released.row
    refine .inl (released.commit inFlight fresh ?_)
    obtain ⟨-, row'⟩ | ⟨row', -⟩ := release_progress released.sound.keyed same out sub pos row
    · exact ⟨_, (look r.id).trans row', (same k).queue.trans queue, out k⟩
    · exact ⟨k, (look r.id).trans row', queue, status⟩
  · obtain ⟨k, row, queue, rfl⟩ := here.row
    obtain ⟨-, row'⟩ | ⟨row', le', less'⟩ := release_progress here.sound.keyed same out sub pos row
    · exact .inl (here.commit inFlight fresh ⟨_, (look r.id).trans row', (same k).queue.trans queue, out k⟩)
    · refine .inr ⟨here.commit inFlight fresh ⟨k, (look r.id).trans row', queue, rfl⟩, ?_⟩
      show (c.step (s.unit c uuid).env s.db).1.jobs.countP (late now) ≤ count ∧
        (_ → (c.step (s.unit c uuid).env s.db).1.jobs.countP (late now) < count)
      rw [jobs]
      refine ⟨le'.trans le, ?_⟩
      rintro (before | hit)
      · exact le'.trans_lt (less before)
      · exact (less' (Bool.and_eq_true_iff.2 ⟨isLate, hit⟩)).trans_le le

theorem mono (h : r.Sweeping j now count seen s) {seen' : Prop} (sub : seen' → seen) :
    r.Sweeping j now count seen' s := by
  refine ⟨h.clock, ?_⟩
  obtain released | ⟨row, le, less⟩ := h.row
  · exact .inl released
  · exact .inr ⟨row, le, fun h => less (sub h)⟩

end Sweeping

section Sweep

variable {j : Job} {now : Int} {count : Nat} {i : Nat}

/-- The first statement takes jobs with attempts left. -/
theorem sweep_retryable (pos : 1 ≤ r.limit) (isLate : late now j = true) (h : r.Sweeping j now count False s)
    (own : r.first ≤ s.nextCall) :
    r.Forces (fun s' => r.Sweeping j now count (j.attempts < j.maxAttempts) s' ∧
      ∃ ids, s'.calls s.nextCall = some (.recoverDeadLetter r.limit ids)) s := by
  refine forces_call (.recoverExpiredLeases r.limit) rfl own fun s₁ uuid shuffle inFlight fresh => ?_
  have negative : ¬ r.limit < 0 := by omega
  constructor
  · have swept := ((h.begin _).shuffle shuffle).statement isLate pos inFlight fresh (Job.setExpiredRetrying s₁.clock)
      (fun a => decide (a.attempts < a.maxAttempts)) (fun a => a.setRetrying_same _ _ _)
      (fun a => by simp [Released])
      (by rw [Call.recoverExpiredLeases_fst, if_neg negative]; rfl)
    exact swept.mono fun left => .inr (decide_eq_true left)
  · refine ⟨(s₁.db.recoverRetryable ⟨s₁.clock, [], uuid⟩ r.limit).2, (s₁.setCall_self _ _).trans ?_⟩
    simp only [Commit.reply, Call.step, Sys.unit, if_neg negative]
    rfl

/-- The second takes exhausted jobs that are to be dead-lettered. -/
theorem sweep_deadLetter (pos : 1 ≤ r.limit) (isLate : late now j = true)
    (h : r.Sweeping j now count (j.attempts < j.maxAttempts) s) (own : r.first ≤ i) {before : List Uuid}
    (inFlight : s.calls i = some (.recoverDeadLetter r.limit before)) :
    r.Forces (fun s' => r.Sweeping j now count (j.attempts < j.maxAttempts ∨ j.deadLetter = true) s' ∧
      ∃ ids, s'.calls i = some (.recoverFailed r.limit ids)) s := by
  refine forces_commit inFlight own fun s₁ uuid shuffle inFlight fresh => ?_
  constructor
  · have swept := (h.shuffle shuffle).statement isLate pos inFlight fresh (Job.setExpiredDeadLettered s₁.clock)
      (fun a => decide (a.maxAttempts ≤ a.attempts ∧ a.deadLetter = true)) (fun a => a.setDeadLettered_same _ _)
      (fun a => by simp [Released]) rfl
    refine swept.mono ?_
    rintro (left | files)
    · exact .inl left
    · by_cases left : j.attempts < j.maxAttempts
      · exact .inl left
      · exact .inr (decide_eq_true ⟨by omega, files⟩)
  · exact ⟨_, s₁.setCall_self _ _⟩

/-- The third takes the exhausted jobs that are left. -/
theorem sweep_failed (pos : 1 ≤ r.limit) (isLate : late now j = true)
    (h : r.Sweeping j now count (j.attempts < j.maxAttempts ∨ j.deadLetter = true) s) (own : r.first ≤ i)
    {before : List Uuid} (inFlight : s.calls i = some (.recoverFailed r.limit before)) :
    r.Forces (fun s' => r.Sweeping j now count True s' ∧
      (s'.calls i = none ∨ ∃ ids, s'.calls i = some (.closeExpired ids))) s := by
  refine forces_commit inFlight own fun s₁ uuid shuffle inFlight fresh => ?_
  constructor
  · have swept := (h.shuffle shuffle).statement isLate pos inFlight fresh (Job.setExpiredFailed s₁.clock)
      (fun a => decide (a.maxAttempts ≤ a.attempts ∧ a.deadLetter = false)) (fun a => a.setFailed_same _ _)
      (fun a => by simp [Released]) rfl
    refine swept.mono fun _ => ?_
    by_cases left : j.attempts < j.maxAttempts
    · exact .inl (.inl left)
    · cases files : j.deadLetter with
      | true => exact .inl (.inr rfl)
      | false => exact .inr (decide_eq_true ⟨by omega, rfl⟩)
  · show s₁.setCall i _ i = none ∨ ∃ ids, s₁.setCall i _ i = some (.closeExpired ids)
    rw [s₁.setCall_self]
    cases reply : (s₁.unit (.recoverFailed r.limit before) uuid).reply with
    | done result => exact .inl rfl
    | next c' =>
      cases Call.follows reply
      exact .inr ⟨_, rfl⟩

theorem sweep_close (h : r.Sweeping j now count True s) (own : r.first ≤ i)
    (last : s.calls i = none ∨ ∃ ids, s.calls i = some (.closeExpired ids)) :
    r.Forces (r.Sweeping j now count True) s := by
  rcases last with - | ⟨ids, inFlight⟩
  · exact .done h
  · refine forces_commit inFlight own fun s₁ uuid shuffle inFlight fresh => ?_
    have here := h.shuffle shuffle
    refine ⟨here.clock, ?_⟩
    obtain released | ⟨row, less⟩ := here.row
    · exact .inl (released.commit inFlight fresh released.row)
    · exact .inr ⟨row.commit inFlight fresh row.row, less⟩

end Sweep

/-- A row whose lease has run out. -/
structure Late (r : Rescuer) (now : Int) (s : Sys) : Prop where
  clock : s.clock = now
  row : r.At (fun j => late now j = true) s

/-- A whole sweep takes the row back, or another one whose lease has run out. -/
theorem forces_sweep {now : Int} (pos : 1 ≤ r.limit) (h : r.Late now s) :
    r.Forces (fun s' => r.At Released s' ∨
      (r.Late now s' ∧ s'.db.jobs.countP (late now) < s.db.jobs.countP (late now))) s := by
  obtain ⟨j, row, queue, isLate⟩ := h.row.row
  have own := h.row.later
  have start : r.Sweeping j now (s.db.jobs.countP (late now)) False s :=
    ⟨h.clock, .inr ⟨⟨h.row.reached, own, j, row, queue, rfl⟩, le_refl _, False.elim⟩⟩
  refine (sweep_retryable pos isLate start own).bind ?_
  rintro s₁ ⟨swept, _, inFlight⟩
  refine (sweep_deadLetter pos isLate swept own inFlight).bind ?_
  rintro s₂ ⟨swept, _, inFlight⟩
  refine (sweep_failed pos isLate swept own inFlight).bind ?_
  rintro s₃ ⟨swept, last⟩
  refine (sweep_close swept own last).mono ?_
  rintro s₄ ⟨clock, released | ⟨here, -, less⟩⟩
  · exact .inl released
  · refine .inr ⟨⟨clock, here.mono ?_⟩, less trivial⟩
    rintro _ rfl
    exact isLate

/-- Sweeps take the row back, however many others come first. -/
theorem forces_release {now : Int} (pos : 1 ≤ r.limit) (h : r.Late now s) : r.Forces (r.At Released) s := by
  refine Attains.loop (fun s => s.db.jobs.countP (late now)) ?_ s h
  intro s h
  exact forces_sweep pos h

/-! ## Leasing what the queue has to offer -/

/-- A row that can be leased from its queue now. -/
structure Ready (r : Rescuer) (now : Int) (s : Sys) : Prop where
  clock : s.clock = now
  row : r.At (fun j => j.status.isLeaseable = true ∧ j.runAt ≤ now) s
  unpaused : ∃ q ∈ s.db.queues, q.name = r.queue ∧ q.paused = false

/-- The rescuer's worker holds a job: the one to complete, or another one of its queue. -/
structure Holds (r : Rescuer) (now : Int) (count : Nat) (job : Job) (s : Sys) : Prop where
  here : r.At (fun _ => True) s
  row : s.db.job? job.id = some job
  processing : job.status = .processing
  holder : job.lockedBy = some r.worker
  other : job.id ≠ r.id → r.Ready now s
  fewer : s.db.jobs.countP (fun j => j.status.isLeaseable) < count

/-- `lease_next` hands out a job, as the one to complete can be leased. -/
theorem forces_lease {now : Int} (h : r.Ready now s) :
    r.Forces (fun s' => ∃ job, r.Holds now (s.db.jobs.countP fun j => j.status.isLeaseable) job s') s := by
  refine forces_call (.leaseNext r.worker [r.queue] 60) rfl h.row.later fun s₁ uuid shuffle inFlight fresh => ?_
  have here := (h.row.begin _).shuffle shuffle
  obtain ⟨j, row, queue, leaseable, due⟩ := here.row
  have clock : s₁.clock = now := by
    cases shuffle with
    | reorder => exact h.clock
  have unpaused : ∃ q ∈ s₁.db.queues, q.name = r.queue ∧ q.paused = false := by
    cases shuffle with
    | reorder => exact h.unpaused
  have count : s₁.db.jobs.countP (fun j => j.status.isLeaseable) = s.db.jobs.countP fun j => j.status.isLeaseable := by
    cases shuffle with
    | reorder same => exact same.countP_eq _
  obtain ⟨-, picked⟩ | ⟨pick, mem, -, ok, leased⟩ :=
    s₁.db.leaseNext_spec ⟨s₁.clock, [], uuid⟩ r.worker [r.queue] 60
  · have none := head_orderBy_none picked
    rw [List.filter_eq_nil_iff] at none
    refine absurd (Db.leaseable_iff.2 ⟨?_, ?_, JobStatus.isLeaseable_iff.1 leaseable, ?_, ?_⟩) (none j (Db.job?_mem row))
    · rw [queue]
      exact List.mem_singleton_self _
    · rw [queue]
      exact unpaused
    · show j.runAt ≤ s₁.clock
      omega
    · exact List.not_mem_nil
  · obtain ⟨-, -, status, -, -⟩ := Db.leaseable_iff.1 ok
    have pickRow : s₁.db.job? pick.id = some pick := here.sound.keyed.lookup_self mem
    have after : ((Call.start (.leaseNext r.worker [r.queue] 60)).step ⟨s₁.clock, [], uuid⟩ s₁.db).1 =
        s₁.db.leaseWrite s₁.clock r.worker 60 pick := congrArg Prod.fst leased
    have kept : ∃ k, (s₁.db.leaseWrite s₁.clock r.worker 60 pick).job? r.id = some k ∧ k.queue = r.queue ∧
        (pick.id ≠ r.id → k.status.isLeaseable = true ∧ k.runAt ≤ now) := by
      by_cases isId : pick.id = r.id
      · have same : pick = j := Option.some.inj (pickRow.symm.trans (isId ▸ row))
        refine ⟨pick.setLeased s₁.clock r.worker 60, ?_, same ▸ queue, fun ne => absurd isId ne⟩
        rw [← isId]
        exact Db.leaseWrite_row pickRow
      · exact ⟨j, (Db.leaseWrite_other (Ne.symm isId)).trans row, queue, fun _ => ⟨leaseable, due⟩⟩
    have moved := here.commit (Q := fun k => pick.id ≠ r.id → k.status.isLeaseable = true ∧ k.runAt ≤ now) inFlight
      fresh (after ▸ kept)
    refine ⟨pick.setLeased s₁.clock r.worker 60, moved.mono fun _ _ => trivial, ?_, rfl, rfl, ?_, ?_⟩
    · exact (congrArg (Db.job? · pick.id) after).trans (Db.leaseWrite_row pickRow)
    · intro ne
      have queues := congrArg Db.queues after
      exact ⟨clock, moved.mono fun _ h => h ne, queues.symm ▸ unpaused⟩
    · rw [← count]
      show List.countP _ ((Call.start _).step ⟨s₁.clock, [], uuid⟩ s₁.db).1.jobs < _
      rw [after]
      exact countP_updateWhere_lt (by simp [JobStatus.isLeaseable]) mem (decide_eq_true rfl)
        (JobStatus.isLeaseable_iff.2 status) rfl

/-- A job held is completed. -/
theorem forces_complete {now : Int} {count : Nat} {job : Job} (h : r.Holds now count job s) :
    r.Forces (fun s' => r.At (fun j => j.status = .completed) s' ∨
      (r.Ready now s' ∧ s'.db.jobs.countP (fun j => j.status.isLeaseable) < count)) s := by
  refine forces_call (.completeJob job.id r.worker none) rfl h.here.later fun s₁ uuid shuffle inFlight fresh => ?_
  have here := (h.here.begin _).shuffle shuffle
  have row : s₁.db.job? job.id = some job := by
    cases shuffle with
    | reorder same => exact (h.here.sound.keyed.lookup_perm same).trans h.row
  have fewer : s₁.db.jobs.countP (fun j => j.status.isLeaseable) < count := by
    cases shuffle with
    | reorder same =>
      rw [same.countP_eq]
      exact h.fewer
  have other : job.id ≠ r.id → r.Ready now s₁ := by
    intro ne
    obtain ⟨clock, ready, unpaused⟩ := h.other ne
    refine ⟨?_, (ready.begin _).shuffle shuffle, ?_⟩
    · cases shuffle with
      | reorder => exact clock
    · cases shuffle with
      | reorder => exact unpaused
  obtain ⟨-, miss⟩ | ⟨j, row', holder, processing, done⟩ :=
    Db.completeJob_spec here.sound.keyed ⟨s₁.clock, [], uuid⟩ job.id r.worker none
  · have held := miss job (Db.job?_mem row)
    rw [Db.heldBy_iff.2 ⟨rfl, h.holder, h.processing⟩] at held
    cases held
  · have after : ((Call.start (.completeJob job.id r.worker none)).step ⟨s₁.clock, [], uuid⟩ s₁.db).1 =
        s₁.db.completeWrite ⟨s₁.clock, [], uuid⟩ job.id r.worker none :=
      (Call.completeJob_fst _ _ _ _ _).trans (congrArg Prod.fst done)
    by_cases isId : job.id = r.id
    · left
      obtain ⟨k, row', queue, -⟩ := here.row
      rw [← isId] at row'
      obtain rfl := Option.some.inj (row.symm.trans row')
      refine here.commit inFlight fresh ⟨job.setCompleted s₁.clock none, ?_, queue, rfl⟩
      rw [← isId]
      exact (congrArg (Db.job? · job.id) after).trans (Db.completeWrite_row row h.processing h.holder)
    · right
      obtain ⟨clock, ready, unpaused⟩ := other isId
      obtain ⟨k, row', queue, waits⟩ := ready.row
      constructor
      · refine ⟨clock, ready.commit inFlight fresh ⟨k, ?_, queue, waits⟩, ?_⟩
        · exact (congrArg (Db.job? · r.id) after).trans ((Db.completeWrite_other (Ne.symm isId)).trans row')
        · exact (congrArg Db.queues after) ▸ unpaused
      · refine lt_of_eq_of_lt ?_ fewer
        refine (congrArg (fun db : Db => db.jobs.countP fun j => j.status.isLeaseable) after).trans ?_
        apply countP_updateWhere
        intro a _ held
        rw [(Db.heldBy_iff.1 held).2.2]
        rfl

/-- However many jobs of the queue come first, the job is leased and completed. -/
theorem forces_turn {now : Int} (h : r.Ready now s) : r.Forces (r.At fun j => j.status = .completed) s := by
  refine Attains.loop (fun s => s.db.jobs.countP fun j => j.status.isLeaseable) ?_ s h
  intro s h
  refine (forces_lease h).bind ?_
  rintro s' ⟨job, holds⟩
  exact forces_complete holds

/-! ## From any status -/

/-- The queue of a job is there, and can be resumed. -/
theorem forces_resume (h : r.At P s) :
    r.Forces (fun s' => r.At P s' ∧ ∃ q ∈ s'.db.queues, q.name = r.queue ∧ q.paused = false) s := by
  refine forces_call (.setQueuePaused r.queue false) ⟨rfl, rfl⟩ h.later fun s₁ uuid shuffle inFlight fresh => ?_
  have here := (h.begin _).shuffle shuffle
  obtain ⟨j, row, queue, -⟩ := here.row
  obtain ⟨q, mem, name⟩ := here.sound.queues j (Db.job?_mem row)
  rw [queue] at name
  refine ⟨here.commit inFlight fresh here.row, { q with paused := false }, mem_updateWhere.2 ⟨q, mem, ?_⟩, name, rfl⟩
  exact if_pos (decide_eq_true name)

theorem forces_from_leaseable (h : r.At (fun j => j.status.isLeaseable = true) s) :
    r.Forces (r.At fun j => j.status = .completed) s := by
  obtain ⟨j, row, queue, leaseable⟩ := h.row
  have exactly : r.At (· = j) s := ⟨h.reached, h.later, j, row, queue, rfl⟩
  refine (forces_resume exactly).bind ?_
  rintro s₁ ⟨here, unpaused⟩
  refine (forces_wait here j.runAt).bind ?_
  rintro s₂ ⟨here, due, same⟩
  have ready : r.Ready s₂.clock s₂ := by
    refine ⟨rfl, here.mono ?_, same ▸ unpaused⟩
    rintro _ rfl
    exact ⟨leaseable, due⟩
  exact forces_turn ready

theorem forces_from_ended (h : r.At (fun j => j.status ∈ [.failed, .deadLettered]) s) :
    r.Forces (r.At fun j => j.status = .completed) s := by
  refine (forces_retry h).bind ?_
  intro s' leaseable
  exact forces_from_leaseable leaseable

/-- The lease of a job that is processing has an end, so the reaper gets to it. -/
theorem forces_from_processing (pos : 1 ≤ r.limit) (h : r.At (fun j => j.status = .processing) s) :
    r.Forces (r.At fun j => j.status = .completed) s := by
  obtain ⟨j, row, queue, processing⟩ := h.row
  obtain ⟨t, ls, run⟩ := h.reached
  have fields := Sys.fieldsOk_of_run run j (Db.job?_mem row)
  obtain ⟨expiry, expires⟩ := Option.isSome_iff_exists.1 (fields.leased processing).2.2
  have exactly : r.At (· = j) s := ⟨h.reached, h.later, j, row, queue, rfl⟩
  refine (forces_wait exactly (expiry + 1)).bind ?_
  rintro s₁ ⟨here, past, -⟩
  have isLate : r.Late s₁.clock s₁ := by
    refine ⟨rfl, here.mono ?_⟩
    rintro _ rfl
    exact decide_eq_true ⟨processing, expiry, expires, by omega⟩
  refine (forces_release pos isLate).bind ?_
  intro s₂ released
  obtain ⟨k, row, queue, status⟩ := released.row
  by_cases retrying : k.status = .retrying
  · exact forces_from_leaseable ⟨released.reached, released.later, k, row, queue, by rw [retrying]; rfl⟩
  · refine forces_from_ended ⟨released.reached, released.later, k, row, queue, ?_⟩
    simpa [Released, retrying] using status

/-- **A job that is neither completed nor cancelled can be completed.** -/
theorem rescues (pos : 1 ≤ r.limit) (h : r.At (fun j => j.status ≠ .completed ∧ j.status ≠ .cancelled) s) :
    r.Forces (r.At fun j => j.status = .completed) s := by
  obtain ⟨j, row, queue, notCompleted, notCancelled⟩ := h.row
  have at_row : ∀ {P : Job → Prop}, P j → r.At P s := fun ok => ⟨h.reached, h.later, j, row, queue, ok⟩
  cases status : j.status with
  | queued => exact forces_from_leaseable (at_row (by rw [status]; rfl))
  | scheduled => exact forces_from_leaseable (at_row (by rw [status]; rfl))
  | retrying => exact forces_from_leaseable (at_row (by rw [status]; rfl))
  | processing => exact forces_from_processing pos (at_row status)
  | failed => exact forces_from_ended (at_row (by simp [status]))
  | deadLettered => exact forces_from_ended (at_row (by simp [status]))
  | completed => exact absurd status notCompleted
  | cancelled => exact absurd status notCancelled

end Rescuer

/-- **No job is lost.** From every state a run arrives at, a job that is neither
completed nor cancelled is completed by some run that a rescuer with a worker and
a batch limit of any kind goes on with; and a row goes only by a purge, once it is
completed or cancelled. -/
theorem no_job_lost {t : Int} {ls : List Label} {s : Sys} (run : Run Step (Sys.init t) ls s) {id : Uuid} {j : Job}
    (row : s.db.job? id = some j) :
    (j.status ≠ .completed → j.status ≠ .cancelled → ∀ worker limit, 1 ≤ limit →
      ∃ ls' s', Run Step s ls' s' ∧ (∀ l ∈ ls', (Rescuer.mk s.nextCall id j.queue worker limit).labels l) ∧
        ∃ j', s'.db.job? id = some j' ∧ j'.status = .completed) ∧
    (∀ l s', Step s l s' → s'.db.job? id = none →
      l.deletes id = true ∧ j.status ∈ [.completed, .cancelled]) := by
  constructor
  · intro notCompleted notCancelled worker limit pos
    have here : (Rescuer.mk s.nextCall id j.queue worker limit).At
        (fun j => j.status ≠ .completed ∧ j.status ≠ .cancelled) s :=
      ⟨⟨t, ls, run⟩, le_refl _, j, row, rfl, notCompleted, notCancelled⟩
    obtain ⟨acts, s', aided, may, completed⟩ := (Rescuer.rescues pos here).run
    obtain ⟨ls', run', ok⟩ := Sys.run_of_aided aided may
    obtain ⟨j', row', -, status⟩ := completed.row
    exact ⟨ls', s', run', ok, j', row', status⟩
  · intro l s' step gone
    obtain ⟨j', row', -⟩ | ⟨deleted, ended, -⟩ := step.row_kept (Sys.sound_of_run run) row
    · cases gone.symm.trans row'
    · exact ⟨deleted, ended⟩

/-- A worker leases the job and is never heard of again. -/
theorem no_job_lost_leased :
    ∃ ls' s', Run Step ((Sys.init 0).replay leaseScript) ls' s' ∧
      (∀ l ∈ ls', (Rescuer.mk ((Sys.init 0).replay leaseScript).nextCall 7 "emails" 2 1).labels l) ∧
      ∃ j', s'.db.job? 7 = some j' ∧ j'.status = .completed := by
  have run := @Sys.replay_run (Sys.init 0) leaseScript (by decide)
  have row : ((Sys.init 0).replay leaseScript).db.job? 7 = some ((Job.sample 2 none).setLeased 0 1 60) := rfl
  exact (no_job_lost run row).1 (by decide) (by decide) 2 1 (by decide)

end Djq
