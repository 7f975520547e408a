import Djq.System.Interleaving

/-!
# Validation and its dates

What `NewJob::normalized` and `QueueService::purge_finished` do with the numbers
of a request. Counts are checked or floored. The two numbers of seconds that are
turned into dates are not, and there `chrono`'s operators panic.
-/

namespace Djq

/-- `QueueService::purge_finished`, at a reading `now` of the service's clock. -/
def QueueService.purgeFinished (olderThanSecs : Int64) (now : Int) (env : Env) (db : Db) : Db × Outcome Nat :=
  match (durationSeconds (max olderThanSecs.toInt 0)).bind (subDuration now) with
  | none => (db, .panic)
  | some cutoff =>
    match PgStore.purgeFinished cutoff env db with
    | (db, .ok rows) => (db, .ok rows)
    | (db, .error e) => (db, .err e)

/-! ## Dates -/

/-- A date that `chrono` can represent. -/
structure Representable (t : Int) : Prop where
  lower : minUtc ≤ t
  upper : t ≤ maxUtc

instance (t : Int) : Decidable (Representable t) :=
  decidable_of_iff (minUtc ≤ t ∧ t ≤ maxUtc) ⟨fun h => ⟨h.1, h.2⟩, fun h => ⟨h.lower, h.upper⟩⟩

theorem durationSeconds_some {d span : Int} (eq : durationSeconds d = some span) : span = seconds d := by
  unfold durationSeconds at eq
  split at eq
  · exact (Option.some.inj eq).symm
  · exact absurd eq (by simp)

/-- The bound on a `Duration` is no bound of its own: whatever leads from one
date to another is far below it. -/
theorem durationSeconds_between {d a b : Int} (source : Representable a) (target : Representable b)
    (forward : 0 ≤ d) (apart : seconds d ≤ b - a) : durationSeconds d = some (seconds d) := by
  have lo := source.lower
  have hi := target.upper
  apply if_pos
  simp only [seconds, minUtc, maxUtc, maxDurationSecs] at *
  omega

theorem later_eq_none_iff {now : Int} (clock : Representable now) {d : Int} (forward : 0 ≤ d) :
    (durationSeconds d).bind (addDuration now) = none ↔ maxUtc < now + seconds d := by
  have lo := clock.lower
  have ahead : 0 ≤ seconds d := by simp only [seconds]; omega
  constructor
  · intro fails
    by_contra fits
    have target : Representable (now + seconds d) := ⟨by omega, by omega⟩
    have span := durationSeconds_between clock target forward (by omega)
    rw [span, Option.bind_some, addDuration, if_pos ⟨target.lower, target.upper⟩] at fails
    exact absurd fails (by simp)
  · intro late
    apply Option.bind_eq_none_iff.2
    intro span eq
    have same := durationSeconds_some eq
    exact if_neg (by rw [same]; omega)

theorem earlier_eq_none_iff {now : Int} (clock : Representable now) {d : Int} (forward : 0 ≤ d) :
    (durationSeconds d).bind (subDuration now) = none ↔ now - seconds d < minUtc := by
  have hi := clock.upper
  have ahead : 0 ≤ seconds d := by simp only [seconds]; omega
  constructor
  · intro fails
    by_contra fits
    have target : Representable (now - seconds d) := ⟨by omega, by omega⟩
    have span := durationSeconds_between target clock forward (by omega)
    rw [span, Option.bind_some, subDuration, if_pos ⟨target.lower, target.upper⟩] at fails
    exact absurd fails (by simp)
  · intro early
    apply Option.bind_eq_none_iff.2
    intro span eq
    have same := durationSeconds_some eq
    exact if_neg (by rw [same]; omega)

/-! ## `normalized` -/

/-- The checks `normalized` makes before it comes to the date. -/
structure NewJob.WellFormed (new : NewJob) : Prop where
  queue : trimIsEmpty new.queue = false
  jobType : trimIsEmpty new.jobType = false
  queueLen : new.queue.utf8ByteSize ≤ 128
  keyLen : (new.idempotencyKey.map String.utf8ByteSize).getD 0 ≤ 255
  maxAttempts : 1 ≤ (new.maxAttempts.getD 5).toInt ∧ (new.maxAttempts.getD 5).toInt ≤ 100
  timeoutSecs : 1 ≤ (new.timeoutSecs.getD 300).toInt ∧ (new.timeoutSecs.getD 300).toInt ≤ 86400

theorem NewJob.normalized_of_not_wellFormed {new : NewJob} (refused : ¬ new.WellFormed) (now : Int) :
    ∃ message, new.normalized now = .err (.validation message) := by
  unfold NewJob.normalized
  simp only
  split_ifs with queue jobType queueLen keyLen attempts timeout
  all_goals try exact ⟨_, rfl⟩
  exact absurd ⟨by simpa using queue, by simpa using jobType, by omega, by omega, attempts, timeout⟩ refused

/-- Past its checks, `normalized` fails only as the date does. -/
theorem NewJob.normalized_of_wellFormed {new : NewJob} (wf : new.WellFormed) (now : Int) :
    (new.resolveRunAt now = none ∧ new.normalized now = .panic) ∨
      ∃ job, new.normalized now = .ok job ∧ new.resolveRunAt now = some job.runAt ∧
        job.status = if now < job.runAt then .scheduled else .queued := by
  have keyLen := wf.keyLen
  have queueLen := wf.queueLen
  unfold NewJob.normalized
  simp only [wf.queue, wf.jobType, wf.maxAttempts, wf.timeoutSecs, Bool.false_eq_true, if_false, and_self,
    not_true_eq_false]
  rw [if_neg (by omega), if_neg (by omega)]
  cases runAt : new.resolveRunAt now with
  | none => exact .inl ⟨rfl, rfl⟩
  | some t => exact .inr ⟨_, rfl, rfl, rfl⟩

/-- The date a request asks for is one `chrono` can represent. -/
def NewJob.DelayFits (new : NewJob) (now : Int) : Prop :=
  new.runAt = none → ∀ d, new.delaySecs = some d → now + seconds d.toInt ≤ maxUtc

theorem NewJob.resolveRunAt_eq_none_iff {new : NewJob} {now : Int} (clock : Representable now) :
    new.resolveRunAt now = none ↔ ¬ new.DelayFits now := by
  unfold NewJob.resolveRunAt NewJob.DelayFits
  have hi := clock.upper
  cases new.runAt with
  | some t => simp
  | none =>
    cases new.delaySecs with
    | none => simp
    | some d =>
      by_cases forward : 0 < d.toInt
      · simp only [forward, if_true, later_eq_none_iff clock forward.le]
        simp
      · have back : now + seconds d.toInt ≤ maxUtc := by simp only [seconds]; omega
        simp [forward, back]

/-- What `normalized` is to return: a refusal, or a job that the table accepts. -/
def Outcome.Validated (now : Int) : Outcome NormalizedJob → Prop
  | .ok job => (∀ env, (job.row env).checks = true) ∧ job.backoffBaseSecs ≤ job.backoffMaxSecs ∧
      job.status = if now < job.runAt then .scheduled else .queued
  | .err e => ∃ message, e = .validation message
  | .panic => False

/-- `normalized` returns what it is to return exactly when it has no date to
refuse or the date is representable. -/
theorem NewJob.validated_iff {new : NewJob} {now : Int} (clock : Representable now) :
    (new.normalized now).Validated now ↔ (new.WellFormed → new.DelayFits now) := by
  by_cases wf : new.WellFormed
  · obtain ⟨unresolved, panics⟩ | ⟨job, ok, resolved, status⟩ := NewJob.normalized_of_wellFormed wf now
    · have late := (NewJob.resolveRunAt_eq_none_iff clock).1 unresolved
      rw [panics]
      exact iff_of_false id fun fits => late (fits wf)
    · have fits : new.DelayFits now := by
        by_contra late
        have unresolved := (NewJob.resolveRunAt_eq_none_iff clock).2 late
        rw [resolved] at unresolved
        exact absurd unresolved (by simp)
      have sound := NewJob.normalized_sound ok
      rw [ok]
      exact iff_of_true ⟨sound.checks, sound.backoffMaxSecs.1, status⟩ fun _ => fits
  · obtain ⟨message, refused⟩ := NewJob.normalized_of_not_wellFormed wf now
    rw [refused]
    exact iff_of_true ⟨message, rfl⟩ fun accepted => absurd accepted wf

/-! ## `purge_finished` -/

/-- The age `purge_finished` is asked for reaches back to a date `chrono` can represent. -/
def AgeFits (olderThanSecs : Int64) (now : Int) : Prop := minUtc ≤ now - seconds (max olderThanSecs.toInt 0)

instance (olderThanSecs : Int64) (now : Int) : Decidable (AgeFits olderThanSecs now) :=
  inferInstanceAs (Decidable (_ ≤ _))

theorem QueueService.purgeFinished_panics_iff (olderThanSecs : Int64) {now : Int} (clock : Representable now)
    (env : Env) (db : Db) :
    (QueueService.purgeFinished olderThanSecs now env db).2 = .panic ↔ ¬ AgeFits olderThanSecs now := by
  have forward : 0 ≤ max olderThanSecs.toInt 0 := le_max_right _ _
  have cutoff := earlier_eq_none_iff clock forward
  rw [AgeFits, not_le, ← cutoff]
  unfold QueueService.purgeFinished
  cases (durationSeconds (max olderThanSecs.toInt 0)).bind (subDuration now) with
  | none => simp
  | some t => simp [PgStore.purgeFinished]

/-- **Validation and purge**: a request gets what its signature promises exactly
when its seconds lead to a representable date. -/
theorem total_iff_dates_fit (new : NewJob) (olderThanSecs : Int64) (now : Int) (clock : Representable now)
    (env : Env) (db : Db) :
    ((new.normalized now).Validated now ∧ (QueueService.purgeFinished olderThanSecs now env db).2 ≠ .panic) ↔
      (new.WellFormed → new.DelayFits now) ∧ AgeFits olderThanSecs now := by
  have purge := not_congr (QueueService.purgeFinished_panics_iff olderThanSecs clock env db)
  rw [not_not] at purge
  exact and_congr (NewJob.validated_iff clock) purge

/-- At the epoch a delay of an hour fits, and so does an age of a week. -/
theorem dates_fit_at_epoch :
    Representable 0 ∧
      (({ NewJob.sample 3 none with delaySecs := some 3600 }.normalized 0).Validated 0 ∧
        (QueueService.purgeFinished 604800 0 ⟨0, [], 7⟩ .empty).2 ≠ .panic) := by
  have clock : Representable 0 := by decide
  refine ⟨clock, (total_iff_dates_fit _ _ 0 clock _ _).2 ⟨?_, by decide⟩⟩
  intro _ _ d delay
  obtain rfl := Option.some.inj delay
  decide

/-- A delay and an age of `i64::MAX` seconds, from a request that is otherwise in order. -/
theorem dates_overflow :
    ({ NewJob.sample 3 none with delaySecs := some Int64.maxValue }.normalized 0 = .panic ∧
      (QueueService.purgeFinished Int64.maxValue 0 ⟨0, [], 7⟩ .empty).2 = .panic) ∧
    ¬ ∀ (new : NewJob) (olderThanSecs : Int64) (now : Int), Representable now → ∀ (env : Env) (db : Db),
      (new.normalized now).Validated now ∧ (QueueService.purgeFinished olderThanSecs now env db).2 ≠ .panic := by
  have delay : { NewJob.sample 3 none with delaySecs := some Int64.maxValue }.normalized 0 = .panic := rfl
  have age : (QueueService.purgeFinished Int64.maxValue 0 ⟨0, [], 7⟩ .empty).2 = .panic := rfl
  refine ⟨⟨delay, age⟩, ?_⟩
  intro total
  exact (total (NewJob.sample 3 none) Int64.maxValue 0 (by decide) ⟨0, [], 7⟩ .empty).2 age

end Djq
