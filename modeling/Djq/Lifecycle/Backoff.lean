import Djq.Lifecycle.Frozen
import Mathlib.Data.Nat.Cast.Order.Ring

/-!
# Backoff

Two computations set the instant a failed attempt is retried at: `fail_job`'s, in
Rust with a clamped exponent, and the reaper's, in SQL without one. On the rows
the store can hold both are the documented `min(base * factor^(attempt - 1), max)`,
and no later operation but an operator's retry makes the job run earlier.
-/

namespace Djq

open Relational Transition

/-! ## The two computations -/

/-- The delay after attempt `n`, as `crates/core/src/backoff.rs` documents it. -/
def Job.backoffSecs (j : Job) (n : Int) : Int := min (j.backoffBaseSecs * 2 ^ (n - 1).toNat) j.backoffMaxSecs

/-- What `normalized` and the types of its fields say of the two backoff columns. -/
structure Job.BackoffOk (j : Job) : Prop where
  base : 1 ≤ j.backoffBaseSecs
  ordered : j.backoffBaseSecs ≤ j.backoffMaxSecs
  ceiling : j.backoffMaxSecs ≤ 2147483647

namespace Job

variable {j : Job}

theorem expiryDelaySecs_eq (first : 1 ≤ j.attempts) : j.expiryDelaySecs = j.backoffSecs j.attempts := by
  unfold expiryDelaySecs backoffSecs
  rw [max_eq_left (by omega), min_comm]

theorem BackoffOk.delayForAttempt (ok : j.BackoffOk) {n : Int} (first : 1 ≤ n) :
    ((BackoffPolicy.exponential j.backoffBaseSecs.toNat j.backoffMaxSecs.toNat).delayForAttempt n.toNat : Int) =
      j.backoffSecs n := by
  have base := ok.base
  have ordered := ok.ordered
  have ceiling := ok.ceiling
  rw [BackoffPolicy.delayForAttempt_exponential (by omega) (by omega) (by omega) (by omega)]
  have exponent : n.toNat - 1 = (n - 1).toNat := by omega
  have baseCast : (j.backoffBaseSecs.toNat : Int) = j.backoffBaseSecs := Int.toNat_of_nonneg (by omega)
  have maxCast : (j.backoffMaxSecs.toNat : Int) = j.backoffMaxSecs := Int.toNat_of_nonneg (by omega)
  rw [exponent, Nat.cast_min, Int.natCast_mul, Int.natCast_pow, baseCast, maxCast]
  rfl

theorem BackoffOk.failDelaySecs (ok : j.BackoffOk) (first : 1 ≤ j.attempts) (counted : j.attempts < 4294967296) :
    j.failDelaySecs = j.backoffSecs j.attempts := by
  have base := ok.base
  have ordered := ok.ordered
  rw [← ok.delayForAttempt first]
  unfold Job.failDelaySecs
  rw [max_eq_left base, max_eq_left (by omega), Int.emod_eq_of_lt (by omega) counted]

theorem BackoffOk.backoffSecs_pos (ok : j.BackoffOk) (n : Int) : 1 ≤ j.backoffSecs n := by
  have base := ok.base
  have ordered := ok.ordered
  have grows : (1 : Int) ≤ 2 ^ (n - 1).toNat := one_le_pow₀ (by decide)
  have product : j.backoffBaseSecs * 1 ≤ j.backoffBaseSecs * 2 ^ (n - 1).toNat :=
    Int.mul_le_mul_of_nonneg_left grows (by omega)
  exact le_min (by omega) (by omega)

theorem BackoffOk.backoffSecs_mono (ok : j.BackoffOk) {m n : Int} (le : m ≤ n) : j.backoffSecs m ≤ j.backoffSecs n := by
  have base := ok.base
  have exponent : (m - 1).toNat ≤ (n - 1).toNat := by omega
  have powers : (2 : Int) ^ (m - 1).toNat ≤ 2 ^ (n - 1).toNat := pow_le_pow_right₀ (by decide) exponent
  exact min_le_min_right _ (Int.mul_le_mul_of_nonneg_left powers (by omega))

end Job

/-- **The two computations agree** on every row whose backoff columns are as
`normalized` leaves them: `delay_for_attempt`, which counts attempts in a `u32`,
and the SQL expression are the documented delay, which fits an `i64` and does not
decrease from attempt to attempt. -/
theorem backoffs_agree {j : Job} (base : 1 ≤ j.backoffBaseSecs) (ordered : j.backoffBaseSecs ≤ j.backoffMaxSecs)
    (ceiling : j.backoffMaxSecs ≤ 2147483647) (first : 1 ≤ j.attempts) :
    j.expiryDelaySecs = min (j.backoffBaseSecs * 2 ^ (j.attempts - 1).toNat) j.backoffMaxSecs ∧
    ((BackoffPolicy.exponential j.backoffBaseSecs.toNat j.backoffMaxSecs.toNat).delayForAttempt j.attempts.toNat : Int) =
      j.expiryDelaySecs ∧
    (j.attempts < 4294967296 → j.failDelaySecs = j.expiryDelaySecs) ∧
    (0 ≤ j.expiryDelaySecs ∧ j.expiryDelaySecs ≤ 9223372036854775807) ∧
    ∀ n, j.attempts ≤ n → j.expiryDelaySecs ≤ { j with attempts := n }.expiryDelaySecs := by
  have ok : j.BackoffOk := ⟨base, ordered, ceiling⟩
  have sql := Job.expiryDelaySecs_eq first
  rw [sql]
  refine ⟨rfl, ok.delayForAttempt first, ok.failDelaySecs first, ⟨?_, ?_⟩, ?_⟩
  · have positive := ok.backoffSecs_pos j.attempts
    omega
  · have capped : j.backoffSecs j.attempts ≤ j.backoffMaxSecs := min_le_right _ _
    omega
  · intro n le
    have later : 1 ≤ ({ j with attempts := n } : Job).attempts := le_trans first le
    rw [Job.expiryDelaySecs_eq later]
    exact ok.backoffSecs_mono le

/-- The third attempt of the sample job. -/
theorem backoffs_agree_third :
    let j := { Job.sample 5 none with attempts := 3 }
    j.expiryDelaySecs = 8 ∧ j.failDelaySecs = 8 := by
  intro j
  obtain ⟨sql, -, rust, -⟩ := @backoffs_agree j (by decide) (by decide) (by decide) (by decide)
  have eight : j.expiryDelaySecs = 8 := sql
  exact ⟨eight, (rust (by decide)).trans eight⟩

/-! ## Every run -/

/-- Every step in the life of a row keeps its backoff columns, and at most 100 attempts. -/
theorem Job.BackoffOk.row_step {env : Env} {db : Db} {id : Uuid} {c : Call} {p : Progress} {r r' : Option Job}
    (life : RowStep env db id c p r r') (before : ∀ j, r = some j → j.BackoffOk ∧ j.maxAttempts ≤ 100) :
    ∀ j, r' = some j → j.BackoffOk ∧ j.maxAttempts ≤ 100 := by
  intro j' after
  cases absent : r with
  | none =>
    obtain ⟨s, -, -, rfl, -⟩ := life.appears absent after
    have sound := s.sound
    exact ⟨⟨sound.backoffBaseSecs, sound.backoffMaxSecs.1, sound.backoffMaxSecs.2⟩, sound.maxAttempts.2⟩
  | some j =>
    obtain ⟨j'', after', same⟩ | ⟨-, -, gone⟩ := life.survives absent
    · obtain rfl := Option.some.inj (after.symm.trans after')
      obtain ⟨ok, few⟩ := before j absent
      refine ⟨⟨?_, ?_, ?_⟩, ?_⟩
      · exact same.backoffBaseSecs ▸ ok.base
      · exact same.backoffBaseSecs ▸ same.backoffMaxSecs ▸ ok.ordered
      · exact same.backoffMaxSecs ▸ ok.ceiling
      · exact same.maxAttempts ▸ few
    · cases after.symm.trans gone

/-- A failed attempt leaves its row due after the backoff. -/
theorem RowStep.retried {env : Env} {db : Db} {id : Uuid} {c : Call} {p : Progress} {j j' : Job}
    (life : RowStep env db id c p (some j) (some j')) (processing : j.status = .processing)
    (retrying : j'.status = .retrying) (ok : j.BackoffOk) (first : 1 ≤ j.attempts)
    (counted : j.attempts < 4294967296) : j'.runAt = env.now + seconds (j.backoffSecs j.attempts) := by
  generalize before : some j = r at life
  generalize after : some j' = r' at life
  cases life with
  | failed =>
    obtain rfl := Option.some.inj before
    obtain rfl := Option.some.inj after
    rw [← ok.failDelaySecs first counted]
    unfold Job.failUpdate at retrying ⊢
    split_ifs at retrying ⊢
    · cases retrying
    · cases retrying
    · rfl
  | expiredRetrying =>
    obtain rfl := Option.some.inj before
    obtain rfl := Option.some.inj after
    rw [← Job.expiryDelaySecs_eq first]
    rfl
  | same =>
    obtain rfl := Option.some.inj (before.trans after.symm)
    cases processing.symm.trans retrying
  | inserted => cases before
  | purged => cases after
  | renewed =>
    obtain rfl := Option.some.inj before
    obtain rfl := Option.some.inj after
    cases processing.symm.trans retrying
  | _ =>
    obtain rfl := Option.some.inj after
    cases retrying

/-- All that can happen to a row that is retrying: it is leased once it is due, or cancelled. -/
theorem RowStep.of_retrying {env : Env} {db : Db} {id : Uuid} {c : Call} {p : Progress} {j : Job} {r' : Option Job}
    (life : RowStep env db id c p (some j) r') (retrying : j.status = .retrying) :
    r' = some j ∨ j.runAt ≤ env.now ∨ ∃ j', r' = some j' ∧ j'.status = .cancelled := by
  generalize before : some j = r at life
  cases life with
  | same => exact .inl rfl
  | leased _ ready =>
    obtain rfl := Option.some.inj before
    exact .inr (.inl ready)
  | cancelled => exact .inr (.inr ⟨_, rfl, rfl⟩)
  | inserted => cases before
  | renewed processing =>
    obtain rfl := Option.some.inj before
    cases processing.symm.trans retrying
  | completed processing =>
    obtain rfl := Option.some.inj before
    cases processing.symm.trans retrying
  | failed processing =>
    obtain rfl := Option.some.inj before
    cases processing.symm.trans retrying
  | requeued ended =>
    obtain rfl := Option.some.inj before
    simp [retrying] at ended
  | expiredRetrying _ expired =>
    obtain rfl := Option.some.inj before
    simp [Db.processing_of_expired expired] at retrying
  | expiredDeadLettered _ expired =>
    obtain rfl := Option.some.inj before
    simp [Db.processing_of_expired expired] at retrying
  | expiredFailed _ expired =>
    obtain rfl := Option.some.inj before
    simp [Db.processing_of_expired expired] at retrying
  | purged ended =>
    obtain rfl := Option.some.inj before
    simp [retrying] at ended

/-- The job `id` is not leased before `due`. -/
inductive Sys.Delayed (id : Uuid) (due : Int) (s : Sys) : Prop where
  | waiting {j : Job} (row : s.db.job? id = some j) (retrying : j.status = .retrying) (runAt : j.runAt = due)
  | cancelled {j : Job} (row : s.db.job? id = some j) (status : j.status = .cancelled)
  | gone (row : s.db.job? id = none) (drawn : id ∈ s.issued)
  | elapsed (past : due ≤ s.clock)

namespace Sys.Delayed

variable {id : Uuid} {due : Int} {s s' : Sys} {l : Label}

/-- **One step** that is no retry of the job keeps the delay. -/
theorem step (delayed : s.Delayed id due) (sound : s.Sound) (step : Step s l s')
    (noRetry : l.wrote Call.isRetry id = false) : s'.Delayed id due := by
  have later := step.clock
  obtain ⟨-, same⟩ | ⟨i, u, rfl, -, on, now, fresh, after, life⟩ := step.row sound id
  · cases delayed with
    | waiting row retrying runAt => exact .waiting (same.trans row) retrying runAt
    | cancelled row status => exact .cancelled (same.trans row) status
    | gone row drawn => exact .gone (same.trans row) (step.issued drawn)
    | elapsed past => exact .elapsed (le_trans past later)
  · cases delayed with
    | waiting row retrying runAt =>
      rw [row] at life
      obtain kept | ready | ⟨j', row', status⟩ := life.of_retrying retrying
      · exact .waiting kept retrying runAt
      · refine .elapsed ?_
        omega
      · exact .cancelled row' status
    | cancelled row status =>
      rw [row] at life
      obtain kept | ⟨-, -, gone⟩ | ⟨retry, written, -⟩ := life.of_ended (by simp [status])
      · exact .cancelled kept status
      · refine .gone gone (step.issued ?_)
        rw [← Db.job?_id row]
        exact sound.issued _ (Db.job?_mem row)
      · exact absurd (noRetry.symm.trans (Label.wrote_commit.2 ⟨retry, written⟩)) Bool.false_ne_true
    | gone row drawn =>
      cases row' : s'.db.job? id with
      | none => exact .gone row' (step.issued drawn)
      | some j' =>
        rw [row'] at life
        obtain ⟨_, -, -, eq, isId⟩ := life.appears row rfl
        have isNew : id = u.env.uuid := by rw [← isId, eq]; rfl
        exact absurd (isNew ▸ drawn) fresh
    | elapsed past => exact .elapsed (le_trans past later)

theorem run {t : Int} {pre ls : List Label} (before : Run Step (Sys.init t) pre s) (run : Run Step s ls s')
    (delayed : s.Delayed id due) (noRetry : ∀ l ∈ ls, l.wrote Call.isRetry id = false) : s'.Delayed id due := by
  induction run with
  | nil => exact delayed
  | snoc run last ih =>
    have earlier := ih fun l mem => noRetry l (List.mem_append_left _ mem)
    exact earlier.step (Sys.sound_of_run (before.append run)) last (noRetry _ (by simp))

/-- A lease of the job finds it due. -/
theorem lease {i : Nat} {u : Commit} (delayed : s.Delayed id due) (sound : s.Sound) (step : Step s (.commit i u) s')
    {worker : Uuid} {job : Job} (leased : u.lease = some (worker, job)) (isId : job.id = id) : due ≤ u.env.now := by
  obtain ⟨-, on, now, fresh, -⟩ := step.commit_inv
  obtain ⟨j, -, row, -, -, waiting, ready⟩ := (sound.row_step on fresh id).of_lease leased isId
  cases delayed with
  | waiting row' _ runAt =>
    obtain rfl := Option.some.inj (row.symm.trans row')
    omega
  | cancelled row' status =>
    obtain rfl := Option.some.inj (row.symm.trans row')
    simp [status] at waiting
  | gone row' => cases row.symm.trans row'
  | elapsed past => omega

end Sys.Delayed

/-- **Backoff is honoured.** Where a unit takes a job from `processing` to
`retrying` (a `fail_job` or a statement of the reaper; it ends attempt
`j.attempts`) and a later unit leases it, with no `retry_job` of it in between, the
lease comes no earlier than the documented backoff after the end of the attempt. -/
theorem backoff_honoured {t : Int} {pre mid post : List Label} {i k : Nat} {u v : Commit} {s : Sys} {id : Uuid}
    {j j' : Job} (run : Run Step (Sys.init t) (pre ++ .commit i u :: (mid ++ .commit k v :: post)) s)
    (before : u.db.job? id = some j) (processing : j.status = .processing) (after : u.after.job? id = some j')
    (retrying : j'.status = .retrying) (noRetry : ∀ l ∈ mid, l.wrote Call.isRetry id = false) {worker : Uuid}
    {job : Job} (leased : v.lease = some (worker, job)) (isId : job.id = id) :
    u.env.now + seconds (min (j.backoffBaseSecs * 2 ^ (j.attempts - 1).toNat) j.backoffMaxSecs) ≤ v.env.now := by
  obtain ⟨s₀, s₁, start, ends, rest⟩ := run.at_label
  obtain ⟨s₂, s₃, waits, leases, -⟩ := rest.at_label
  obtain ⟨-, on, -, fresh, rfl⟩ := ends.commit_inv
  have stored : j ∈ s₀.db.jobs := Db.job?_mem (on ▸ before)
  obtain ⟨ok, few⟩ := Sys.row_invariant Job.BackoffOk.row_step start j stored
  have budget := Sys.budget_of_run start j stored
  have life := (Sys.sound_of_run start).row_step on fresh id
  rw [← on, before, after] at life
  have first := budget.started (by simp [processing])
  have most := budget.bounds.2
  have due := life.retried processing retrying ok first (by omega)
  have delayed : (s₀.commit i u).Delayed id j'.runAt := .waiting after retrying rfl
  have through := start.snoc ends
  have ready := (delayed.run through waits noRetry).lease (Sys.sound_of_run (through.append waits)) leases leased isId
  rw [due] at ready
  exact ready

/-- The first attempt of the sample job fails, and it is leased again as soon as it is due. -/
def backoffScript : List Action :=
  Action.submit 0 (.sample 2 none NewJob.sample_twice) 7 ++ Action.call 1 (.leaseNext 1 ["emails"] 60) ++
    Action.call 2 (.failJob 7 1 "boom" false) ++ [.tick 2000000] ++ Action.call 3 (.leaseNext 1 ["emails"] 60)

theorem backoff_honoured_first : (0 : Int) + seconds (min (2 * 2 ^ (1 - 1 : Int).toNat) 300) ≤ 2000000 := by
  let failure : Commit := ⟨.start (.failJob 7 1 "boom" false), ⟨0, [], 3002⟩,
    ((Sys.init 0).replay (backoffScript.take 7)).db⟩
  let lease : Commit := ⟨.start (.leaseNext 1 ["emails"] 60), ⟨2000000, [], 3003⟩,
    ((Sys.init 0).replay (backoffScript.take 10)).db⟩
  have run : Run Step (Sys.init 0) ((Sys.init 0).trace (backoffScript.take 7) ++ .commit 2 failure ::
      ([.tick 2000000, .begin 3 (.leaseNext 1 ["emails"] 60)] ++ .commit 3 lease :: []))
      ((Sys.init 0).replay backoffScript) :=
    @Sys.replay_run (Sys.init 0) backoffScript (by decide)
  have before : failure.db.job? 7 = some ((Job.sample 2 none).setLeased 0 1 60) := by decide
  have after : failure.after.job? 7 = some (((Job.sample 2 none).setLeased 0 1 60).setRetrying 0 "boom" 2) := by
    decide
  have leased : lease.lease =
      some (1, (((Job.sample 2 none).setLeased 0 1 60).setRetrying 0 "boom" 2).setLeased 2000000 1 60) := by
    decide
  exact backoff_honoured run before rfl after rfl (by decide) leased rfl

end Djq
