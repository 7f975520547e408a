import Djq.System.Events

/-!
# A renewed lease protects the running handler

`execute_job` (`crates/worker/src/runtime.rs`) extends the lease to
`job.timeout_secs + 30` before it starts the handler, whose run it bounds by
`job.timeout_secs`. From an accepted renewal to the end of that cover nobody else
can take the job.
-/

namespace Djq

open Relational Transition

/-! ## Renewals as `execute_job` makes them -/

/-- `cover` of `execute_job`. -/
def coverSecs (job : Job) : Int := job.timeoutSecs + 30

/-- Every renewal begun in these labels is one of `execute_job`, on a job its worker was leased before. -/
def RenewalsByExecuteJob (ls : List Label) : Prop :=
  ∀ pre i id worker secs post, ls = pre ++ .begin i (.renewLease id worker secs) :: post →
    ∃ l ∈ pre, ∃ job, l.lease = some (worker, job) ∧ job.id = id ∧ secs = coverSecs job

theorem RenewalsByExecuteJob.prefix {ls ls' : List Label} (h : RenewalsByExecuteJob (ls ++ ls')) :
    RenewalsByExecuteJob ls := by
  intro pre i id worker secs post eq
  exact h pre i id worker secs (post ++ ls') (by rw [eq]; simp)

/-- A renewal in flight is for the cover of the row, if the row is still there. -/
theorem Sys.renewal_of_run {t : Int} {ls : List Label} {s : Sys} (run : Run Step (Sys.init t) ls s)
    (byExecuteJob : RenewalsByExecuteJob ls) {i : Nat} {id worker : Uuid} {secs : Int}
    (inFlight : s.calls i = some (.start (.renewLease id worker secs))) {j : Job} (row : s.db.job? id = some j) :
    secs = coverSecs j := by
  have begun : ∀ i c, s.calls i = some c → ∃ request, Label.begin i request ∈ ls ∧
      ∀ r, c = .start r → r = request := by
    apply Sys.call_invariant run
    · intro request r same
      exact (Call.start.inj same).symm
    · intro request c env db c' _ next r same
      subst same
      cases Call.follows next
  obtain ⟨request, mem, same⟩ := begun i _ inFlight
  obtain rfl := same _ rfl
  obtain ⟨pre, post, eq⟩ := List.append_of_mem mem
  obtain ⟨l, before, job, leased, rfl, rfl⟩ := byExecuteJob pre i id worker secs post eq
  have knows := Sys.knows_of_run run l (by rw [eq]; exact List.mem_append_left _ before) worker job leased
  have cover := (knows.same j row).timeoutSecs
  unfold coverSecs
  omega

/-! ## The protected row -/

/-- The row `id` is leased by `worker`, under a lease that has not run out before `until'`. -/
structure Held (id worker : Uuid) (until' : Int) (s : Sys) (j : Job) : Prop where
  row : s.db.job? id = some j
  processing : j.status = .processing
  holder : j.lockedBy = some worker
  lease : ∃ e, j.leaseExpiresAt = some e ∧ until' ≤ e

/-- The labels that give a held row up: a report of its worker, or a cancellation. -/
def givesUp (id worker : Uuid) (l : Label) : Bool :=
  l.wrote (Call.isReportBy worker) id || l.wrote Call.isCancel id

/-- Such a row has not expired. -/
theorem Held.not_expired {id worker : Uuid} {until' : Int} {s : Sys} {j : Job} (held : Held id worker until' s j)
    {env : Env} (within : env.now ≤ until') : Db.expired env j = false := by
  rw [Bool.eq_false_iff]
  intro expired
  obtain ⟨-, ⟨e, some, less⟩, -⟩ := of_decide_eq_true expired
  obtain ⟨e', lease, covers⟩ := held.lease
  obtain rfl : e' = e := Option.some.inj (lease.symm.trans some)
  omega

/-- All that can happen to a row that is leased, unexpired and not given up: a
renewal by its worker. -/
theorem RowStep.of_held {env : Env} {db : Db} {id worker : Uuid} {c : Call} {p : Progress} {j : Job} {r' : Option Job}
    (life : RowStep env db id c p (some j) r') (processing : j.status = .processing)
    (holder : j.lockedBy = some worker) (unexpired : Db.expired env j = false)
    (kept : id ∈ c.written p → c.isReportBy worker = false ∧ c.isCancel = false) :
    (r' = some j ∧ id ∉ c.written p) ∨
      ∃ secs, c = .start (.renewLease id worker secs) ∧ r' = some (j.setRenewed env.now secs) := by
  generalize before : some j = r at life
  cases life with
  | same quiet => exact .inl ⟨rfl, quiet⟩
  | inserted => cases before
  | leased leaseable =>
    obtain rfl := Option.some.inj before
    simp [processing] at leaseable
  | renewed _ holder' =>
    obtain rfl := Option.some.inj before
    obtain rfl := Option.some.inj (holder.symm.trans holder')
    exact .inr ⟨_, rfl, rfl⟩
  | completed _ holder' =>
    obtain rfl := Option.some.inj before
    obtain rfl := Option.some.inj (holder.symm.trans holder')
    have report := (kept (List.mem_singleton_self id)).1
    simp [Call.isReportBy] at report
  | failed _ holder' =>
    obtain rfl := Option.some.inj before
    obtain rfl := Option.some.inj (holder.symm.trans holder')
    have report := (kept (List.mem_singleton_self id)).1
    simp [Call.isReportBy] at report
  | cancelled =>
    have cancel := (kept (List.mem_singleton_self id)).2
    simp [Call.isCancel] at cancel
  | requeued ended =>
    obtain rfl := Option.some.inj before
    simp [processing] at ended
  | expiredRetrying _ expired =>
    obtain rfl := Option.some.inj before
    exact absurd expired (Bool.eq_false_iff.1 unexpired)
  | expiredDeadLettered _ expired =>
    obtain rfl := Option.some.inj before
    exact absurd expired (Bool.eq_false_iff.1 unexpired)
  | expiredFailed _ expired =>
    obtain rfl := Option.some.inj before
    exact absurd expired (Bool.eq_false_iff.1 unexpired)
  | purged ended =>
    obtain rfl := Option.some.inj before
    simp [processing] at ended

theorem wrote_eq_false {kind : Call → Bool} {id : Uuid} {i : Nat} {u : Commit}
    (h : id ∈ u.written → kind u.call = false) : (Label.commit i u).wrote kind id = false := by
  rw [Bool.eq_false_iff]
  intro wrote
  obtain ⟨isKind, mem⟩ := Label.wrote_commit.1 wrote
  rw [h mem] at isKind
  cases isKind

/-- **One step.** Within the cover, a step that does not give the row up leaves it
with its worker, and takes it neither by a sweep nor by a lease. -/
theorem Held.step {t until' : Int} {ls : List Label} {id worker : Uuid} {s s' : Sys} {l : Label} {j : Job}
    (run : Run Step (Sys.init t) ls s) (byExecuteJob : RenewalsByExecuteJob ls) (held : Held id worker until' s j)
    (covered : until' ≤ s.clock + seconds (coverSecs j)) (within : s.clock ≤ until') (step : Step s l s')
    (kept : givesUp id worker l = false) :
    (∃ j', Held id worker until' s' j' ∧ SameSubmission j' j) ∧
      l.wrote Call.isSweep id = false ∧ l.wrote Call.isLease id = false := by
  have sound := Sys.sound_of_run run
  obtain ⟨quiet, same⟩ | ⟨i, u, rfl, inFlight, on, now, fresh, -, life⟩ := step.row sound id
  · refine ⟨⟨j, ⟨same.trans held.row, held.processing, held.holder, held.lease⟩, .refl j⟩, ?_⟩
    cases l with
    | commit i u => exact absurd rfl (quiet i u)
    | _ => exact ⟨rfl, rfl⟩
  · have unexpired : Db.expired u.env j = false := held.not_expired (now ▸ within)
    simp only [givesUp, Bool.or_eq_false_iff] at kept
    rw [held.row] at life
    obtain ⟨row', quiet⟩ | ⟨secs, renewal, row'⟩ := life.of_held held.processing held.holder unexpired fun mem => by
      constructor
      · rw [Bool.eq_false_iff]
        intro report
        exact Bool.false_ne_true (kept.1.symm.trans (Label.wrote_commit.2 ⟨report, mem⟩))
      · rw [Bool.eq_false_iff]
        intro cancel
        exact Bool.false_ne_true (kept.2.symm.trans (Label.wrote_commit.2 ⟨cancel, mem⟩))
    · refine ⟨⟨j, ⟨row', held.processing, held.holder, held.lease⟩, .refl j⟩, ?_, ?_⟩
      · exact wrote_eq_false fun mem => absurd mem quiet
      · exact wrote_eq_false fun mem => absurd mem quiet
    · -- The renewal is one of `execute_job` too, so it asks for the cover of the same row.
      have secsEq := Sys.renewal_of_run run byExecuteJob (renewal ▸ inFlight) held.row
      have lease : until' ≤ u.env.now + seconds secs := by
        rw [secsEq, now]
        exact covered
      refine ⟨⟨_, ⟨row', held.processing, held.holder, _, rfl, lease⟩, j.setRenewed_same _ _⟩, ?_, ?_⟩
      · exact wrote_eq_false fun _ => by rw [renewal]; rfl
      · exact wrote_eq_false fun _ => by rw [renewal]; rfl

/-- **Every run.** The same over any stretch that ends within the cover. -/
theorem Held.run {t until' : Int} {pre ls : List Label} {id worker : Uuid} {s₁ s : Sys} {j : Job}
    (before : Run Step (Sys.init t) pre s₁) (run : Run Step s₁ ls s) (byExecuteJob : RenewalsByExecuteJob (pre ++ ls))
    (held : Held id worker until' s₁ j) (covered : until' ≤ s₁.clock + seconds (coverSecs j))
    (within : s.clock ≤ until') (kept : ∀ l ∈ ls, givesUp id worker l = false) :
    (∃ j', Held id worker until' s j' ∧ SameSubmission j' j) ∧
      ∀ l ∈ ls, l.wrote Call.isSweep id = false ∧ l.wrote Call.isLease id = false := by
  induction run with
  | nil => exact ⟨⟨j, held, .refl j⟩, by simp⟩
  | @snoc ls s l s' run last ih =>
    rw [← List.append_assoc] at byExecuteJob
    have earlier : s.clock ≤ until' := le_trans last.clock within
    obtain ⟨⟨j', held', same⟩, quiet⟩ :=
      ih byExecuteJob.prefix earlier fun l mem => kept l (List.mem_append_left _ mem)
    have later : s₁.clock ≤ s.clock := Run.clock run
    have cover : coverSecs j' = coverSecs j := by rw [coverSecs, coverSecs, same.timeoutSecs]
    have covered' : until' ≤ s.clock + seconds (coverSecs j') := by
      rw [cover]
      omega
    obtain ⟨⟨j'', held'', same'⟩, taken⟩ :=
      held'.step (before.append run) byExecuteJob.prefix covered' earlier last (kept l (by simp))
    refine ⟨⟨j'', held'', same'.trans same⟩, ?_⟩
    intro l' mem
    rcases List.mem_append.1 mem with mem | mem
    · exact quiet l' mem
    · obtain rfl := List.mem_singleton.1 mem
      exact taken

/-- What an accepted renewal found and left. -/
theorem RowStep.of_renewal {env : Env} {db : Db} {id worker : Uuid} {secs : Int} {value : Value} {r r' : Option Job}
    (life : RowStep env db id (.start (.renewLease id worker secs)) (.done (.ok value)) r r') :
    ∃ j, r = some j ∧ j.status = .processing ∧ j.lockedBy = some worker ∧ r' = some (j.setRenewed env.now secs) := by
  cases life with
  | same quiet => exact absurd (List.mem_singleton_self id) quiet
  | renewed processing holder => exact ⟨_, rfl, processing, holder, rfl⟩

/-- An accepted renewal of `execute_job` holds the row for its cover. -/
theorem Held.of_renewal {t : Int} {ls : List Label} {s s' : Sys} {i : Nat} {u : Commit} {id worker : Uuid}
    {secs : Int} {value : Value} (run : Run Step (Sys.init t) ls s) (byExecuteJob : RenewalsByExecuteJob ls)
    (step : Step s (.commit i u) s') (renewal : u.call = .start (.renewLease id worker secs))
    (accepted : u.reply = .done (.ok value)) :
    ∃ row, s.db.job? id = some row ∧
      Held id worker (u.env.now + seconds (coverSecs row)) s' (row.setRenewed u.env.now (coverSecs row)) := by
  obtain ⟨inFlight, on, -, fresh, rfl⟩ := step.commit_inv
  have life := (Sys.sound_of_run run).row_step on fresh id
  rw [renewal, accepted] at life
  obtain ⟨row, found, processing, holder, row'⟩ := life.of_renewal
  obtain rfl := Sys.renewal_of_run run byExecuteJob (renewal ▸ inFlight) found
  exact ⟨row, found, row', processing, holder, _, rfl, le_refl _⟩

/-- Whether a label begins a renewal. -/
def Label.beginsRenewal : Label → Bool
  | .begin _ (.renewLease _ _ _) => true
  | _ => false

theorem RenewalsByExecuteJob.one {before after : List Label} {i : Nat} {id worker : Uuid} {secs : Int}
    (none_before : ∀ l ∈ before, l.beginsRenewal = false) (none_after : ∀ l ∈ after, l.beginsRenewal = false)
    (leased : ∃ l ∈ before, ∃ job, l.lease = some (worker, job) ∧ job.id = id ∧ secs = coverSecs job) :
    RenewalsByExecuteJob (before ++ .begin i (.renewLease id worker secs) :: after) := by
  intro pre i' id' worker' secs' post eq
  rcases List.append_eq_append_iff.1 eq with ⟨mid, rfl, rest⟩ | ⟨mid, rfl, rest⟩
  · cases mid with
    | nil =>
      simp only [List.nil_append, List.cons.injEq, Label.begin.injEq, Request.renewLease.injEq] at rest
      obtain ⟨⟨rfl, rfl, rfl, rfl⟩, rfl⟩ := rest
      simpa using leased
    | cons l mid =>
      obtain ⟨-, rfl⟩ := List.cons.inj rest
      cases none_after (.begin i' (.renewLease id' worker' secs')) (by simp)
  · cases mid with
    | nil =>
      simp only [List.nil_append, List.cons.injEq, Label.begin.injEq, Request.renewLease.injEq] at rest
      obtain ⟨⟨rfl, rfl, rfl, rfl⟩, rfl⟩ := rest
      simpa using leased
    | cons l mid =>
      obtain ⟨rfl, -⟩ := List.cons.inj rest
      cases none_before (.begin i' (.renewLease id' worker' secs')) (by simp)

/-- **A renewed lease protects the handler.** Where every renewal is one of
`execute_job`, an accepted renewal keeps the job processing with its worker until
`job.timeout_secs + 30` after it, and no sweep and no lease takes the job in that
time, as long as the worker does not report and no operator cancels. -/
theorem renewed_lease_protects {t : Int} {pre post : List Label} {i : Nat} {u : Commit} {s : Sys} {id worker : Uuid}
    {secs : Int} (run : Run Step (Sys.init t) (pre ++ .commit i u :: post) s)
    (byExecuteJob : RenewalsByExecuteJob (pre ++ .commit i u :: post))
    (renewal : u.call = .start (.renewLease id worker secs)) (accepted : u.reply = .done (.ok .unit)) :
    ∃ row, u.db.job? id = some row ∧
      (s.clock ≤ u.env.now + seconds (row.timeoutSecs + 30) →
        (∀ l ∈ post, l.wrote (Call.isReportBy worker) id = false ∧ l.wrote Call.isCancel id = false) →
        (∃ j, s.db.job? id = some j ∧ j.status = .processing ∧ j.lockedBy = some worker) ∧
        ∀ l ∈ post, l.wrote Call.isSweep id = false ∧ l.wrote Call.isLease id = false) := by
  obtain ⟨s₀, s₁, before, step, after⟩ := run.at_label
  obtain ⟨-, on, now, -, eq⟩ := step.commit_inv
  obtain ⟨row, found, held⟩ := Held.of_renewal before byExecuteJob.prefix step renewal accepted
  refine ⟨row, on ▸ found, fun within undisturbed => ?_⟩
  rw [List.append_cons] at byExecuteJob
  have clock : s₁.clock = u.env.now := by rw [now, eq]; rfl
  have covered : u.env.now + seconds (coverSecs row) ≤ s₁.clock + seconds (coverSecs row) := by omega
  have kept : ∀ l ∈ post, givesUp id worker l = false := by
    intro l mem
    rw [givesUp, (undisturbed l mem).1, (undisturbed l mem).2]
    rfl
  obtain ⟨⟨j, held', -⟩, quiet⟩ := held.run (before.snoc step) after byExecuteJob covered within kept
  exact ⟨⟨j, held'.row, held'.processing, held'.holder⟩, quiet⟩

/-- Submit, lease, renew for the default timeout, and let the cover pass. -/
def coverScript : List Action :=
  Action.submit 0 (.sample 2 none NewJob.sample_twice) 7 ++ Action.call 1 (.leaseNext 1 ["emails"] 60) ++
    Action.call 2 (.renewLease 7 1 330) ++ [.tick 330000000]

/-- The renewal in it. -/
def coverRenewal : Commit :=
  ⟨.start (.renewLease 7 1 330), ⟨0, [], 3002⟩, ((Sys.init 0).replay (coverScript.take 7)).db⟩

theorem renewed_lease_protects_cover :
    (∃ j, ((Sys.init 0).replay coverScript).db.job? 7 = some j ∧ j.status = .processing ∧ j.lockedBy = some 1) ∧
    ∀ l ∈ [Label.tick 330000000], l.wrote Call.isSweep 7 = false ∧ l.wrote Call.isLease 7 = false := by
  have run : Run Step (Sys.init 0) ((Sys.init 0).trace (coverScript.take 7) ++ .commit 2 coverRenewal ::
      [.tick 330000000]) ((Sys.init 0).replay coverScript) :=
    @Sys.replay_run (Sys.init 0) coverScript (by decide)
  have byExecuteJob : RenewalsByExecuteJob ((Sys.init 0).trace (coverScript.take 6) ++
      .begin 2 (.renewLease 7 1 330) :: [.commit 2 coverRenewal, .tick 330000000]) := by
    refine .one (by decide) (by decide) ⟨.commit 1 ⟨.start (.leaseNext 1 ["emails"] 60), ⟨0, [], 3001⟩,
      ((Sys.init 0).replay (coverScript.take 5)).db⟩, ?_, (Job.sample 2 none).setLeased 0 1 60, rfl, rfl, rfl⟩
    exact List.mem_of_getElem? (i := 5) rfl
  obtain ⟨row, found, protects⟩ := renewed_lease_protects run byExecuteJob rfl rfl
  obtain rfl : (Job.sample 2 none).setLeased 0 1 60 = row := Option.some.inj found
  exact protects (by decide) (by decide)

end Djq
