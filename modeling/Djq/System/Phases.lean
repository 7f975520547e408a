import Djq.Core.Error
import Djq.System.Events

/-!
# The units of a call

What a call in flight has committed so far, in order, and what is left of it. A
property of a whole call is then an induction over its units, with the other
clients out of sight.
-/

namespace Djq

open Relational Transition

/-- What is left of a call after a unit is in a later phase. -/
theorem Call.Follows.not_start {c c' : Call} (follows : c.Follows c') (request : Request) : c' ≠ .start request := by
  cases follows with
  | _ => simp

theorem Commit.not_start {u : Commit} {request : Request} : u.reply ≠ .next (.start request) := by
  intro next
  exact (Call.follows next).not_start request rfl

/-- The units a call has gone through, each begun on what the one before left of it. -/
inductive Call.Ran (c : Call) : List Commit → Progress → Prop where
  | start : Ran c [] (.next c)
  | unit {us : List Commit} {u : Commit} (before : Ran c us (.next u.call)) : Ran c (us ++ [u]) u.reply

namespace Label

/-- The unit of the call `i` that a label commits. -/
def unitOf (i : Nat) : Label → Option Commit
  | .commit k u => if k = i then some u else none
  | _ => none

theorem unitOf_commit {i k : Nat} {u v : Commit} : (Label.commit k u).unitOf i = some v ↔ k = i ∧ u = v := by
  simp only [unitOf, Option.ite_none_right_eq_some, Option.some.injEq]

end Label

/-- The units of the call `i`. -/
def units (i : Nat) (ls : List Label) : List Commit := ls.filterMap (Label.unitOf i)

theorem units_snoc (i : Nat) (ls : List Label) (l : Label) : units i (ls ++ [l]) = units i ls ++ (l.unitOf i).toList := by
  rw [units, units, List.filterMap_append]
  cases found : l.unitOf i with
  | none => simp [found]
  | some u => simp [found]

theorem mem_units {i : Nat} {ls : List Label} {u : Commit} : u ∈ units i ls ↔ .commit i u ∈ ls := by
  simp only [units, List.mem_filterMap]
  constructor
  · rintro ⟨l, mem, found⟩
    cases l with
    | commit k v =>
      obtain ⟨rfl, rfl⟩ := Label.unitOf_commit.1 found
      exact mem
    | _ => cases found
  · intro mem
    exact ⟨_, mem, Label.unitOf_commit.2 ⟨rfl, rfl⟩⟩

/-- What the labels say of the calls: their units, and whether they are still in flight. -/
structure Sys.Phased (ls : List Label) (s : Sys) : Prop where
  begun : ∀ i request, .begin i request ∈ ls → i < s.nextCall ∧ ∃ p, (Call.start request).Ran (units i ls) p ∧
    (s.calls i = p.pending ∨ s.calls i = none)
  new : ∀ i, s.nextCall ≤ i → units i ls = []

theorem Sys.phased_of_run {t : Int} {ls : List Label} {s : Sys} (run : Run Step (Sys.init t) ls s) : s.Phased ls := by
  apply run.history
  · constructor
    · intro i request mem
      exact absurd mem List.not_mem_nil
    · intro i _
      rfl
  · intro ls s l s' before phased step
    have sound := Sys.sound_of_run before
    have quiet : (∀ i, l.unitOf i = none) → ∀ i, units i (ls ++ [l]) = units i ls := by
      intro none i
      rw [units_snoc, none, Option.toList_none, List.append_nil]
    -- The calls that were begun before, where the step neither begins a call nor commits a unit.
    have kept : (∀ i request, l ≠ .begin i request) → (∀ i, l.unitOf i = none) → s.nextCall = s'.nextCall →
        (∀ i, s'.calls i = s.calls i ∨ s'.calls i = none) → s'.Phased (ls ++ [l]) := by
      intro noBegin none same calls
      constructor
      · intro i request mem
        obtain ⟨given, p, ran, inFlight⟩ := phased.begun i request (by
          rcases List.mem_append.1 mem with mem | mem
          · exact mem
          · exact absurd (List.mem_singleton.1 mem).symm (noBegin i request))
        refine ⟨same ▸ given, p, (quiet none i).symm ▸ ran, ?_⟩
        rcases calls i with eq | gone
        · exact eq ▸ inFlight
        · exact .inr gone
      · intro i le
        rw [quiet none i]
        exact phased.new i (same ▸ le)
    cases step with
    | tick => exact kept (by simp) (fun _ => rfl) rfl fun i => .inl rfl
    | reorder => exact kept (by simp) (fun _ => rfl) rfl fun i => .inl rfl
    | begin request =>
      have none : ∀ i, (Label.begin s.nextCall request).unitOf i = none := fun _ => rfl
      constructor
      · intro i request' mem
        rw [quiet none i]
        rcases List.mem_append.1 mem with mem | mem
        · obtain ⟨given, p, ran, inFlight⟩ := phased.begun i request' mem
          refine ⟨Nat.lt_succ_of_lt given, p, ran, ?_⟩
          show s.setCall _ _ i = _ ∨ s.setCall _ _ i = _
          rw [s.setCall_other _ (Nat.ne_of_lt given)]
          exact inFlight
        · obtain ⟨rfl, rfl⟩ := Label.begin.inj (List.mem_singleton.1 mem)
          rw [phased.new _ (Nat.le_refl _)]
          exact ⟨Nat.lt_succ_self _, _, .start, .inl (s.setCall_self _ _)⟩
      · intro i le
        rw [quiet none i]
        exact phased.new i (Nat.le_of_succ_le le)
    | @commit k u inFlight =>
      have given := sound.lt_nextCall inFlight
      constructor
      · intro i request mem
        obtain ⟨given', p, ran, left⟩ := phased.begun i request (by
          rcases List.mem_append.1 mem with mem | mem
          · exact mem
          · cases List.mem_singleton.1 mem)
        refine ⟨given', ?_⟩
        show ∃ p, Call.Ran _ (units i (ls ++ [.commit k u])) p ∧ (s.setCall _ _ i = _ ∨ s.setCall _ _ i = _)
        rw [units_snoc]
        by_cases this : k = i
        · subst this
          have here : p.pending = some u.call := by
            rcases left with eq | gone
            · exact eq.symm.trans inFlight
            · cases gone.symm.trans inFlight
          obtain ⟨c⟩ | ⟨result⟩ := p
          · obtain rfl : c = u.call := Option.some.inj here
            rw [Label.unitOf, if_pos rfl, Option.toList_some]
            exact ⟨u.reply, .unit ran, .inl (s.setCall_self _ _)⟩
          · cases here
        · rw [Label.unitOf, if_neg this, Option.toList_none, List.append_nil, s.setCall_other _ (Ne.symm this)]
          exact ⟨p, ran, left⟩
      · intro i le
        have other : k ≠ i := Nat.ne_of_lt (Nat.lt_of_lt_of_le given le)
        rw [units_snoc, Label.unitOf, if_neg other, phased.new i le]
        rfl
    | @stop k =>
      apply kept (by simp) (fun _ => rfl) rfl
      intro i
      by_cases this : i = k
      · subst this
        exact .inr (s.setCall_self _ _)
      · exact .inl (s.setCall_other _ this)

/-- The first unit of a call, and what follows it. -/
theorem Call.Ran.forward {c : Call} {us : List Commit} {p : Progress} (ran : c.Ran us p) :
    us = [] ∧ p = .next c ∨ ∃ u vs, us = u :: vs ∧ u.call = c ∧
      (u.reply = p ∧ vs = [] ∨ ∃ c', u.reply = .next c' ∧ c'.Ran vs p) := by
  induction ran with
  | start => exact .inl ⟨rfl, rfl⟩
  | @unit us u before ih =>
    obtain ⟨rfl, here⟩ | ⟨w, vs, rfl, first, ⟨next, rfl⟩ | ⟨c', next, ran⟩⟩ := ih
    · exact .inr ⟨u, [], rfl, Progress.next.inj here, .inl ⟨rfl, rfl⟩⟩
    · exact .inr ⟨w, [u], rfl, first, .inr ⟨u.call, next, .unit .start⟩⟩
    · exact .inr ⟨w, vs ++ [u], rfl, first, .inr ⟨c', next, ran.unit⟩⟩

/-- What follows the unit `u` of a call that ends with `result`. -/
def Commit.Then (u : Commit) (vs : List Commit) (result : Except QueueError Value) : Prop :=
  u.reply = .done result ∧ vs = [] ∨ ∃ c', u.reply = .next c' ∧ c'.Ran vs (.done result)

namespace Commit.Then

variable {u : Commit} {vs : List Commit} {result : Except QueueError Value} (rest : u.Then vs result)
include rest

end Commit.Then

/-- The first unit of a call that has come to its end. -/
theorem Call.Ran.first {c : Call} {us : List Commit} {result : Except QueueError Value} (ran : c.Ran us (.done result)) :
    ∃ env db vs, us = ⟨c, env, db⟩ :: vs ∧ Commit.Then ⟨c, env, db⟩ vs result := by
  obtain ⟨-, here⟩ | ⟨u, vs, rfl, rfl, rest⟩ := ran.forward
  · cases here
  · exact ⟨u.env, u.db, vs, rfl, rest⟩

/-- Nothing follows the last unit of a call. -/
theorem Call.Ran.last {c : Call} {us : List Commit} {p : Progress} (ran : c.Ran us p) {u : Commit} (mem : u ∈ us)
    {result : Except QueueError Value} (ends : u.reply = .done result) :
    p = .done result ∧ ∃ vs, us = vs ++ [u] ∧ c.Ran vs (.next u.call) := by
  induction ran with
  | start => exact absurd mem List.not_mem_nil
  | unit before ih =>
    rcases List.mem_append.1 mem with mem | mem
    · cases (ih mem).1
    · obtain rfl := List.mem_singleton.1 mem
      exact ⟨ends, _, rfl, before⟩

/-- A call at its start has gone through nothing. -/
theorem Call.Ran.at_start {c : Call} {us : List Commit} {p : Progress} (ran : c.Ran us p) {request : Request}
    (here : p = .next (.start request)) : us = [] ∧ c = .start request := by
  cases ran with
  | start => exact ⟨rfl, Progress.next.inj here⟩
  | unit before => exact absurd here Commit.not_start

/-- The units of a call that has come to its end. -/
theorem Sys.ran_of_run {t : Int} {ls : List Label} {s : Sys} (run : Run Step (Sys.init t) ls s) {i : Nat}
    {request : Request} (begun : .begin i request ∈ ls) {u : Commit} (mem : .commit i u ∈ ls)
    {result : Except QueueError Value} (ends : u.reply = .done result) :
    ∃ vs, units i ls = vs ++ [u] ∧ (Call.start request).Ran vs (.next u.call) := by
  obtain ⟨-, p, ran, -⟩ := (Sys.phased_of_run run).begun i request begun
  exact (ran.last (mem_units.2 mem) ends).2

/-! ## What the units of a call find -/

/-- The queue a call has made sure of. -/
def Call.ensured : Call → Option String
  | .readQueue name => some name
  | .submitReadQueue s => some s.job.queue
  | .submitLookup s => some s.job.queue
  | .submitInsert s => some s.job.queue
  | .submitFallback s => some s.job.queue
  | _ => none

/-- A unit leaves its call with the queue it has made sure of. -/
theorem Call.ensured_step {c c' : Call} {env : Env} {db : Db} (next : (c.step env db).2 = .next c')
    (before : ∀ name, c.ensured = some name → ∃ q ∈ db.queues, q.name = name) {name : String}
    (ensured : c'.ensured = some name) : ∃ q ∈ (c.step env db).1.queues, q.name = name := by
  have kept : c.ensured = some name → ∃ q ∈ (c.step env db).1.queues, q.name = name := by
    intro same
    obtain ⟨q, mem, named⟩ := before name same
    obtain ⟨q', mem', name'⟩ := c.queues_kept env db mem
    exact ⟨q', mem', name'.trans named⟩
  cases Call.follows next with
  | readQueue =>
    obtain rfl := Option.some.inj ensured
    exact insertIgnore_has
  | submitReadQueue =>
    obtain rfl := Option.some.inj ensured
    exact insertIgnore_has
  | submitLookup => exact kept ensured
  | submitInsert => exact kept ensured
  | lookupMissed => exact kept ensured
  | submitFallback => exact kept ensured
  | _ => cases ensured

theorem Sys.ensured_of_run {t : Int} {ls : List Label} {s : Sys} (run : Run Step (Sys.init t) ls s) :
    ∀ i c, s.calls i = some c → ∀ name, c.ensured = some name → ∃ q ∈ s.db.queues, q.name = name := by
  apply run.invariant
  · intro i c inFlight
    cases inFlight
  · intro s l s' ih step i c inFlight name ensured
    cases step with
    | tick => exact ih i c inFlight name ensured
    | reorder => exact ih i c inFlight name ensured
    | begin request =>
      by_cases new : i = s.nextCall
      · subst new
        obtain rfl : .start request = c := Option.some.inj ((s.setCall_self _ _).symm.trans inFlight)
        cases ensured
      · exact ih i c ((s.setCall_other _ new).symm.trans inFlight) name ensured
    | @commit k u before on =>
      by_cases this : i = k
      · subst this
        have pending : u.reply.pending = some c := (s.setCall_self _ _).symm.trans inFlight
        cases reply : u.reply with
        | done result =>
          rw [reply] at pending
          cases pending
        | next c' =>
          rw [reply] at pending
          obtain rfl := Option.some.inj pending
          exact Call.ensured_step reply (on ▸ ih i u.call before) ensured
      · obtain ⟨q, mem, named⟩ := ih i c ((s.setCall_other _ this).symm.trans inFlight) name ensured
        obtain ⟨q', mem', name'⟩ := u.call.queues_kept u.env u.db (on ▸ mem)
        exact ⟨q', mem', name'.trans named⟩
    | @stop k =>
      by_cases this : i = k
      · subst this
        cases (s.setCall_self _ _).symm.trans inFlight
      · exact ih i c ((s.setCall_other _ this).symm.trans inFlight) name ensured

/-- What a unit of a run finds. -/
structure Commit.Sound (u : Commit) : Prop where
  keyed : Keyed Job.id u.db.jobs
  unused : u.db.job? u.env.uuid = none
  ensured : ∀ name, u.call.ensured = some name → ∃ q ∈ u.db.queues, q.name = name

theorem Commit.sound_of_run {t : Int} {ls : List Label} {s : Sys} (run : Run Step (Sys.init t) ls s) {i : Nat} {u : Commit}
    (mem : .commit i u ∈ ls) : u.Sound := by
  obtain ⟨pre, post, rfl⟩ := List.append_of_mem mem
  obtain ⟨s₁, s₂, before, step, -⟩ := run.at_label
  have sound := Sys.sound_of_run before
  have ensured := Sys.ensured_of_run before
  obtain ⟨inFlight, on, -, fresh, -⟩ := step.commit_inv
  refine ⟨on ▸ sound.keyed, on ▸ sound.unused fresh, ?_⟩
  rw [on]
  exact ensured i u.call inFlight

/-! ## Refusals -/

/-- None of the units changed anything. -/
def Quiet (us : List Commit) : Prop := ∀ u ∈ us, u.after = u.db

theorem Quiet.snoc {us : List Commit} {u : Commit} (quiet : Quiet us) (last : u.after = u.db) : Quiet (us ++ [u]) := by
  intro v mem
  rcases List.mem_append.1 mem with mem | mem
  · exact quiet v mem
  · obtain rfl := List.mem_singleton.1 mem
    exact last

/-- The phases a call reaches before it has changed anything. -/
def Call.untouched : Call → Bool
  | .start _ => true
  | .rejected _ _ => true
  | _ => false

namespace Commit

variable {u : Commit}

/-- An UPDATE that matched no row leaves the table. -/
theorem after_of_rejected {op : String} {id : Uuid} (next : u.reply = .next (.rejected op id)) : u.after = u.db := by
  obtain ⟨c, env, db⟩ := u
  simp only [reply] at next
  simp only [after]
  cases Call.follows next with
  | @rejected request =>
    cases request with
    | cancelJob id' =>
      rw [Call.cancelJob_fst]
      simp only [Call.step] at next
      split at next
      · cases next
      · rename_i hit
        simp only [Db.cancelJob, update_miss (congrArg Prod.snd hit)]
    | retryJob id' =>
      rw [Call.retryJob_fst]
      simp only [Call.step] at next
      split at next
      · cases next
      · rename_i hit
        simp only [Db.requeueJob, update_miss (congrArg Prod.snd hit)]
    | completeJob id' worker result =>
      rw [Call.completeJob_fst]
      simp only [Call.step] at next
      split at next
      · cases next
      · rename_i hit
        have miss := congrArg Prod.snd hit
        unfold Db.completeJob at miss ⊢
        split at miss
        · rfl
        · cases miss
    | failJob id' worker error timedOut =>
      simp only [Call.step] at next
      split at next <;> cases next
    | recoverExpiredLeases limit =>
      simp only [Call.step] at next
      split at next <;> cases next
    | _ => cases next

/-- A unit that ends its call with an error of its client has changed nothing, nor have those
before it, unless a job that `fail_job` has failed is gone when it is read again. -/
theorem of_refused {e : QueueError} (ends : u.reply = .done (.error e)) (client : e.category ≠ .internal) :
    u.after = u.db ∧ (u.call.untouched = true ∨ ∃ id, u.call = .rereadFailed id ∧ u.db.job? id = none) := by
  obtain ⟨c, env, db⟩ := u
  simp only [reply] at ends
  simp only [after]
  cases c with
  | readQueue name =>
    simp only [Call.step] at ends
    cases row : db.queue? name with
    | none =>
      rw [row] at ends
      cases ends
      exact absurd rfl client
    | some q =>
      rw [row] at ends
      cases ends
  | submitReadQueue s =>
    simp only [Call.step] at ends
    split at ends <;> cases ends
    exact absurd rfl client
  | submitLookup s =>
    simp only [Call.step] at ends
    split at ends <;> cases ends
  | submitInsert s =>
    simp only [Call.step] at ends
    split at ends
    · cases ends
    · cases ends
      exact absurd rfl client
    · simp only at ends
      split at ends <;> cases ends
      exact absurd rfl client
  | submitFallback s =>
    simp only [Call.step] at ends
    split at ends <;> cases ends
    exact absurd rfl client
  | rejected op id => exact ⟨rfl, .inl rfl⟩
  | removeDeadLetter job => cases ends
  | rereadFailed id =>
    simp only [Call.step] at ends ⊢
    cases row : db.job? id with
    | none => exact ⟨trivial, .inr ⟨id, rfl, row⟩⟩
    | some j =>
      rw [row] at ends
      cases ends
  | recoverDeadLetter limit before => cases ends
  | recoverFailed limit before =>
    simp only [Call.step] at ends
    split at ends <;> cases ends
  | closeExpired before => cases ends
  | start request =>
    refine ⟨?_, .inl rfl⟩
    cases request with
    | setQueuePaused name paused =>
      simp only [Call.step, Db.setQueuePaused] at ends ⊢
      cases hit : (returning (fun q : Queue => decide (q.name = name)) (fun q => { q with paused := paused })
          db.queues).head? with
      | none => rw [update_miss hit]
      | some q =>
        rw [hit] at ends
        cases ends
    | cancelJob id =>
      simp only [Call.step] at ends
      split at ends <;> cases ends
    | retryJob id =>
      simp only [Call.step] at ends
      split at ends <;> cases ends
    | completeJob id worker result =>
      simp only [Call.step] at ends
      split at ends <;> cases ends
    | failJob id worker error timedOut =>
      rw [Call.failJob_fst]
      simp only [Call.step] at ends
      obtain ⟨⟨e', refused⟩, -⟩ | ⟨j, -, -, -, done⟩ := db.failJob_spec env id worker error timedOut
      · rw [refused]
      · simp only [done] at ends
        cases ends
    | renewLease id worker secs =>
      simp only [Call.step, Progress.done.injEq] at ends ⊢
      split at ends
      · rename_i none
        have miss : ∀ j ∈ db.jobs, Db.heldBy id worker j = false := by
          intro j mem
          have empty := List.filter_eq_nil_iff.1 (List.length_eq_zero_iff.1 none) j mem
          simpa using empty
        simp only [Db.renewLease, updateWhere_none miss]
      · cases ends
    | recoverExpiredLeases limit =>
      simp only [Call.step] at ends ⊢
      split at ends
      · cases ends
        exact absurd rfl client
      · cases ends
    | _ => cases ends

end Commit

/-- A call that is where nothing has been changed has changed nothing. -/
theorem Call.Ran.quiet {c : Call} {us : List Commit} {p : Progress} (ran : c.Ran us p) {c' : Call}
    (here : p = .next c') (untouched : c'.untouched = true) : Quiet us := by
  cases ran with
  | start =>
    intro u mem
    exact absurd mem List.not_mem_nil
  | @unit us u before =>
    have follows := Call.follows here
    cases c' with
    | start request => exact absurd rfl (follows.not_start request)
    | rejected op id =>
      -- The UPDATE that matched no row is the first unit of its call.
      obtain ⟨request, first⟩ : ∃ request, u.call = .start request := by
        generalize u.call = c at follows
        cases follows
        exact ⟨_, rfl⟩
      obtain ⟨rfl, -⟩ := before.at_start (congrArg Progress.next first)
      intro v mem
      obtain rfl := List.mem_singleton.1 mem
      exact Commit.after_of_rejected here
    | _ => cases untouched

/-- **A refusal is no change.** A call that ends with an error of its client, an unknown
job or queue or an operation that is not permitted, has left the database as it was
with every unit it committed, whatever the other clients have done in between. The
one exception is a `fail_job` whose job is purged before it is read again. -/
theorem refusal_changes_nothing {t : Int} {ls : List Label} {s : Sys} (run : Run Step (Sys.init t) ls s) {i : Nat}
    {request : Request} (begun : .begin i request ∈ ls) {u : Commit} (mem : .commit i u ∈ ls) {e : QueueError}
    (ends : u.reply = .done (.error e)) (client : e.category ≠ .internal) :
    (∀ v, .commit i v ∈ ls → v.after = v.db) ∨
    ∃ id worker error timedOut, request = .failJob id worker error timedOut ∧ u.call = .rereadFailed id ∧
      u.db.job? id = none := by
  obtain ⟨vs, all, before⟩ := Sys.ran_of_run run begun mem ends
  obtain ⟨last, untouched | ⟨id, reread, gone⟩⟩ := Commit.of_refused ends client
  · refine .inl fun v inside => ?_
    have quiet := (before.quiet rfl untouched).snoc last
    rw [← all] at quiet
    exact quiet v (mem_units.2 inside)
  · -- A row is read again only after `fail_job`'s transaction, the first unit of its call.
    rw [reread] at before
    generalize here : Progress.next (.rereadFailed id) = p at before
    cases before with
    | start => cases here
    | @unit us w before =>
      have follows := Call.follows here.symm
      generalize first : w.call = c at follows
      cases follows with
      | @rereadFailed id worker error timedOut =>
        obtain ⟨-, same⟩ := before.at_start (congrArg Progress.next first)
        exact .inr ⟨id, worker, error, timedOut, Call.start.inj same, reread, gone⟩

/-- A job that is retried while it waits, and the refusal. -/
def refusedScript : List Action :=
  Action.submit 0 (.sample 2 none NewJob.sample_twice) 7 ++ Action.call 1 (.retryJob 7) ++ [.commit 1 4001]

theorem refusal_changes_nothing_waiting :
    ∃ u, Label.commit 1 u ∈ (Sys.init 0).trace refusedScript ∧
      u.reply = .done (.error (.invalidOperation "retry" .queued)) ∧
      ∀ v ∈ units 1 ((Sys.init 0).trace refusedScript), v.after = v.db := by
  have run := @Sys.replay_run (Sys.init 0) refusedScript (by decide)
  have begun : Label.begin 1 (.retryJob 7) ∈ (Sys.init 0).trace refusedScript := List.mem_of_getElem? (i := 4) rfl
  obtain ⟨u, mem, ends⟩ : ∃ u, Label.commit 1 u ∈ (Sys.init 0).trace refusedScript ∧
      u.reply = .done (.error (.invalidOperation "retry" .queued)) := ⟨_, List.mem_of_getElem? (i := 6) rfl, rfl⟩
  refine ⟨u, mem, ends, ?_⟩
  obtain quiet | ⟨_, _, _, _, other, -⟩ := refusal_changes_nothing run begun mem ends (by decide)
  · exact fun v inside => quiet v (mem_units.1 inside)
  · cases other

end Djq
