import Djq.Recovery.Disposal
import Djq.Recovery.Sweeps

/-!
# What sweeps leave behind

Each statement of the reaper takes one kind of jobs, up to its limit. One that
does not use its limit up has taken every lease of its kind that had expired, and
what commits afterwards brings none of them back.
-/

namespace Djq

open Relational Transition

namespace Call

/-- The seconds a lease or a renewal is for. -/
def leaseSecs : Call → Option Int
  | .start (.leaseNext _ _ secs) => some secs
  | .start (.renewLease _ _ secs) => some secs
  | _ => none

end Call

def Label.leaseSecs : Label → Option Int
  | .commit _ u => u.call.leaseSecs
  | _ => none

/-- The leases and renewals of a run are for no negative time. -/
def Granted (ls : List Label) : Prop := ∀ l ∈ ls, ∀ secs ∈ l.leaseSecs, 0 ≤ secs

/-- No lease of the kind expired before `since`. -/
def Db.Clear (o : Verdict) (since : Int) (db : Db) : Prop :=
  ∀ j ∈ db.jobs, j.verdict = o → j.leaseExpired since = false

/-! ## One statement -/

section Statement

variable {env : Env} {db : Db} {o : Verdict} {limit : Int}

end Statement

/-! ## Old leases do not come back -/

/-- A row whose lease has expired long ago is one the unit has not written. -/
theorem RowStep.of_expired {env : Env} {db : Db} {id : Uuid} {c : Call} {p : Progress} {r : Option Job} {j' : Job}
    {since : Int} (life : RowStep env db id c p r (some j')) (granted : ∀ secs ∈ c.leaseSecs, 0 ≤ secs)
    (past : since ≤ env.now) (late : j'.leaseExpired since = true) : r = some j' ∧ id ∉ c.written p := by
  obtain ⟨processing, e, isLease, less⟩ := of_decide_eq_true late
  generalize after : some j' = r' at life
  cases life with
  | same quiet => exact ⟨rfl, quiet⟩
  | inserted eq =>
    obtain rfl := Option.some.inj after
    rw [eq] at isLease
    cases isLease
  | @leased worker queues secs j =>
    obtain rfl := Option.some.inj after
    obtain rfl : env.now + seconds secs = e := Option.some.inj isLease
    have positive := granted secs rfl
    unfold seconds at less
    omega
  | @renewed worker secs j =>
    obtain rfl := Option.some.inj after
    obtain rfl : env.now + seconds secs = e := Option.some.inj isLease
    have positive := granted secs rfl
    unfold seconds at less
    omega
  | @failed _ error _ j =>
    obtain rfl := Option.some.inj after
    have ended := j.failUpdate_status env.now j error
    rw [processing] at ended
    exact absurd ended (by decide)
  | purged => cases after
  | _ =>
    obtain rfl := Option.some.inj after
    cases isLease

section Steps

variable {s s' : Sys} {l : Label} {o : Verdict} {since : Int}

/-- A state that is clear stays clear. -/
theorem Step.clear (step : Step s l s') (sound : s.Sound)
    (granted : ∀ secs ∈ l.leaseSecs, 0 ≤ secs) (past : since ≤ s.clock)
    (clear : s.db.Clear o since) : s'.db.Clear o since := by
  intro j' mem verdict
  rw [Bool.eq_false_iff]
  intro late
  have row' : s'.db.job? j'.id = some j' := (step.sound sound).keyed.lookup_self mem
  have there : s.db.job? j'.id = some j' := by
    obtain ⟨-, same⟩ | ⟨i, u, rfl, -, -, now, -, -, life⟩ := step.row sound j'.id
    · rw [← same, row']
    · rw [row'] at life
      exact (life.of_expired granted (by omega) late).1
  exact Bool.false_ne_true ((clear j' (Db.job?_mem there) verdict).symm.trans late)

theorem Run.clear {ls : List Label} (run : Run Step s ls s') (sound : s.Sound) (granted : Granted ls)
    (past : since ≤ s.clock) (clear : s.db.Clear o since) : s'.db.Clear o since := by
  induction run with
  | nil => exact clear
  | @snoc ls s₁ l s₂ before last ih =>
    have clear₁ := ih fun k mem => granted k (List.mem_append_left _ mem)
    have sound₁ := before.invariant sound fun _ _ _ sound step => step.sound sound
    have later := Run.clock before
    exact last.clear sound₁ (granted l (List.mem_append_right _ (List.mem_singleton_self l))) (by omega) clear₁

end Steps

end Djq
