import Djq.System.Events
import Djq.Transition.Latest

/-!
# Pausing a queue

A queue is paused exactly where the last word on it, `pause` or `resume`, was
`pause`. While it is, no job of the queue is handed out; every job of it that is due
can be handed out again from the resumption on.
-/

namespace Djq

open Relational Transition

/-- What a call of `set_queue_paused` that found its queue says of the queue `name`. -/
def Call.pauses (name : String) : Call → Progress → Option Bool
  | .start (.setQueuePaused name' paused), .done (.ok _) => if name' = name then some paused else none
  | _, _ => none

def Label.pauses (name : String) : Label → Option Bool
  | .commit _ u => u.call.pauses name u.reply
  | _ => none

/-- The pause flag of a queue; a queue that does not exist yet will not be paused. -/
def Db.paused (db : Db) (name : String) : Bool := ((db.queue? name).map Queue.paused).getD false

section Unit

variable {env : Env} {db : Db} {name : String}

theorem Db.ensureQueue_paused (name' : String) : (db.ensureQueue env name').paused name = db.paused name := by
  unfold Db.paused Db.queue? Db.ensureQueue insertIgnore
  split
  · rfl
  · rename_i absent
    simp only [lookup_append]
    cases row : lookup Queue.name name db.queues with
    | some q => rfl
    | none =>
      simp only [Option.none_or]
      split <;> rfl

theorem Db.setQueuePaused_paused (name' : String) (paused : Bool) :
    (db.setQueuePaused name' paused).1.paused name =
      if name' = name ∧ (db.setQueuePaused name' paused).2.isSome then paused else db.paused name := by
  have row : (db.setQueuePaused name' paused).1.queue? name =
      (db.queue? name).map fun q => if decide (q.name = name') then { q with paused := paused } else q := by
    apply lookup_updateWhere
    intro q
    rfl
  unfold Db.paused
  rw [row]
  cases found : db.queue? name with
  | none =>
    have missing : name' = name → (db.setQueuePaused name' paused).2 = none := by
      rintro rfl
      have none := lookup_none_iff.1 found
      simp only [Db.setQueuePaused, returning, List.head?_eq_none_iff, List.map_eq_nil_iff, List.filter_eq_nil_iff,
        decide_eq_true_eq]
      exact none
    rw [if_neg]
    · rfl
    · rintro ⟨same, some⟩
      rw [missing same] at some
      cases some
  | some q =>
    have own : q.name = name := (lookup_mem found).2
    by_cases same : name' = name
    · subst same
      have hit : (db.setQueuePaused name' paused).2.isSome = true := by
        rw [← Option.not_isNone, Bool.not_eq_true', Option.isNone_eq_false_iff]
        rw [Option.isSome_iff_ne_none]
        intro none
        have miss := returning_none none q (lookup_mem found).1
        simp [own] at miss
      rw [if_pos ⟨rfl, hit⟩, Option.map_some, if_pos (decide_eq_true own)]
      rfl
    · have other : ¬ q.name = name' := fun eq => same (eq.symm.trans own)
      rw [if_neg (fun both => same both.1), Option.map_some, if_neg (by simpa using other)]

/-- The units that write `queues`. -/
def Call.writesQueues : Call → Bool
  | .start (.ensureQueue _) | .start (.submit _) | .start (.setQueuePaused _ _) => true
  | _ => false

/-- The other units leave `queues` alone. -/
theorem Call.queues_same (env : Env) (db : Db) {c : Call} (other : c.writesQueues = false) :
    (c.step env db).1.queues = db.queues := by
  cases c with
  | start request =>
    cases request with
    | ensureQueue name => cases other
    | submit s => cases other
    | setQueuePaused name paused => cases other
    | cancelJob id =>
      rw [cancelJob_fst]
      rfl
    | retryJob id =>
      rw [retryJob_fst]
      rfl
    | leaseNext worker queues secs => exact db.leaseNext_queues env worker queues secs
    | completeJob id worker result =>
      rw [completeJob_fst]
      exact db.completeJob_queues env id worker result
    | failJob id worker error timedOut =>
      rw [failJob_fst]
      exact db.failJob_queues env id worker error timedOut
    | recoverExpiredLeases limit =>
      rw [recoverExpiredLeases_fst]
      split
      · rfl
      · rfl
    | _ => rfl
  | submitInsert s =>
    rw [submitInsert_fst]
    exact db.insertJob_queues env s.job
  | submitReadQueue s => rw [submitReadQueue_fst]
  | submitLookup s => rw [submitLookup_fst]
  | submitFallback s => rw [submitFallback_fst]
  | _ => rfl

theorem Call.pauses_silent {c : Call} {p : Progress} (other : c.writesQueues = false) : c.pauses name p = none := by
  unfold pauses
  split
  · cases other
  · rfl

/-- A unit sets the flag of a queue to what it says of it. -/
theorem Call.step_paused (c : Call) :
    (c.step env db).1.paused name = (c.pauses name (c.step env db).2).getD (db.paused name) := by
  cases writes : c.writesQueues with
  | false =>
    rw [c.pauses_silent writes, Option.getD_none]
    unfold Db.paused Db.queue?
    rw [c.queues_same env db writes]
  | true =>
    unfold writesQueues at writes
    split at writes
    · exact Db.ensureQueue_paused _
    · exact Db.ensureQueue_paused _
    · rename_i name' paused
      show (db.setQueuePaused name' paused).1.paused name = _
      rw [Db.setQueuePaused_paused]
      simp only [step, pauses]
      cases queue : (db.setQueuePaused name' paused).2 with
      | none => simp [found, Except.map]
      | some q =>
        simp only [found, Except.map, Option.isSome_some, and_true]
        by_cases same : name' = name
        · rw [if_pos same, if_pos same, Option.getD_some]
        · rw [if_neg same, if_neg same, Option.getD_none]
    · cases writes

end Unit

/-! ## Runs -/

/-- A queue is paused where the last word on it was. -/
theorem Sys.paused_of_run {t : Int} {ls : List Label} {s : Sys} (run : Run Step (Sys.init t) ls s) (name : String) :
    s.db.paused name = (latest (Label.pauses name) ls).getD false := by
  apply run.latest (fun s => s.db.paused name)
  intro ls s l s' _ step
  cases step with
  | @commit i u inFlight on now fresh =>
    show (u.call.step u.env u.db).1.paused name = _
    rw [u.call.step_paused, ← on]
    rfl
  | _ => rfl

theorem Sys.queue_keyed_of_run {t : Int} {ls : List Label} {s : Sys} (run : Run Step (Sys.init t) ls s) :
    Keyed Queue.name s.db.queues := by
  apply run.invariant
  · exact List.nodup_nil
  · intro s l s' keyed step
    cases step with
    | @commit i u inFlight on now fresh =>
      show Keyed Queue.name (u.call.step u.env u.db).1.queues
      rw [on]
      cases writes : u.call.writesQueues with
      | false => exact (u.call.queues_same u.env s.db writes).symm ▸ keyed
      | true =>
        generalize u.call = c at writes
        unfold Call.writesQueues at writes
        split at writes
        · exact keyed.insertIgnore
        · exact keyed.insertIgnore
        · apply keyed.updateWhere
          intro q
          rfl
        · cases writes
    | _ => exact keyed

end Djq
