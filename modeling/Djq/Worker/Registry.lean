import Djq.Recovery.Batch
import Djq.Transition.Latest
import Djq.Relational.Ordered

/-!
# The registry of workers

`workers` has one row for a worker that has registered and been neither
deregistered nor pruned. What the rows say is compared with the signs of life in
the labels of a run: which workers `list_active_workers` lists, and which ones a
sweep of the maintenance task takes for dead.
-/

namespace Djq

open Relational Transition

namespace Worker

/-- The row of a worker that registers while its row is there. -/
def setRegistered (w : Worker) (now : Int) (worker : Worker) : Worker :=
  { w with
    hostname := worker.hostname
    queues := worker.queues
    concurrency := worker.concurrency
    lastHeartbeat := now }

def setHeartbeat (now : Int) (w : Worker) : Worker := { w with lastHeartbeat := now }

end Worker

namespace Db

variable (db : Db)

def worker? (id : Uuid) : Option Worker := lookup Worker.id id db.workers

/-- `last_heartbeat > now() - within`. -/
def active (env : Env) (withinSecs : Int) (w : Worker) : Bool :=
  decide (env.now - seconds withinSecs < w.lastHeartbeat)

/-- `ORDER BY registered_at`. -/
def registeredOrder (a b : Worker) : Prop := a.registeredAt ≤ b.registeredAt

instance : DecidableRel registeredOrder := fun _ _ => inferInstanceAs (Decidable (_ ≤ _))

instance : Std.Total registeredOrder := ⟨fun _ _ => le_total _ _⟩

instance : IsTrans Worker registeredOrder := ⟨fun _ _ _ => le_trans⟩

theorem listActiveWorkers_eq (env : Env) (withinSecs : Int) :
    db.listActiveWorkers env withinSecs = orderBy registeredOrder (db.workers.filter (active env withinSecs)) :=
  rfl

end Db

/-! ## Signs of life -/

/-- What a unit lets know of a worker. -/
inductive Sign where
  | alive (beat : Int)
  | gone
  deriving DecidableEq

/-- A registration or a heartbeat that found its row is a sign of life; what a
prune does is no news of the worker. -/
def Call.sign (env : Env) (id : Uuid) : Call → Progress → Option Sign
  | .start (.registerWorker worker), _ => if worker.id = id then some (.alive env.now) else none
  | .start (.heartbeat id'), .done (.ok (.known true)) => if id' = id then some (.alive env.now) else none
  | .start (.deregisterWorker id'), _ => if id' = id then some .gone else none
  | _, _ => none

def Label.sign (id : Uuid) : Label → Option Sign
  | .commit _ u => u.call.sign u.env id u.reply
  | _ => none

/-- What a unit does to the row of the worker `id`. -/
inductive MemberStep (env : Env) (id : Uuid) : Call → Progress → Option Worker → Option Worker → Prop where
  | other {c p r} (silent : c.sign env id p = none) (noBeat : c ≠ .start (.heartbeat id))
      (spared : ∀ secs w, c = .start (.pruneDeadWorkers secs) → r = some w →
        env.now - seconds secs ≤ w.lastHeartbeat) :
      MemberStep env id c p r r
  | registered {worker p r} (isId : worker.id = id) :
      MemberStep env id (.start (.registerWorker worker)) p r
        (some { worker with registeredAt := (r.map Worker.registeredAt).getD env.now, lastHeartbeat := env.now })
  | beaten {w} :
      MemberStep env id (.start (.heartbeat id)) (.done (.ok (.known true))) (some w)
        (some { w with lastHeartbeat := env.now })
  | missed : MemberStep env id (.start (.heartbeat id)) (.done (.ok (.known false))) none none
  | deregistered {p r} : MemberStep env id (.start (.deregisterWorker id)) p r none
  | pruned {secs p w} (silentSince : w.lastHeartbeat < env.now - seconds secs) :
      MemberStep env id (.start (.pruneDeadWorkers secs)) p (some w) none

section Unit

variable {env : Env} {db : Db} {id : Uuid}

theorem worker?_registerWorker (worker : Worker) :
    (db.registerWorker env worker).worker? id =
      if (db.worker? worker.id).isSome then
        (db.worker? id).map fun w => if decide (w.id = worker.id) then w.setRegistered env.now worker else w
      else (db.worker? id).or (if worker.id = id then some { worker with
        registeredAt := env.now, lastHeartbeat := env.now } else none) := by
  unfold Db.worker? Db.registerWorker
  split
  · apply lookup_updateWhere
    intro w
    rfl
  · exact lookup_append

theorem worker?_heartbeat (worker : Uuid) :
    (db.heartbeat env worker).1.worker? id =
      (db.worker? id).map fun w => if decide (w.id = worker) then w.setHeartbeat env.now else w := by
  apply lookup_updateWhere
  intro w
  rfl

theorem member_step_register (worker : Worker) :
    MemberStep env id (.start (.registerWorker worker)) (.done (.ok .unit)) (db.worker? id)
      ((db.registerWorker env worker).worker? id) := by
  by_cases isId : worker.id = id
  · subst isId
    have after : (db.registerWorker env worker).worker? worker.id = some { worker with
        registeredAt := ((db.worker? worker.id).map Worker.registeredAt).getD env.now, lastHeartbeat := env.now } := by
      rw [worker?_registerWorker]
      cases row : db.worker? worker.id with
      | none => simp
      | some w =>
        have own : w.id = worker.id := (lookup_mem row).2
        simp [own, Worker.setRegistered]
    rw [after]
    exact .registered rfl
  · have after : (db.registerWorker env worker).worker? id = db.worker? id := by
      rw [worker?_registerWorker, if_neg isId, Option.or_none]
      cases row : db.worker? id with
      | none => simp
      | some w =>
        have other : w.id ≠ worker.id := fun same => isId (same.symm.trans (lookup_mem row).2)
        simp [other]
    rw [after]
    exact .other (by simp [Call.sign, isId]) (by simp) (by simp)

theorem member_step_heartbeat (worker : Uuid) :
    MemberStep env id (.start (.heartbeat worker)) (.done (.ok (.known (db.heartbeat env worker).2))) (db.worker? id)
      ((db.heartbeat env worker).1.worker? id) := by
  rw [worker?_heartbeat]
  cases row : db.worker? id with
  | none =>
    by_cases isId : worker = id
    · subst isId
      have missing : (db.heartbeat env worker).2 = false := by
        have none := lookup_none_iff.1 row
        simp only [Db.heartbeat, decide_eq_false_iff_not, not_lt, Nat.le_zero, List.length_eq_zero_iff,
          List.filter_eq_nil_iff, decide_eq_true_eq]
        exact none
      rw [missing]
      exact .missed
    · refine .other ?_ (by simpa using isId) (by simp)
      cases (db.heartbeat env worker).2 <;> simp [Call.sign, isId]
  | some w =>
    have own : w.id = id := (lookup_mem row).2
    by_cases isId : worker = id
    · subst isId
      have known : (db.heartbeat env worker).2 = true := by
        simp only [Db.heartbeat, decide_eq_true_eq, List.length_filter_pos_iff]
        exact ⟨w, (lookup_mem row).1, own⟩
      rw [known, Option.map_some, if_pos (decide_eq_true own)]
      exact .beaten
    · have other : w.id ≠ worker := fun same => isId (same.symm.trans own)
      rw [Option.map_some, if_neg (by simpa using other)]
      refine .other ?_ (by simpa using isId) (by simp)
      cases (db.heartbeat env worker).2 <;> simp [Call.sign, isId]

theorem member_step_deregister (keyed : Keyed Worker.id db.workers) (worker : Uuid) :
    MemberStep env id (.start (.deregisterWorker worker)) (.done (.ok .unit)) (db.worker? id)
      ((db.deregisterWorker worker).worker? id) := by
  have after : (db.deregisterWorker worker).worker? id = (db.worker? id).filter fun w => !decide (w.id = worker) :=
    keyed.lookup_deleteWhere
  rw [after]
  by_cases isId : worker = id
  · subst isId
    cases row : db.worker? worker with
    | none => exact .deregistered
    | some w =>
      have own : w.id = worker := (lookup_mem row).2
      rw [Option.filter_some, own]
      simp only [decide_true, Bool.not_true, Bool.false_eq_true, ↓reduceIte]
      exact .deregistered
  · have kept : ((db.worker? id).filter fun w => !decide (w.id = worker)) = db.worker? id := by
      cases row : db.worker? id with
      | none => rfl
      | some w =>
        have other : w.id ≠ worker := fun same => isId (same.symm.trans (lookup_mem row).2)
        simp [Option.filter_some, other]
    rw [kept]
    exact .other (by simp [Call.sign, isId]) (by simp) (by simp)

theorem member_step_prune (keyed : Keyed Worker.id db.workers) (secs : Int) {p : Progress} :
    MemberStep env id (.start (.pruneDeadWorkers secs)) p (db.worker? id)
      ((db.pruneDeadWorkers env secs).1.worker? id) := by
  have after : (db.pruneDeadWorkers env secs).1.worker? id =
      (db.worker? id).filter fun w => !decide (w.lastHeartbeat < env.now - seconds secs) :=
    keyed.lookup_deleteWhere
  rw [after]
  cases row : db.worker? id with
  | none => exact .other rfl (by simp) (by simp)
  | some w =>
    by_cases silent : w.lastHeartbeat < env.now - seconds secs
    · simp only [Option.filter_some, silent, decide_true, Bool.not_true, Bool.false_eq_true, ↓reduceIte]
      exact .pruned silent
    · simp only [Option.filter_some, silent, decide_false, Bool.not_false, ↓reduceIte]
      refine .other rfl (by simp) ?_
      intro secs' w' isPrune same
      obtain rfl := Option.some.inj same
      simp only [Call.start.injEq, Request.pruneDeadWorkers.injEq] at isPrune
      subst isPrune
      exact not_lt.1 silent

end Unit

/-- The calls that write `workers`. -/
def Call.isMembership : Call → Bool
  | .start (.registerWorker _) | .start (.heartbeat _) | .start (.deregisterWorker _) | .start (.pruneDeadWorkers _) =>
    true
  | _ => false

theorem Call.sign_of_silent {env : Env} {id : Uuid} {c : Call} {p : Progress} (silent : c.isMembership = false) :
    c.sign env id p = none := by
  unfold sign
  split
  · cases silent
  · cases silent
  · cases silent
  · rfl

/-- The other calls leave `workers` alone. -/
theorem Call.workers_kept (env : Env) (db : Db) {c : Call} (other : c.isMembership = false) :
    (c.step env db).1.workers = db.workers := by
  cases c with
  | start request =>
    cases request with
    | registerWorker worker => cases other
    | heartbeat worker => cases other
    | deregisterWorker worker => cases other
    | pruneDeadWorkers secs => cases other
    | cancelJob id =>
      rw [cancelJob_fst]
      rfl
    | retryJob id =>
      rw [retryJob_fst]
      rfl
    | leaseNext worker queues secs =>
      show (db.leaseNext env worker queues secs).1.workers = db.workers
      obtain eq | ⟨_, _, eq⟩ := db.leaseNext_fst env worker queues secs
      · rw [eq]
      · rw [eq]
        rfl
    | completeJob id worker result =>
      rw [completeJob_fst]
      obtain eq | eq := db.completeJob_fst env id worker result
      · rw [eq]
      · rw [eq]
        rfl
    | failJob id worker error timedOut =>
      rw [failJob_fst]
      obtain eq | ⟨_, _, eq⟩ := db.failJob_fst env id worker error timedOut
      · rw [eq]
      · rw [eq]
        rfl
    | recoverExpiredLeases limit =>
      rw [recoverExpiredLeases_fst]
      split
      · rfl
      · rfl
    | _ => rfl
  | submitInsert s =>
    rw [submitInsert_fst]
    obtain eq | eq := db.insertJob_fst env s.job
    · rw [eq]
    · rw [eq]
  | submitReadQueue s => rw [submitReadQueue_fst]
  | submitLookup s => rw [submitLookup_fst]
  | submitFallback s => rw [submitFallback_fst]
  | _ => rfl

/-- Every unit follows `MemberStep` on every row of `workers`. -/
theorem Call.member_step {env : Env} {db : Db} {id : Uuid} (keyed : Keyed Worker.id db.workers) (c : Call) :
    MemberStep env id c (c.step env db).2 (db.worker? id) ((c.step env db).1.worker? id) := by
  cases membership : c.isMembership with
  | false =>
    have kept : (c.step env db).1.worker? id = db.worker? id := by
      unfold Db.worker?
      rw [c.workers_kept env db membership]
    rw [kept]
    refine .other (c.sign_of_silent membership) ?_ ?_
    · rintro rfl
      cases membership
    · rintro secs w rfl
      cases membership
  | true =>
    unfold isMembership at membership
    split at membership
    · exact member_step_register _
    · exact member_step_heartbeat _
    · exact member_step_deregister keyed _
    · exact member_step_prune keyed _
    · cases membership

theorem Call.workers_keyed {env : Env} {db : Db} (keyed : Keyed Worker.id db.workers) (c : Call) :
    Keyed Worker.id (c.step env db).1.workers := by
  cases membership : c.isMembership with
  | false => exact (c.workers_kept env db membership).symm ▸ keyed
  | true =>
    unfold isMembership at membership
    split at membership
    · rename_i worker
      show Keyed Worker.id (db.registerWorker env worker).workers
      unfold Db.registerWorker
      cases row : lookup Worker.id worker.id db.workers with
      | none => exact keyed.append fun w mem => lookup_none_iff.1 row w mem
      | some w =>
        apply keyed.updateWhere
        intro w
        rfl
    · apply keyed.updateWhere
      intro w
      rfl
    · exact keyed.deleteWhere
    · exact keyed.deleteWhere
    · cases membership

theorem Sys.workers_keyed_of_run {t : Int} {ls : List Label} {s : Sys} (run : Run Step (Sys.init t) ls s) :
    Keyed Worker.id s.db.workers := by
  apply run.invariant
  · exact List.nodup_nil
  · intro s l s' keyed step
    cases step with
    | @commit i u inFlight on now fresh => exact u.call.workers_keyed (on ▸ keyed)
    | _ => exact keyed

/-! ## The rows over a run -/

namespace Label

/-- The time of a prune and the silence it allows, in seconds. -/
def prune : Label → Option (Int × Int)
  | .commit _ u =>
    match u.call with
    | .start (.pruneDeadWorkers secs) => some (u.env.now, secs)
    | _ => none
  | _ => none

/-- A prune that deletes the row of the worker `id`. -/
def evicts (id : Uuid) (l : Label) : Bool :=
  match l with
  | .commit _ u => l.prune.isSome && (u.db.worker? id).isSome && (u.after.worker? id).isNone
  | _ => false

/-- It is no prune of workers that have been silent for less than `within` seconds. -/
def Lenient (within : Int) (l : Label) : Prop := ∀ x ∈ l.prune, within ≤ x.2

instance (within : Int) (l : Label) : Decidable (l.Lenient within) := inferInstanceAs (Decidable (∀ x ∈ l.prune, _))

theorem prune_commit {i : Nat} {u : Commit} {now secs : Int} :
    (Label.commit i u).prune = some (now, secs) ↔ u.call = .start (.pruneDeadWorkers secs) ∧ u.env.now = now := by
  simp only [prune]
  split
  · rename_i secs' isPrune
    simp only [isPrune, Option.some.injEq, Prod.mk.injEq, Call.start.injEq, Request.pruneDeadWorkers.injEq]
    exact and_comm
  · rename_i noPrune
    simp only [reduceCtorEq, false_iff, not_and]
    intro isPrune
    exact absurd isPrune (noPrune secs)

theorem prune_of_not_commit {l : Label} (h : ∀ i u, l ≠ .commit i u) : l.prune = none := by
  cases l with
  | commit i u => exact absurd rfl (h i u)
  | _ => rfl

theorem sign_of_not_commit {l : Label} (h : ∀ i u, l ≠ .commit i u) (id : Uuid) : l.sign id = none := by
  cases l with
  | commit i u => exact absurd rfl (h i u)
  | _ => rfl

end Label

/-- Only a commit touches a row of `workers`. -/
theorem Step.member {s s' : Sys} {l : Label} (keyed : Keyed Worker.id s.db.workers) (step : Step s l s') (id : Uuid) :
    ((∀ i u, l ≠ .commit i u) ∧ s'.db.worker? id = s.db.worker? id) ∨
    ∃ i u, l = .commit i u ∧ u.db = s.db ∧ u.env.now = s.clock ∧ s' = s.commit i u ∧
      MemberStep u.env id u.call u.reply (s.db.worker? id) (s'.db.worker? id) := by
  cases step with
  | @commit i u inFlight on now fresh =>
    refine .inr ⟨i, u, rfl, on, now, rfl, ?_⟩
    rw [← on]
    exact u.call.member_step (on ▸ keyed)
  | tick later => exact .inl ⟨by simp, rfl⟩
  | reorder same => exact .inl ⟨by simp, rfl⟩
  | begin request => exact .inl ⟨by simp, rfl⟩
  | stop inFlight => exact .inl ⟨by simp, rfl⟩

/-- A sign of life bears the time of the clock. -/
theorem Step.alive_clock {s s' : Sys} {l : Label} (step : Step s l s') {id : Uuid} {beat : Int}
    (sign : l.sign id = some (.alive beat)) : beat = s.clock := by
  cases l with
  | commit i u =>
    obtain ⟨-, -, now, -, -⟩ := step.commit_inv
    have sign : u.call.sign u.env id u.reply = some (.alive beat) := sign
    unfold Call.sign at sign
    split at sign
    · split at sign <;> cases sign
      exact now
    · split at sign <;> cases sign
      exact now
    · split at sign <;> cases sign
    · cases sign
  | _ => cases sign

/-- What the row of a worker, or its absence, says about the signs of life in the
labels, where no prune takes a silence of less than `within` seconds for death. -/
structure Sys.Heard (within : Int) (id : Uuid) (ls : List Label) (s : Sys) : Prop where
  present : ∀ w, s.db.worker? id = some w →
    latest (Label.sign id) ls = some (.alive w.lastHeartbeat) ∧ w.registeredAt ≤ w.lastHeartbeat ∧
      w.lastHeartbeat ≤ s.clock
  absent : s.db.worker? id = none → ∀ beat, latest (Label.sign id) ls = some (.alive beat) →
    beat < s.clock - seconds within

theorem Sys.Heard.quiet {within : Int} {id : Uuid} {ls : List Label} {s s' : Sys} {l : Label}
    (heard : s.Heard within id ls) (silent : l.sign id = none) (same : s'.db.worker? id = s.db.worker? id)
    (later : s.clock ≤ s'.clock) : s'.Heard within id (ls ++ [l]) := by
  constructor
  · intro w row
    rw [latest_snoc_none silent]
    obtain ⟨said, order, past⟩ := heard.present w (same ▸ row)
    exact ⟨said, order, le_trans past later⟩
  · intro row beat said
    rw [latest_snoc_none silent] at said
    have old := heard.absent (same ▸ row) beat said
    omega

theorem Sys.Heard.step {within : Int} {id : Uuid} {ls : List Label} {s s' : Sys} {l : Label}
    (heard : s.Heard within id ls) (keyed : Keyed Worker.id s.db.workers) (step : Step s l s')
    (ttl : l.Lenient within) : s'.Heard within id (ls ++ [l]) := by
  have later := step.clock
  obtain ⟨notCommit, same⟩ | ⟨i, u, rfl, on, now, -, life⟩ := step.member keyed id
  · exact heard.quiet (Label.sign_of_not_commit notCommit id) same later
  · have sign : (Label.commit i u).sign id = u.call.sign u.env id u.reply := rfl
    have past : u.env.now ≤ s'.clock := now ▸ later
    generalize before : s.db.worker? id = r at life
    generalize after : s'.db.worker? id = r' at life
    generalize called : u.call = c at life sign
    generalize replied : u.reply = p at life sign
    cases life with
    | other silent noBeat spared => exact heard.quiet (sign.trans silent) (after.trans before.symm) later
    | missed => exact heard.quiet (by rw [sign]; rfl) (after.trans before.symm) later
    | registered isId =>
      have said : latest (Label.sign id) (ls ++ [.commit i u]) = some (.alive u.env.now) :=
        latest_snoc_some (by rw [sign, Call.sign, if_pos isId]) ls
      constructor
      · intro w row
        obtain rfl := Option.some.inj (after.symm.trans row)
        refine ⟨said, ?_, past⟩
        cases r with
        | none => exact le_refl _
        | some w =>
          obtain ⟨-, order, known⟩ := heard.present w before
          show w.registeredAt ≤ u.env.now
          omega
      · intro row
        rw [after] at row
        cases row
    | @beaten w =>
      have said : latest (Label.sign id) (ls ++ [.commit i u]) = some (.alive u.env.now) :=
        latest_snoc_some (by rw [sign, Call.sign, if_pos rfl]) ls
      constructor
      · intro w' row
        obtain rfl := Option.some.inj (after.symm.trans row)
        obtain ⟨-, order, known⟩ := heard.present w before
        refine ⟨said, ?_, past⟩
        show w.registeredAt ≤ u.env.now
        omega
      · intro row
        rw [after] at row
        cases row
    | deregistered =>
      have said : latest (Label.sign id) (ls ++ [.commit i u]) = some .gone :=
        latest_snoc_some (by rw [sign, Call.sign, if_pos rfl]) ls
      constructor
      · intro w row
        rw [after] at row
        cases row
      · intro _ beat alive
        rw [said] at alive
        cases alive
    | @pruned secs p w silentSince =>
      have silent : (Label.commit i u).sign id = none := by rw [sign]; rfl
      constructor
      · intro w row
        rw [after] at row
        cases row
      · intro _ beat said
        rw [latest_snoc_none silent, (heard.present w before).1] at said
        have enough : within ≤ secs := ttl (u.env.now, secs) (Label.prune_commit.2 ⟨called, rfl⟩)
        injection said with said
        injection said with said
        have scale : seconds within ≤ seconds secs := by
          unfold seconds
          omega
        omega

theorem Sys.heard_of_run {within t : Int} {ls : List Label} {s : Sys} (run : Run Step (Sys.init t) ls s)
    (ttl : ∀ l ∈ ls, l.Lenient within) (id : Uuid) :
    s.Heard within id ls := by
  induction run with
  | nil =>
    constructor
    · intro w row
      cases row
    · intro _ beat said
      cases said
  | snoc before last ih =>
    apply (ih fun l mem => ttl l (List.mem_append_left _ mem)).step (Sys.workers_keyed_of_run before) last
    exact ttl _ (by simp)

/-- **The active workers are those heard of.** Where no prune is stricter than the
window, `list_active_workers` lists exactly the workers whose last sign of life
lies within the window and was not followed by a deregistration, each once and
with that sign for its heartbeat, in the order of their registration: pruning is
never seen in the answer. -/
theorem active_workers_listed {within t : Int} {ls : List Label} {s : Sys} (run : Run Step (Sys.init t) ls s)
    (ttl : ∀ l ∈ ls, l.Lenient within) {env : Env} (now : env.now = s.clock)
    {rows : List Worker} (lies : rows.Perm s.db.workers) :
    let listed := { s.db with workers := rows }.listActiveWorkers env within
    (listed.map Worker.id).Nodup ∧ listed.Pairwise (fun a b => a.registeredAt ≤ b.registeredAt) ∧
      (∀ w ∈ listed, w.registeredAt ≤ w.lastHeartbeat ∧ w.lastHeartbeat ≤ s.clock) ∧
      ∀ id beat, (∃ w ∈ listed, w.id = id ∧ w.lastHeartbeat = beat) ↔
        latest (Label.sign id) ls = some (.alive beat) ∧ s.clock - seconds within < beat := by
  intro listed
  have keyed := Sys.workers_keyed_of_run run
  have mem : ∀ w, w ∈ listed ↔ w ∈ s.db.workers ∧ s.clock - seconds within < w.lastHeartbeat := by
    intro w
    show w ∈ orderBy Db.registeredOrder (rows.filter (Db.active env within)) ↔ _
    rw [mem_orderBy, List.mem_filter, lies.mem_iff, Db.active, decide_eq_true_eq, now]
  have row : ∀ w, w ∈ s.db.workers → s.db.worker? w.id = some w := fun w inside => keyed.lookup_self inside
  refine ⟨?_, orderBy_pairwise, ?_, ?_⟩
  · have kept : ((rows.filter (Db.active env within)).map Worker.id).Nodup :=
      (List.filter_sublist.map Worker.id).nodup (keyed.perm lies)
    exact (((List.perm_insertionSort _ _).map Worker.id).nodup_iff).2 kept
  · intro w inside
    exact ((Sys.heard_of_run run ttl w.id).present w (row w ((mem w).1 inside).1)).2
  · intro id beat
    have heard := Sys.heard_of_run run ttl id
    constructor
    · rintro ⟨w, inside, rfl, rfl⟩
      obtain ⟨stored, recent⟩ := (mem w).1 inside
      exact ⟨(heard.present w (row w stored)).1, recent⟩
    · rintro ⟨said, recent⟩
      cases stored : s.db.worker? id with
      | none =>
        have old := heard.absent stored beat said
        omega
      | some w =>
        obtain ⟨inside, isId⟩ := lookup_mem stored
        have same := said.symm.trans (heard.present w stored).1
        injection same with same
        injection same with same
        exact ⟨w, (mem w).2 ⟨inside, same ▸ recent⟩, isId, same.symm⟩

def Worker.sample (id : Uuid) : Worker := ⟨id, "host", ["emails"], 4, 0, 0⟩

/-- Two workers register, one of them beats, and the other is pruned. -/
def registryScript : List Action :=
  Action.call 0 (.registerWorker (.sample 1)) ++ Action.call 1 (.registerWorker (.sample 2)) ++
    [.tick (seconds 40)] ++ Action.call 2 (.heartbeat 1) ++ [.tick (seconds 70)] ++ Action.call 3 (.pruneDeadWorkers 60)

theorem active_workers_listed_pruned :
    let listed := ((Sys.init 0).replay registryScript).db.listActiveWorkers ⟨seconds 70, [], 0⟩ 60
    (∃ w ∈ listed, w.id = 1 ∧ w.lastHeartbeat = seconds 40) ∧ ¬ ∃ w ∈ listed, w.id = 2 ∧ w.lastHeartbeat = 0 := by
  have run := @Sys.replay_run (Sys.init 0) registryScript (by decide)
  have lenient : ∀ l ∈ (Sys.init 0).trace registryScript, l.Lenient 60 := by decide
  have now : (⟨seconds 70, [], 0⟩ : Env).now = ((Sys.init 0).replay registryScript).clock := by decide
  obtain ⟨-, -, -, listed⟩ := active_workers_listed run lenient now (List.Perm.refl _)
  exact ⟨(listed 1 (seconds 40)).2 (by decide), fun stale => absurd ((listed 2 0).1 stale) (by decide)⟩

/-! ## Who is taken for dead -/

/-- No prune in `seg` comes when the worker has been silent, since `pre`, for longer than it allows. -/
def Timely (id : Uuid) (pre seg : List Label) : Prop :=
  ∀ a l b, seg = a ++ l :: b → ∀ now secs, l.prune = some (now, secs) →
    ∃ beat, latest (Label.sign id) (pre ++ a) = some (.alive beat) ∧ now - seconds secs ≤ beat

theorem timely_nil (id : Uuid) (pre : List Label) : Timely id pre [] := by
  intro a l b eq
  simp at eq

theorem timely_snoc {id : Uuid} {pre seg : List Label} {l : Label} :
    Timely id pre (seg ++ [l]) ↔ Timely id pre seg ∧ ∀ now secs, l.prune = some (now, secs) →
      ∃ beat, latest (Label.sign id) (pre ++ seg) = some (.alive beat) ∧ now - seconds secs ≤ beat := by
  constructor
  · intro timely
    constructor
    · rintro a k b rfl
      exact timely a k (b ++ [l]) (by simp)
    · exact timely seg l [] rfl
  · rintro ⟨before, last⟩ a k b eq
    obtain ⟨rfl, rfl, rfl⟩ | ⟨rest, rfl, same⟩ := snoc_eq_append_cons eq
    · exact last
    · exact before a k rest same

/-- The worker has a row, registered at `since`, with its last sign of life. -/
def Sys.Registered (id : Uuid) (since : Int) (ls : List Label) (s : Sys) : Prop :=
  ∃ w, s.db.worker? id = some w ∧ latest (Label.sign id) ls = some (.alive w.lastHeartbeat) ∧ w.registeredAt = since

/-- A unit finds the row of a worker that is not deregistered by it: it keeps the row
with the last sign of life, or is a prune that the worker is too late for. -/
theorem MemberStep.of_row {env : Env} {id : Uuid} {c : Call} {p : Progress} {w : Worker} {r' : Option Worker}
    (life : MemberStep env id c p (some w) r') (stays : c.sign env id p ≠ some .gone) :
    (∃ w', r' = some w' ∧ w'.registeredAt = w.registeredAt ∧
      (c.sign env id p).getD (.alive w.lastHeartbeat) = .alive w'.lastHeartbeat ∧
      (c = .start (.heartbeat id) → p = .done (.ok (.known true))) ∧
      ∀ secs, c = .start (.pruneDeadWorkers secs) → env.now - seconds secs ≤ w.lastHeartbeat) ∨
    (r' = none ∧ ∃ secs, c = .start (.pruneDeadWorkers secs) ∧ w.lastHeartbeat < env.now - seconds secs) := by
  cases life with
  | other silent noBeat spared =>
    refine .inl ⟨w, rfl, rfl, ?_, ?_, ?_⟩
    · rw [silent, Option.getD_none]
    · intro beat
      exact absurd beat noBeat
    · intro secs isPrune
      exact spared secs w isPrune rfl
  | registered isId =>
    refine .inl ⟨_, rfl, rfl, ?_, by simp, by simp⟩
    rw [Call.sign, if_pos isId, Option.getD_some]
  | beaten =>
    refine .inl ⟨_, rfl, rfl, ?_, fun _ => rfl, by simp⟩
    rw [Call.sign, if_pos rfl, Option.getD_some]
  | deregistered => exact absurd (if_pos rfl) stays
  | @pruned secs _ _ silentSince => exact .inr ⟨rfl, secs, rfl, silentSince⟩

/-- One step while the worker has a row: it is evicted exactly by a prune it is too
late for, and otherwise keeps its row and has its heartbeats acknowledged. -/
theorem Sys.Registered.step {id : Uuid} {since : Int} {ls : List Label} {s s' : Sys} {l : Label}
    (registered : s.Registered id since ls) (keyed : Keyed Worker.id s.db.workers) (step : Step s l s')
    (stays : l.sign id ≠ some .gone) :
    (l.evicts id = false ↔ ∀ now secs, l.prune = some (now, secs) →
      ∃ beat, latest (Label.sign id) ls = some (.alive beat) ∧ now - seconds secs ≤ beat) ∧
    (l.evicts id = false → s'.Registered id since (ls ++ [l]) ∧
      ∀ i u, l = .commit i u → u.call = .start (.heartbeat id) → u.reply = .done (.ok (.known true))) := by
  obtain ⟨w, before, said, order⟩ := registered
  obtain ⟨notCommit, same⟩ | ⟨i, u, rfl, on, now, rfl, life⟩ := step.member keyed id
  · have keeps : l.evicts id = false := by
      cases l with
      | commit i u => exact absurd rfl (notCommit i u)
      | _ => rfl
    refine ⟨⟨fun _ now secs isPrune => ?_, fun _ => keeps⟩, fun _ => ⟨⟨w, same.trans before, ?_, order⟩, ?_⟩⟩
    · rw [Label.prune_of_not_commit notCommit] at isPrune
      cases isPrune
    · rw [latest_snoc_none (Label.sign_of_not_commit notCommit id)]
      exact said
    · intro i u isCommit
      exact absurd isCommit (notCommit i u)
  · have found : u.db.worker? id = some w := on ▸ before
    have after : (s.commit i u).db.worker? id = u.after.worker? id := rfl
    rw [before, after] at life
    obtain ⟨w', kept, since', sign, known, spared⟩ | ⟨lost, secs, isPrune, silentSince⟩ := life.of_row stays
    · have keeps : (Label.commit i u).evicts id = false := by simp [Label.evicts, kept]
      refine ⟨⟨fun _ at' secs isPrune => ?_, fun _ => keeps⟩, fun _ => ⟨⟨w', after.trans kept, ?_, since'.trans order⟩, ?_⟩⟩
      · obtain ⟨asked, rfl⟩ := Label.prune_commit.1 isPrune
        exact ⟨_, said, spared secs asked⟩
      · rw [latest_snoc, said]
        show (u.call.sign u.env id u.reply).or _ = _
        cases sign' : u.call.sign u.env id u.reply with
        | none => rw [Option.none_or, ← sign, sign', Option.getD_none]
        | some b => rw [Option.some_or, ← sign, sign', Option.getD_some]
      · rintro i' u' isCommit beat
        injection isCommit with _ same
        subst same
        exact known beat
    · have prune : (Label.commit i u).prune = some (u.env.now, secs) := Label.prune_commit.2 ⟨isPrune, rfl⟩
      have gone : (Label.commit i u).evicts id = true := by simp [Label.evicts, prune, found, lost]
      rw [gone]
      refine ⟨⟨fun no => absurd no (by simp), fun timely => ?_⟩, fun no => absurd no (by simp)⟩
      obtain ⟨beat, said', recent⟩ := timely _ _ prune
      have same := said.symm.trans said'
      injection same with same
      injection same with same
      omega

theorem Sys.registered_of_run {id : Uuid} {since : Int} {pre seg : List Label} {s₀ s : Sys}
    (start : s₀.Registered id since pre) (keyed : Keyed Worker.id s₀.db.workers) (run : Run Step s₀ seg s)
    (stays : ∀ l ∈ seg, l.sign id ≠ some .gone) :
    ((∀ l ∈ seg, l.evicts id = false) ↔ Timely id pre seg) ∧ Keyed Worker.id s.db.workers ∧
    (Timely id pre seg → s.Registered id since (pre ++ seg) ∧ ∀ i u, .commit i u ∈ seg →
      u.call = .start (.heartbeat id) → u.reply = .done (.ok (.known true))) := by
  induction run with
  | nil => exact ⟨by simp [timely_nil], keyed, fun _ => ⟨by simpa using start, by simp⟩⟩
  | @snoc seg s l s' before last ih =>
    obtain ⟨iff, keyed, kept⟩ := ih fun k mem => stays k (List.mem_append_left _ mem)
    have keyed' : Keyed Worker.id s'.db.workers := by
      cases last with
      | @commit i u inFlight on now fresh => exact u.call.workers_keyed (on ▸ keyed)
      | _ => exact keyed
    refine ⟨?_, keyed', ?_⟩
    · rw [timely_snoc, ← iff]
      simp only [List.mem_append, List.mem_singleton, or_imp, forall_and, forall_eq]
      apply and_congr_right
      intro spared
      exact ((kept (iff.1 spared)).1.step keyed last (stays l (by simp))).1
    · intro timely
      obtain ⟨timelyBefore, here⟩ := timely_snoc.1 timely
      obtain ⟨registered, known⟩ := kept timelyBefore
      obtain ⟨evicted, next⟩ := registered.step keyed last (stays l (by simp))
      obtain ⟨registered', answered⟩ := next (evicted.2 here)
      refine ⟨by simpa using registered', ?_⟩
      intro i u mem
      rcases List.mem_append.1 mem with mem | mem
      · exact known i u mem
      · exact answered i u (List.mem_singleton.1 mem).symm

/-- **Only the silent are pruned.** From a registration on, while the worker is not
deregistered, a prune deletes its row exactly when it comes more than its TTL after
the worker's last sign of life. If none does, the row stays, registered when it
was, with the last sign of life, and every heartbeat finds it. -/
theorem evicted_iff_late {t : Int} {pre seg : List Label} {i₀ : Nat} {u₀ : Commit} {s : Sys} {worker : Worker}
    (run : Run Step (Sys.init t) (pre ++ .commit i₀ u₀ :: seg) s) (registers : u₀.call = .start (.registerWorker worker))
    (stays : ∀ l ∈ seg, l.sign worker.id ≠ some .gone) :
    ((∀ l ∈ seg, l.evicts worker.id = false) ↔ Timely worker.id (pre ++ [.commit i₀ u₀]) seg) ∧
    (Timely worker.id (pre ++ [.commit i₀ u₀]) seg →
      (∃ w, s.db.worker? worker.id = some w ∧
        latest (Label.sign worker.id) (pre ++ .commit i₀ u₀ :: seg) = some (.alive w.lastHeartbeat) ∧
        (u₀.after.worker? worker.id).map Worker.registeredAt = some w.registeredAt) ∧
      ∀ i u, .commit i u ∈ seg → u.call = .start (.heartbeat worker.id) → u.reply = .done (.ok (.known true))) := by
  obtain ⟨s₀, s₁, before, first, rest⟩ := run.at_label
  have upTo : Run Step (Sys.init t) (pre ++ [.commit i₀ u₀]) s₁ := before.snoc first
  have keyed := Sys.workers_keyed_of_run upTo
  obtain ⟨inFlight, on, now, -, rfl⟩ := first.commit_inv
  have life : MemberStep u₀.env worker.id u₀.call u₀.reply (u₀.db.worker? worker.id) (u₀.after.worker? worker.id) :=
    u₀.call.member_step (on ▸ Sys.workers_keyed_of_run before)
  obtain ⟨w, row, beat⟩ : ∃ w, u₀.after.worker? worker.id = some w ∧ w.lastHeartbeat = u₀.env.now := by
    generalize u₀.after.worker? worker.id = r at life ⊢
    rw [registers] at life
    cases life with
    | other silent => simp [Call.sign] at silent
    | registered isId => exact ⟨_, rfl, rfl⟩
  have said : latest (Label.sign worker.id) (pre ++ [.commit i₀ u₀]) = some (.alive w.lastHeartbeat) := by
    apply latest_snoc_some
    show u₀.call.sign u₀.env worker.id u₀.reply = _
    rw [registers, Call.sign, if_pos rfl, beat]
  have start : (s₀.commit i₀ u₀).Registered worker.id w.registeredAt (pre ++ [.commit i₀ u₀]) := ⟨w, row, said, rfl⟩
  obtain ⟨iff, -, kept⟩ := Sys.registered_of_run start keyed rest stays
  refine ⟨iff, fun timely => ?_⟩
  obtain ⟨⟨w', row', said', since⟩, known⟩ := kept timely
  refine ⟨⟨w', row', by simpa using said', ?_⟩, known⟩
  rw [row, since, Option.map_some]

/-- The first registration of the script. -/
def registryCommit : Commit := ⟨.start (.registerWorker (.sample 1)), ⟨0, [], 3000⟩, .empty⟩

theorem evicted_iff_late_spared :
    let s := (Sys.init 0).replay registryScript
    ∃ w, s.db.worker? 1 = some w ∧ some 0 = some w.registeredAt := by
  have run : Run Step (Sys.init 0) ([.begin 0 (.registerWorker (.sample 1))] ++ .commit 0 registryCommit ::
      ((Sys.init 0).trace registryScript).drop 2) ((Sys.init 0).replay registryScript) :=
    @Sys.replay_run (Sys.init 0) registryScript (by decide)
  obtain ⟨iff, kept⟩ := evicted_iff_late run rfl (by decide)
  obtain ⟨⟨w, row, -, since⟩, -⟩ := kept (iff.1 (by decide))
  exact ⟨w, row, since⟩

end Djq
