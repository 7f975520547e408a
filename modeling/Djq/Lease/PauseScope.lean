import Djq.Lease.Pause

/-!
# Who notices a pause

Two databases that differ in the pause flags of some queues only. Every unit but a
lease from one of these queues does the same on both, so a run of clients that do
not lease from them is the same run whether they are paused or not.
-/

namespace Djq

open Relational Transition

variable {held : String → Prop}

/-- The same queue, but for the flag of a held one. -/
structure Queue.Apart (held : String → Prop) (q q' : Queue) : Prop where
  name : q'.name = q.name
  maxConcurrency : q'.maxConcurrency = q.maxConcurrency
  createdAt : q'.createdAt = q.createdAt
  paused : ¬ held q.name → q'.paused = q.paused

theorem Queue.Apart.refl (q : Queue) : q.Apart held q := ⟨rfl, rfl, rfl, fun _ => rfl⟩

/-- The same database, but for the flags of the held queues. -/
structure Db.Apart (held : String → Prop) (db db' : Db) : Prop where
  queues : List.Forall₂ (Queue.Apart held) db.queues db'.queues
  others : db' = { db with queues := db'.queues }

/-- The same reply, but for the flag of a held queue that it shows. -/
inductive Progress.Apart (held : String → Prop) : Progress → Progress → Prop where
  | same (p : Progress) : Apart held p p
  | queue {q q' : Queue} (apart : q.Apart held q') : Apart held (.done (.ok (.queue q))) (.done (.ok (.queue q')))

/-- The queues a lease asks for. -/
def Call.leaseQueues : Call → List String
  | .start (.leaseNext _ names _) => names
  | _ => []

/-- The units that read `queues`. -/
def Call.readsQueues : Call → Bool
  | .start (.ensureQueue _) | .start (.submit _) | .start (.setQueuePaused _ _) | .start (.leaseNext _ _ _) => true
  | .readQueue _ | .submitReadQueue _ | .submitInsert _ => true
  | _ => false

theorem Call.writesQueues_of_blind {c : Call} (blind : c.readsQueues = false) : c.writesQueues = false := by
  cases c with
  | start request =>
    cases request with
    | ensureQueue name => cases blind
    | submit s => cases blind
    | setQueuePaused name paused => cases blind
    | _ => rfl
  | _ => rfl

section Unit

variable {env : Env} {db db' : Db}

/-- The other units do the same whatever `queues` holds. -/
theorem Call.step_withQueues (qs : List Queue) {c : Call} (blind : c.readsQueues = false) :
    c.step env { db with queues := qs } = ({ (c.step env db).1 with queues := qs }, (c.step env db).2) := by
  cases c with
  | start request =>
    cases request with
    | ensureQueue name => cases blind
    | submit s => cases blind
    | setQueuePaused name paused => cases blind
    | leaseNext worker names secs => cases blind
    | cancelJob id =>
      have same : { db with queues := qs }.cancelJob env id =
          ({ (db.cancelJob env id).1 with queues := qs }, (db.cancelJob env id).2) := rfl
      simp only [step, same]
      rcases db.cancelJob env id with ⟨db₁, job⟩
      cases job <;> rfl
    | retryJob id =>
      have same : { db with queues := qs }.requeueJob env id =
          ({ (db.requeueJob env id).1 with queues := qs }, (db.requeueJob env id).2) := rfl
      simp only [step, same]
      rcases db.requeueJob env id with ⟨db₁, job⟩
      cases job <;> rfl
    | completeJob id worker result =>
      have same : { db with queues := qs }.completeJob env id worker result =
          ({ (db.completeJob env id worker result).1 with queues := qs }, (db.completeJob env id worker result).2) := by
        unfold Db.completeJob
        simp only
        split <;> rfl
      simp only [step, same]
      rcases db.completeJob env id worker result with ⟨db₁, job⟩
      cases job <;> rfl
    | failJob id worker error timedOut =>
      have same : { db with queues := qs }.failJob env id worker error timedOut =
          ({ (db.failJob env id worker error timedOut).1 with queues := qs },
            (db.failJob env id worker error timedOut).2) := by
        have fetch : { db with queues := qs }.job? id = db.job? id := rfl
        unfold Db.failJob
        rw [fetch]
        cases db.job? id with
        | none => rfl
        | some current =>
          simp only
          split <;> rfl
      simp only [step, same]
      rcases db.failJob env id worker error timedOut with ⟨db₁, _ | _⟩ <;> rfl
    | recoverExpiredLeases limit =>
      simp only [step]
      split <;> rfl
    | _ => rfl
  | readQueue name => cases blind
  | submitReadQueue s => cases blind
  | submitInsert s => cases blind
  | submitLookup s =>
    have same : { db with queues := qs }.findByKey s.job.queue = db.findByKey s.job.queue := rfl
    simp only [step, same]
    cases s.job.idempotencyKey.bind (db.findByKey s.job.queue) <;> rfl
  | submitFallback s =>
    have same : { db with queues := qs }.findByKey s.job.queue = db.findByKey s.job.queue := rfl
    simp only [step, same]
    cases s.job.idempotencyKey.bind (db.findByKey s.job.queue) <;> rfl
  | rejected op id => rfl
  | removeDeadLetter job => rfl
  | rereadFailed id => rfl
  | recoverDeadLetter limit before => rfl
  | recoverFailed limit before => rfl
  | closeExpired recovered => rfl

/-- A queue that the one database has under a name the other has too. -/
theorem lookup_apart {qs qs' : List Queue} (apart : List.Forall₂ (Queue.Apart held) qs qs') (name : String) :
    (lookup Queue.name name qs = none ∧ lookup Queue.name name qs' = none) ∨
      ∃ q q', lookup Queue.name name qs = some q ∧ lookup Queue.name name qs' = some q' ∧ q.Apart held q' := by
  induction apart with
  | nil => exact .inl ⟨rfl, rfl⟩
  | @cons q q' qs qs' here rest ih =>
    by_cases isName : q.name = name
    · have isName' : q'.name = name := here.name.trans isName
      refine .inr ⟨q, q', ?_, ?_, here⟩
      · simp [lookup, isName]
      · simp [lookup, isName']
    · have other : ¬ q'.name = name := fun same => isName (here.name.symm.trans same)
      have skip : lookup Queue.name name (q :: qs) = lookup Queue.name name qs := by simp [lookup, isName]
      have skip' : lookup Queue.name name (q' :: qs') = lookup Queue.name name qs' := by simp [lookup, other]
      rw [skip, skip']
      exact ih

theorem ensureQueue_apart (apart : db.Apart held db') (name : String) :
    (db.ensureQueue env name).Apart held (db'.ensureQueue env name) := by
  constructor
  · show List.Forall₂ _ (insertIgnore Queue.name db.queues _) (insertIgnore Queue.name db'.queues _)
    unfold insertIgnore
    obtain ⟨absent, absent'⟩ | ⟨q, q', there, there', -⟩ := lookup_apart apart.queues name
    · simp only [absent, absent', Option.isSome_none, Bool.false_eq_true, ↓reduceIte]
      exact List.rel_append apart.queues (.cons (.refl _) .nil)
    · simp only [there, there', Option.isSome_some, ↓reduceIte]
      exact apart.queues
  · rw [apart.others]
    rfl

theorem setQueuePaused_apart (apart : db.Apart held db') (name : String) (paused : Bool) :
    (db.setQueuePaused name paused).1.Apart held (db'.setQueuePaused name paused).1 ∧
      ((db.setQueuePaused name paused).2 = none ∧ (db'.setQueuePaused name paused).2 = none ∨
        ∃ q q', (db.setQueuePaused name paused).2 = some q ∧ (db'.setQueuePaused name paused).2 = some q' ∧
          q.Apart held q') := by
  have set : ∀ {q q' : Queue}, q.Apart held q' → Queue.Apart held { q with paused := paused } { q' with paused := paused } :=
    fun apart => ⟨apart.name, apart.maxConcurrency, apart.createdAt, fun _ => rfl⟩
  refine ⟨⟨?_, ?_⟩, ?_⟩
  · show List.Forall₂ _ (updateWhere _ _ db.queues) (updateWhere _ _ db'.queues)
    unfold updateWhere
    rw [List.forall₂_map_left_iff, List.forall₂_map_right_iff]
    apply apart.queues.imp
    intro q q' here
    simp only [here.name]
    split
    · exact ⟨rfl, here.maxConcurrency, here.createdAt, fun _ => rfl⟩
    · exact here
  · rw [apart.others]
    rfl
  · simp only [Db.setQueuePaused, returning]
    have rows := apart.queues
    generalize db.queues = qs at rows
    generalize db'.queues = qs' at rows
    induction rows with
    | nil => exact .inl ⟨rfl, rfl⟩
    | @cons q q' qs qs' here rest ih =>
      by_cases isName : q.name = name
      · refine .inr ⟨_, _, ?_, ?_, set here⟩
        · simp [isName]
        · simp [here.name.trans isName]
      · have other : ¬ q'.name = name := fun same => isName (here.name.symm.trans same)
        rw [List.filter_cons_of_neg (by simpa using isName), List.filter_cons_of_neg (by simpa using other)]
        exact ih

theorem insertJob_apart (apart : db.Apart held db') (job : NormalizedJob) :
    (db.insertJob env job).1.Apart held (db'.insertJob env job).1 ∧
      (db'.insertJob env job).2 = (db.insertJob env job).2 := by
  have blind : (db'.queue? (job.row env).queue).isNone = (db.queue? (job.row env).queue).isNone := by
    unfold Db.queue?
    obtain ⟨absent, absent'⟩ | ⟨q, q', there, there', -⟩ := lookup_apart apart.queues (job.row env).queue
    · rw [absent, absent']
    · rw [there, there']
      rfl
  have jobs : db'.jobs = db.jobs := by rw [apart.others]
  unfold Db.insertJob
  simp only [jobs, blind]
  split_ifs
  · exact ⟨apart, rfl⟩
  · exact ⟨apart, rfl⟩
  · exact ⟨apart, rfl⟩
  · refine ⟨⟨apart.queues, ?_⟩, rfl⟩
    rw [apart.others]

/-- A lease from queues that are not held finds the same jobs. -/
theorem leaseable_apart (apart : db.Apart held db') {names : List String} (free : ∀ name ∈ names, ¬ held name)
    (j : Job) : db'.leaseable env names j = db.leaseable env names j := by
  unfold Db.leaseable
  by_cases listed : j.queue ∈ names
  · have flags : ∀ qs qs' : List Queue, List.Forall₂ (Queue.Apart held) qs qs' →
        qs'.any (fun q => decide (q.name = j.queue ∧ q.paused = false)) =
          qs.any (fun q => decide (q.name = j.queue ∧ q.paused = false)) := by
      intro qs qs' rows
      induction rows with
      | nil => rfl
      | @cons q q' qs qs' here rest ih =>
        rw [List.any_cons, List.any_cons, ih, here.name]
        by_cases isName : q.name = j.queue
        · rw [here.paused (isName ▸ free j.queue listed)]
        · simp [isName]
    rw [flags db.queues db'.queues apart.queues]
  · simp [listed]

theorem leaseNext_apart (apart : db.Apart held db') {names : List String} (free : ∀ name ∈ names, ¬ held name)
    (worker : Uuid) (secs : Int) :
    (db.leaseNext env worker names secs).1.Apart held (db'.leaseNext env worker names secs).1 ∧
      (db'.leaseNext env worker names secs).2 = (db.leaseNext env worker names secs).2 := by
  have jobs : db'.jobs = db.jobs := by rw [apart.others]
  have pick : db'.leasePick env names = db.leasePick env names := by
    unfold Db.leasePick
    rw [jobs, funext (leaseable_apart apart free)]
  unfold Db.leaseNext
  rw [pick]
  cases db.leasePick env names with
  | none => exact ⟨apart, rfl⟩
  | some pick =>
    refine ⟨⟨apart.queues, ?_⟩, rfl⟩
    show db'.leaseWrite env.now worker secs pick = _
    rw [apart.others]
    rfl

/-- **One unit** that is no lease from a held queue does the same on both databases. -/
theorem Call.step_apart (apart : db.Apart held db') {c : Call} (free : ∀ name ∈ c.leaseQueues, ¬ held name) :
    (c.step env db).1.Apart held (c.step env db').1 ∧ Progress.Apart held (c.step env db).2 (c.step env db').2 := by
  cases blind : c.readsQueues with
  | false =>
    have eq := apart.others
    generalize db'.queues = qs at eq
    subst eq
    rw [c.step_withQueues qs blind]
    refine ⟨⟨?_, rfl⟩, .same _⟩
    have queues := apart.queues
    rw [c.queues_same env db (c.writesQueues_of_blind blind)]
    exact queues
  | true =>
    unfold readsQueues at blind
    split at blind
    · exact ⟨ensureQueue_apart apart _, .same _⟩
    · exact ⟨ensureQueue_apart apart _, .same _⟩
    · rename_i name paused
      obtain ⟨after, ⟨none, none'⟩ | ⟨q, q', some, some', same⟩⟩ := @setQueuePaused_apart held db db' apart name paused
      · simp only [step, none, none']
        exact ⟨after, .same _⟩
      · simp only [step, some, some']
        exact ⟨after, .queue same⟩
    · rename_i worker names secs
      obtain ⟨after, same⟩ := @leaseNext_apart held env db db' apart names free worker secs
      simp only [step, same]
      exact ⟨after, .same _⟩
    · rename_i name
      simp only [step, Db.queue?]
      obtain ⟨none, none'⟩ | ⟨q, q', some, some', same⟩ := lookup_apart apart.queues name
      · rw [none, none']
        exact ⟨apart, .same _⟩
      · rw [some, some']
        exact ⟨apart, .queue same⟩
    · rename_i s
      simp only [step, Db.queue?]
      obtain ⟨none, none'⟩ | ⟨q, q', some, some', same⟩ := lookup_apart apart.queues s.job.queue
      · simp only [none, none']
        exact ⟨apart, .same _⟩
      · simp only [some, some']
        exact ⟨apart, .same _⟩
    · rename_i s
      obtain ⟨after, same⟩ := @insertJob_apart held env db db' apart s.job
      simp only [step]
      rcases insert : db.insertJob env s.job with ⟨db₁, reply⟩
      rcases insert' : db'.insertJob env s.job with ⟨db₁', reply'⟩
      rw [insert, insert'] at after same
      obtain rfl : reply' = reply := same
      cases reply' <;> exact ⟨after, .same _⟩
    · cases blind

end Unit

/-! ## Runs -/

/-- The same system, but for the flags of the held queues. -/
structure Sys.Apart (held : String → Prop) (s s' : Sys) : Prop where
  clock : s'.clock = s.clock
  db : s.db.Apart held s'.db
  issued : s'.issued = s.issued
  calls : s'.calls = s.calls
  nextCall : s'.nextCall = s.nextCall

/-- The same step, but for the flags of the held queues that it finds or shows. -/
inductive Label.Apart (held : String → Prop) : Label → Label → Prop where
  | same {l : Label} (noCommit : ∀ i u, l ≠ .commit i u) : Apart held l l
  | commit {i : Nat} {u u' : Commit} (call : u'.call = u.call) (env : u'.env = u.env) (db : u.db.Apart held u'.db)
      (reply : Progress.Apart held u.reply u'.reply) : Apart held (.commit i u) (.commit i u')

def Label.leaseQueues : Label → List String
  | .commit _ u => u.call.leaseQueues
  | _ => []

theorem Progress.Apart.pending {p p' : Progress} (apart : Progress.Apart held p p') : p'.pending = p.pending := by
  cases apart with
  | same => rfl
  | queue => rfl

theorem Step.apart {s s' t : Sys} {l : Label} (apart : s.Apart held t) (step : Step s l s')
    (free : ∀ name ∈ l.leaseQueues, ¬ held name) :
    ∃ l' t', Step t l' t' ∧ Label.Apart held l l' ∧ s'.Apart held t' := by
  cases step with
  | tick later =>
    exact ⟨_, _, .tick (apart.clock ▸ later), .same (by simp), rfl, apart.db, apart.issued, apart.calls, apart.nextCall⟩
  | @reorder jobs same =>
    have same' : jobs.Perm t.db.jobs := by
      rw [apart.db.others]
      exact same
    refine ⟨_, _, .reorder same', .same (by simp), apart.clock, ⟨apart.db.queues, ?_⟩, apart.issued, apart.calls,
      apart.nextCall⟩
    show { t.db with jobs := jobs } = _
    rw [apart.db.others]
  | begin request =>
    refine ⟨_, _, .begin request, ?_, apart.clock, apart.db, apart.issued, ?_, ?_⟩
    · rw [apart.nextCall]
      exact .same (by simp)
    · show t.setCall t.nextCall _ = s.setCall s.nextCall _
      unfold Sys.setCall
      rw [apart.calls, apart.nextCall]
    · show t.nextCall + 1 = s.nextCall + 1
      rw [apart.nextCall]
  | @stop i c inFlight =>
    refine ⟨_, _, .stop (apart.calls ▸ inFlight), .same (by simp), apart.clock, apart.db, apart.issued, ?_,
      apart.nextCall⟩
    show t.setCall i none = s.setCall i none
    unfold Sys.setCall
    rw [apart.calls]
  | @commit i u inFlight on now fresh =>
    have db : u.db.Apart held t.db := on ▸ apart.db
    obtain ⟨after, reply⟩ := @Call.step_apart held u.env u.db t.db db u.call free
    let u' : Commit := ⟨u.call, u.env, t.db⟩
    have replies : Progress.Apart held u.reply u'.reply := reply
    refine ⟨.commit i u', t.commit i u', .commit ?_ rfl ?_ ?_, .commit rfl rfl db replies, ?_⟩
    · show t.calls i = some u.call
      rw [apart.calls]
      exact inFlight
    · exact now.trans apart.clock.symm
    · rw [apart.issued]
      exact fresh
    · refine ⟨apart.clock, after, ?_, ?_, apart.nextCall⟩
      · show u.env.uuid :: t.issued = u.env.uuid :: s.issued
        rw [apart.issued]
      · show t.setCall i u'.reply.pending = s.setCall i u.reply.pending
        unfold Sys.setCall
        rw [apart.calls, replies.pending]

theorem Run.apart {s s' t : Sys} {ls : List Label} (apart : s.Apart held t) (run : Run Step s ls s')
    (free : ∀ l ∈ ls, ∀ name ∈ l.leaseQueues, ¬ held name) :
    ∃ ls' t', Run Step t ls' t' ∧ List.Forall₂ (Label.Apart held) ls ls' ∧ s'.Apart held t' := by
  induction run with
  | nil => exact ⟨[], t, .nil, .nil, apart⟩
  | @snoc ls s₁ l s₂ before last ih =>
    obtain ⟨ls', t₁, before', labels, apart'⟩ := ih fun k mem => free k (List.mem_append_left _ mem)
    obtain ⟨l', t₂, last', label, apart''⟩ := last.apart apart' (free l (by simp))
    exact ⟨ls' ++ [l'], t₂, before'.snoc last', List.rel_append labels (.cons label .nil), apart''⟩

end Djq
