import Djq.System.Interleaving

/-!
# The order of leases

`lease_next` with no row locked by others: it leases the first job that is ready,
by priority, due time and age, and nothing else; and repeating it at one instant
hands out every ready job once, in that order.
-/

namespace Djq

open Relational Transition

/-- What `lease_next` looks for among the jobs of the queues named. -/
structure Db.Ready (db : Db) (now : Int) (names : List String) (j : Job) : Prop where
  listed : j.queue ∈ names
  unpaused : ∃ q ∈ db.queues, q.name = j.queue ∧ q.paused = false
  leaseable : j.status.isLeaseable = true
  due : j.runAt ≤ now

namespace Db

variable {db : Db} {env : Env} {names names' : List String}

theorem leaseable_iff_ready (unlocked : env.locked = []) {j : Job} :
    db.leaseable env names j = true ↔ db.Ready env.now names j := by
  rw [leaseable_iff, unlocked, ← JobStatus.isLeaseable_iff]
  constructor
  · rintro ⟨listed, unpaused, leaseable, due, -⟩
    exact ⟨listed, unpaused, leaseable, due⟩
  · rintro ⟨listed, unpaused, leaseable, due⟩
    exact ⟨listed, unpaused, leaseable, due, List.not_mem_nil⟩

/-- Only which queues are named counts, not in what order or how often. -/
theorem Ready.named (same : ∀ name, name ∈ names ↔ name ∈ names') {now : Int} {j : Job}
    (ready : db.Ready now names j) : db.Ready now names' j :=
  ⟨(same _).1 ready.listed, ready.unpaused, ready.leaseable, ready.due⟩

theorem leaseNext_named (same : ∀ name, name ∈ names ↔ name ∈ names') (worker : Uuid) (secs : Int) :
    db.leaseNext env worker names' secs = db.leaseNext env worker names secs := by
  have filters : db.leaseable env names' = db.leaseable env names := by
    funext j
    rw [Bool.eq_iff_iff, leaseable_iff, leaseable_iff, same]
  unfold leaseNext leasePick
  rw [filters]

theorem leaseOrder_refl (j : Job) : leaseOrder j j := by
  unfold leaseOrder
  omega

/-- `lease_next` leases the first job that is ready, or finds none. -/
theorem leaseNext_first (unlocked : env.locked = []) (worker : Uuid) (names : List String) (secs : Int) :
    ((∀ j ∈ db.jobs, ¬ db.Ready env.now names j) ∧ db.leaseNext env worker names secs = (db, none)) ∨
    ∃ pick ∈ db.jobs, db.Ready env.now names pick ∧ (∀ j ∈ db.jobs, db.Ready env.now names j → leaseOrder pick j) ∧
      db.leaseNext env worker names secs =
        (db.leaseWrite env.now worker secs pick, some (pick.setLeased env.now worker secs)) := by
  obtain ⟨nothing, picked⟩ | ⟨pick, mem, picked, ok, leased⟩ := db.leaseNext_spec env worker names secs
  · refine .inl ⟨fun j mem ready => ?_, nothing⟩
    have empty := head_orderBy_none picked
    have found : j ∈ db.jobs.filter (db.leaseable env names) :=
      List.mem_filter.2 ⟨mem, (leaseable_iff_ready unlocked).2 ready⟩
    rw [empty] at found
    exact List.not_mem_nil found
  · refine .inr ⟨pick, mem, (leaseable_iff_ready unlocked).1 ok, fun j other ready => ?_, leased⟩
    have found : j ∈ db.jobs.filter (db.leaseable env names) :=
      List.mem_filter.2 ⟨other, (leaseable_iff_ready unlocked).2 ready⟩
    rcases head_orderBy_min picked j found with rfl | first
    · exact leaseOrder_refl j
    · exact first

end Db

/-! ## Leasing until there is nothing left -/

/-- A `lease_next` that finds a job, by any worker, at the instant `t` and for the
queues named; after it the rows may come to lie in another order. -/
inductive Leases (t : Int) (names : List String) : Db → Job → Db → Prop where
  | lease {db db' : Db} {env : Env} {worker : Uuid} {queues : List String} {secs : Int} {job : Job} {jobs : List Job}
      (now : env.now = t) (unlocked : env.locked = []) (named : ∀ name, name ∈ queues ↔ name ∈ names)
      (leased : db.leaseNext env worker queues secs = (db', some job)) (order : jobs.Perm db'.jobs) :
      Leases t names db job { db' with jobs := jobs }

/-- What is left to hand out of the jobs that were ready in `db` once `jobs` are. -/
structure HandedOut (t : Int) (names : List String) (db : Db) (jobs : List Job) (db' : Db) : Prop where
  keyed : Keyed Job.id db'.jobs
  queues : db'.queues = db.queues
  split : ((db.jobs.filter (db.leaseable ⟨t, [], 0⟩ names)).map Job.id).Perm
    (jobs.map Job.id ++ (db'.jobs.filter (db'.leaseable ⟨t, [], 0⟩ names)).map Job.id)
  sorted : jobs.Pairwise Db.leaseOrder
  before : ∀ job ∈ jobs, ∀ k ∈ db'.jobs, db'.Ready t names k → Db.leaseOrder job k
  rows : ∀ k ∈ db'.jobs, db'.Ready t names k → k ∈ db.jobs
  handed : ∀ job ∈ jobs, ∃ j ∈ db.jobs, db.Ready t names j ∧ ∃ worker secs, job = j.setLeased t worker secs

namespace HandedOut

variable {t : Int} {names : List String} {db db' db'' : Db} {jobs : List Job} {job : Job}

theorem start (keyed : Keyed Job.id db.jobs) : HandedOut t names db [] db := by
  constructor
  · exact keyed
  · rfl
  · exact List.Perm.refl _
  · exact List.Pairwise.nil
  · intro job mem
    exact absurd mem List.not_mem_nil
  · intro k mem _
    exact mem
  · intro job mem
    exact absurd mem List.not_mem_nil

/-- What is ready after a lease was ready before it, and is not the job leased. -/
theorem ready_after {now : Int} {worker : Uuid} {secs : Int} {pick k : Job} {rows : List Job}
    (order : rows.Perm (db.leaseWrite now worker secs pick).jobs) (mem : k ∈ rows)
    (ready : ({ db.leaseWrite now worker secs pick with jobs := rows } : Db).Ready t names k) :
    k ∈ db.jobs ∧ db.Ready t names k := by
  obtain ⟨a, stored, rfl⟩ := mem_updateWhere.1 (order.mem_iff.1 mem)
  split at ready
  · cases ready.leaseable
  · rename_i other
    rw [if_neg other]
    exact ⟨stored, ready.listed, ready.unpaused, ready.leaseable, ready.due⟩

/-- **One lease.** -/
theorem step (h : HandedOut t names db jobs db') (lease : Leases t names db' job db'') :
    HandedOut t names db (jobs ++ [job]) db'' := by
  cases lease with
  | @lease written env worker queues secs _ rows now unlocked named leased order =>
    subst now
    obtain ⟨-, nothing⟩ | ⟨pick, mem, ready, first, done⟩ :=
      db'.leaseNext_first unlocked worker queues secs
    · cases nothing.symm.trans leased
    obtain ⟨rfl, same⟩ := Prod.mk.inj (done.symm.trans leased)
    obtain rfl := Option.some.inj same
    replace ready : db'.Ready env.now names pick := ready.named named
    have after := fun k mem ready => @ready_after env.now names db' env.now worker secs pick k rows order mem ready
    constructor
    · have written : Keyed Job.id (db'.leaseWrite env.now worker secs pick).jobs :=
        h.keyed.updateWhere fun _ => rfl
      exact written.perm order
    · exact h.queues
    · have had : db'.leaseable ⟨env.now, [], 0⟩ names pick = true := (Db.leaseable_iff_ready rfl).2 ready
      have keeps : ∀ j : Job, (j.setLeased env.now worker secs).id = j.id := fun _ => rfl
      have one := h.keyed.filter_update_one keeps mem had (by simp [Db.leaseable])
      have rest := (order.filter (db'.leaseable ⟨env.now, [], 0⟩ names)).map Job.id
      rw [List.map_append, List.append_assoc]
      exact h.split.trans ((one.trans (rest.symm.cons _)).append_left _)
    · rw [List.pairwise_append]
      refine ⟨h.sorted, List.pairwise_singleton _ _, fun a handed b new => ?_⟩
      obtain rfl := List.mem_singleton.1 new
      exact h.before a handed pick mem ready
    · intro job handed k stored ready'
      obtain ⟨old, oldReady⟩ := after k stored ready'
      rcases List.mem_append.1 handed with handed | new
      · exact h.before job handed k old oldReady
      · obtain rfl := List.mem_singleton.1 new
        exact first k old (oldReady.named fun name => (named name).symm)
    · intro k stored ready'
      obtain ⟨old, oldReady⟩ := after k stored ready'
      exact h.rows k old oldReady
    · intro job handed
      rcases List.mem_append.1 handed with handed | new
      · exact h.handed job handed
      · obtain rfl := List.mem_singleton.1 new
        have unpaused := h.queues ▸ ready.unpaused
        exact ⟨pick, h.rows pick mem ready, ⟨ready.listed, unpaused, ready.leaseable, ready.due⟩, worker, secs, rfl⟩

theorem of_run (keyed : Keyed Job.id db.jobs) (run : Run (Leases t names) db jobs db') :
    HandedOut t names db jobs db' := by
  induction run with
  | nil => exact start keyed
  | snoc _ last ih => exact ih.step last

end HandedOut

/-- What repeating `lease_next` comes to: the jobs in the order they were handed out. -/
structure InOrder (t : Int) (names : List String) (db : Db) (jobs : List Job) (db' : Db) : Prop where
  sorted : jobs.Pairwise Db.leaseOrder
  once : (jobs.map Job.id).Nodup
  ready : ∀ job ∈ jobs, ∃ j ∈ db.jobs, db.Ready t names j ∧ ∃ worker secs, job = j.setLeased t worker secs
  /-- Once `lease_next` returns nothing, all of them are handed out. -/
  all : ∀ env worker queues secs, env.now = t → env.locked = [] → (∀ name, name ∈ queues ↔ name ∈ names) →
    (db'.leaseNext env worker queues secs).2 = none → ∀ j ∈ db.jobs, db.Ready t names j → j.id ∈ jobs.map Job.id
  /-- And that comes after as many leases as there were jobs ready. -/
  bounded : jobs.length ≤ db.jobs.countP (db.leaseable ⟨t, [], 0⟩ names)

/-- **Lease order.** In any store, with no row locked by others, `lease_next`
returns nothing exactly when no job is ready; what it leases is ready and first by
priority, due time and age, and no other job changes. Repeated at one instant it
hands out the jobs ready at the start, each once and in that order. -/
theorem lease_order {db : Db} (keyed : Keyed Job.id db.jobs) :
    (∀ env worker names secs, env.locked = [] →
      ((db.leaseNext env worker names secs).2 = none ↔ ∀ j ∈ db.jobs, ¬ db.Ready env.now names j) ∧
      ((∀ j ∈ db.jobs, ¬ db.Ready env.now names j) → (db.leaseNext env worker names secs).1 = db) ∧
      ∀ db' job, db.leaseNext env worker names secs = (db', some job) →
        ∃ j ∈ db.jobs, db.Ready env.now names j ∧ (∀ k ∈ db.jobs, db.Ready env.now names k → Db.leaseOrder j k) ∧
          job = j.setLeased env.now worker secs ∧ db'.job? j.id = some job ∧
          ∀ id, id ≠ j.id → db'.job? id = db.job? id) ∧
    (∀ env worker names names' secs, (∀ name, name ∈ names ↔ name ∈ names') →
      db.leaseNext env worker names' secs = db.leaseNext env worker names secs) ∧
    ∀ t names jobs db', Run (Leases t names) db jobs db' → InOrder t names db jobs db' := by
  refine ⟨?_, fun env worker names names' secs same => Db.leaseNext_named same worker secs, ?_⟩
  · intro env worker names secs unlocked
    obtain ⟨unready, nothing⟩ | ⟨pick, mem, ready, first, done⟩ := db.leaseNext_first unlocked worker names secs
    · rw [nothing]
      refine ⟨⟨fun _ => unready, fun _ => rfl⟩, fun _ => rfl, ?_⟩
      rintro db' job ⟨⟩
    · rw [done]
      have some : ¬ ∀ j ∈ db.jobs, ¬ db.Ready env.now names j := fun unready => unready pick mem ready
      refine ⟨⟨?_, fun unready => absurd unready some⟩, fun unready => absurd unready some, ?_⟩
      · rintro ⟨⟩
      · rintro db' job ⟨⟩
        exact ⟨pick, mem, ready, first, rfl, Db.leaseWrite_row (keyed.lookup_self mem), fun id => Db.leaseWrite_other⟩
  · intro t names jobs db' run
    have out := HandedOut.of_run keyed run
    have distinct := (List.Nodup.map_on (fun a ha b hb same => keyed.unique (List.mem_filter.1 ha).1
      (List.mem_filter.1 hb).1 same) ((List.Nodup.of_map _ keyed).filter (db.leaseable ⟨t, [], 0⟩ names)))
    have parts := List.nodup_append.1 (out.split.nodup_iff.1 distinct)
    constructor
    · exact out.sorted
    · exact parts.1
    · exact out.handed
    · intro env worker queues secs now unlocked named nothing j mem ready
      obtain ⟨unready, -⟩ | ⟨pick, -, -, -, done⟩ := db'.leaseNext_first unlocked worker queues secs
      · have listed : j.id ∈ (db.jobs.filter (db.leaseable ⟨t, [], 0⟩ names)).map Job.id :=
          List.mem_map_of_mem (List.mem_filter.2 ⟨mem, (Db.leaseable_iff_ready rfl).2 ready⟩)
        rcases List.mem_append.1 (out.split.mem_iff.1 listed) with handed | left
        · exact handed
        · obtain ⟨k, found, -⟩ := List.mem_map.1 left
          obtain ⟨stored, ok⟩ := List.mem_filter.1 found
          have still : db'.Ready env.now queues k :=
            now ▸ ((Db.leaseable_iff_ready rfl).1 ok).named fun name => (named name).symm
          exact absurd still (unready k stored)
      · rw [done] at nothing
        cases nothing
    · have len := out.split.length_eq
      rw [List.length_map, List.length_append, List.length_map, ← List.countP_eq_length_filter] at len
      omega

/-- Two jobs, the later one more urgent. -/
def twoJobs : Db :=
  { Db.empty with
    queues := [⟨"emails", false, none, 0⟩]
    jobs := [Job.sample 3 none, { Job.sample 3 none with id := 8, priority := 5, createdAt := 1 }] }

theorem lease_order_two : ∃ db', InOrder 2 ["emails"] twoJobs
    [({ Job.sample 3 none with id := 8, priority := 5, createdAt := 1 } : Job).setLeased 2 1 60,
      (Job.sample 3 none).setLeased 2 9 60] db' := by
  have keyed : Keyed Job.id twoJobs.jobs := by
    unfold Keyed
    decide
  let db₁ := (twoJobs.leaseNext ⟨2, [], 0⟩ 1 ["emails"] 60).1
  let db₂ := (db₁.leaseNext ⟨2, [], 0⟩ 9 ["emails", "emails"] 60).1
  have first := @Leases.lease 2 ["emails"] twoJobs db₁ ⟨2, [], 0⟩ 1 ["emails"] 60 _ _ rfl rfl (fun _ => Iff.rfl) rfl
    (List.Perm.refl _)
  have second := @Leases.lease 2 ["emails"] db₁ db₂ ⟨2, [], 0⟩ 9 ["emails", "emails"] 60 _ _ rfl rfl (by simp) rfl
    (List.Perm.refl _)
  exact ⟨_, (lease_order keyed).2.2 2 ["emails"] _ _ (.cons first (.one second))⟩

end Djq
