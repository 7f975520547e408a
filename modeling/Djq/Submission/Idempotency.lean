import Djq.System.Events

/-!
# Idempotent submission

`submit` finds an existing job in two places, before its INSERT and after one
that lost a race. Both look the key up in a table that the partial unique index
keeps free of duplicates, and a row stays under its key until it is purged.
-/

namespace Djq

open Relational Transition

/-! ## The index -/

/-- Two rows that `jobs_idem_uniq` does not allow side by side. -/
def Job.SameKey (a b : Job) : Prop :=
  a.queue = b.queue ∧ a.idempotencyKey.isSome = true ∧ a.idempotencyKey = b.idempotencyKey

def KeyUnique (t : List Job) : Prop := t.Pairwise fun a b => ¬ a.SameKey b

theorem Job.sameKey_iff {queue : String} {key : Option String} {j : Job} :
    j.sameKey queue key = true ↔ j.queue = queue ∧ key.isSome = true ∧ j.idempotencyKey = key :=
  decide_eq_true_iff

theorem Job.SameKey.symm {a b : Job} (h : a.SameKey b) : b.SameKey a := by
  obtain ⟨queue, some, key⟩ := h
  exact ⟨queue.symm, key ▸ some, key.symm⟩

theorem Job.SameKey.congr {a b a' b' : Job} (ha : SameSubmission a' a) (hb : SameSubmission b' b)
    (h : a'.SameKey b') : a.SameKey b := by
  obtain ⟨queue, some, key⟩ := h
  rw [ha.queue, hb.queue] at queue
  rw [ha.idempotencyKey, hb.idempotencyKey] at key
  rw [ha.idempotencyKey] at some
  exact ⟨queue, some, key⟩

/-- Every unit keeps the index. -/
theorem JobsStep.keyUnique {env : Env} {db : Db} {t : List Job} (h : JobsStep env db t)
    (unique : KeyUnique db.jobs) : KeyUnique t := by
  cases h with
  | same eq => exact eq ▸ unique
  | @updated which set keeps eq =>
    have row : ∀ j : Job, SameSubmission (if which j then set j else j) j := by
      intro j
      split
      · exact keeps j
      · exact .refl j
    rw [eq, KeyUnique, Relational.updateWhere, List.pairwise_map]
    apply unique.imp
    intro a b free clash
    exact free (clash.congr (row a) (row b))
  | inserted free _ eq =>
    rw [eq, KeyUnique, List.pairwise_append]
    refine ⟨unique, List.pairwise_singleton _ _, ?_⟩
    intro a mem b new clash
    obtain rfl := List.mem_singleton.1 new
    obtain ⟨queue, some, key⟩ := clash
    have taken : a.sameKey _ _ = true := Job.sameKey_iff.2 ⟨queue, key ▸ some, key⟩
    have out := (free a mem).2
    exact Bool.false_ne_true (out.symm.trans taken)
  | deleted eq =>
    rw [eq]
    exact unique.sublist List.filter_sublist

theorem Sys.keyUnique_of_run {t : Int} {ls : List Label} {s : Sys} (run : Run Step (Sys.init t) ls s) :
    KeyUnique s.db.jobs := by
  apply run.invariant
  · exact List.Pairwise.nil
  · intro s l s' unique step
    cases step with
    | reorder same =>
      exact (same.pairwise_iff fun {a b} free clash => free (Job.SameKey.symm clash)).2 unique
    | @commit i u inFlight on now fresh =>
      have jobs : JobsStep u.env s.db u.after.jobs := on ▸ u.call.jobs_step u.env u.db
      exact jobs.keyUnique unique
    | _ => exact unique

/-! ## What a submission returns -/

theorem Db.findByKey_spec {db : Db} {queue key : String} {j : Job} (hit : db.findByKey queue key = some j) :
    j ∈ db.jobs ∧ j.queue = queue ∧ j.idempotencyKey = some key := by
  have same := Job.sameKey_iff.1 (List.find?_some hit)
  exact ⟨List.mem_of_find?_eq_some hit, same.1, same.2.2⟩

/-- The submission a call is busy with. -/
def Call.submission : Call → Option Submittable
  | .start (.submit s) => some s
  | .submitReadQueue s => some s
  | .submitLookup s => some s
  | .submitInsert s => some s
  | .submitFallback s => some s
  | _ => none

/-- A unit that found an existing row for the submission `s`. -/
structure Call.Found (c : Call) (db : Db) (sub : Submission) (s : Submittable) (key : String) : Prop where
  phase : c = .submitLookup s ∨ c = .submitFallback s
  keyed : s.job.idempotencyKey = some key
  row : db.findByKey s.job.queue key = some sub.job
  created : sub.created = false

theorem Call.found_of_bind {db : Db} {s : Submittable} {j : Job}
    (hit : s.job.idempotencyKey.bind (db.findByKey s.job.queue) = some j) {c : Call}
    (phase : c = .submitLookup s ∨ c = .submitFallback s) :
    ∃ key, c.Found db ⟨j, false⟩ s key := by
  obtain ⟨key, keyed, row⟩ := Option.bind_eq_some_iff.1 hit
  exact ⟨key, phase, keyed, row, rfl⟩

theorem Except.map_ne_submission {α : Type} {f : α → Value} (other : ∀ a sub, f a ≠ .submission sub)
    {r : Except QueueError α} {sub : Submission} : r.map f ≠ .ok (.submission sub) := by
  cases r with
  | error e => simp [Except.map]
  | ok a => simpa [Except.map] using other a sub

/-- A submission is returned by a lookup that found an existing row, or by the
INSERT of a new one. -/
theorem Call.submission_reply {c : Call} {env : Env} {db : Db} {sub : Submission}
    (reply : (c.step env db).2 = .done (.ok (.submission sub))) :
    (∃ s key, c.Found db sub s key) ∨
    ∃ s, c = .submitInsert s ∧ sub = ⟨s.job.row env, true⟩ ∧
      (∀ j ∈ db.jobs, j.id ≠ env.uuid ∧ j.sameKey s.job.queue s.job.idempotencyKey = false) := by
  cases c with
  | submitLookup s =>
    simp only [Call.step] at reply
    split at reply
    · rename_i j hit
      obtain rfl : (⟨j, false⟩ : Submission) = sub := by simpa using reply
      obtain ⟨key, found⟩ := found_of_bind hit (.inl rfl)
      exact .inl ⟨s, key, found⟩
    · cases reply
  | submitFallback s =>
    simp only [Call.step] at reply
    split at reply
    · rename_i j hit
      obtain rfl : (⟨j, false⟩ : Submission) = sub := by simpa using reply
      obtain ⟨key, found⟩ := found_of_bind hit (.inr rfl)
      exact .inl ⟨s, key, found⟩
    · cases reply
  | submitInsert s =>
    simp only [Call.step] at reply
    obtain ⟨ends, -⟩ | ⟨ends, -⟩ | ⟨ends, free, -⟩ := db.insertJob_spec env s.job
    · simp only [ends] at reply
      cases reply
    · simp only [ends] at reply
      split at reply <;> cases reply
    · simp only [ends] at reply
      refine .inr ⟨s, rfl, ?_, free⟩
      simpa using reply.symm
  | submitReadQueue s =>
    simp only [Call.step] at reply
    split at reply <;> cases reply
  | readQueue name =>
    exact absurd (Progress.done.inj reply) (Except.map_ne_submission fun _ _ eq => by cases eq)
  | rereadFailed id =>
    exact absurd (Progress.done.inj reply) (Except.map_ne_submission fun _ _ eq => by cases eq)
  | recoverFailed limit before =>
    simp only [Call.step] at reply
    split at reply <;> cases reply
  | start request =>
    cases request with
    | setQueuePaused name paused =>
      exact absurd (Progress.done.inj reply) (Except.map_ne_submission fun _ _ eq => by cases eq)
    | cancelJob id =>
      simp only [Call.step] at reply
      split at reply <;> cases reply
    | retryJob id =>
      simp only [Call.step] at reply
      split at reply <;> cases reply
    | completeJob id worker result =>
      simp only [Call.step] at reply
      split at reply <;> cases reply
    | failJob id worker error timedOut =>
      simp only [Call.step] at reply
      split at reply <;> cases reply
    | renewLease id worker secs =>
      simp only [Call.step, Progress.done.injEq] at reply
      split at reply <;> cases reply
    | recoverExpiredLeases limit =>
      simp only [Call.step] at reply
      split at reply <;> cases reply
    | _ => cases reply
  | _ => cases reply

theorem Sys.submitting_of_run {t : Int} {ls : List Label} {s : Sys} (run : Run Step (Sys.init t) ls s) :
    ∀ i c, s.calls i = some c → ∃ request, Label.begin i request ∈ ls ∧
      ∀ new, c.submission = some new → request = .submit new := by
  apply Sys.call_invariant run
  · intro request new busy
    cases request <;> cases busy
    rfl
  · intro request c env db c' same next new busy
    have earlier : c.submission = c'.submission := by
      cases Call.follows next with
      | rejected => cases busy
      | _ => rfl
    exact same new (earlier.trans busy)

/-! ## Where rows come from -/

/-- An INSERT that a label reports: its row is in the table, and no row was there
under its id or its key. -/
structure Sys.Inserted (s s' : Sys) (row : Job) : Prop where
  absent : s.db.job? row.id = none
  free : ∀ j ∈ s.db.jobs, ¬ j.SameKey row
  present : s'.db.job? row.id = some row

theorem Step.inserted {s s' : Sys} {l : Label} (sound : s.Sound) (step : Step s l s') {row : Job}
    (inserted : l.inserted = some row) : s.Inserted s' row := by
  cases step with
  | @commit i u inFlight on now fresh =>
    simp only [Label.inserted] at inserted
    split at inserted
    · rename_i new sub call reply
      obtain rfl := Option.some.inj inserted
      have life := sound.row_step on fresh sub.job.id
      obtain ⟨absent, present⟩ := life.of_insert call reply rfl
      rw [Commit.reply, call] at reply
      obtain ⟨_, _, found⟩ | ⟨new', same, rfl, free⟩ := Call.submission_reply reply
      · rcases found.phase with phase | phase <;> cases phase
      · obtain rfl := Call.submitInsert.inj same
        refine ⟨absent, ?_, present⟩
        intro j mem clash
        have key : j.idempotencyKey = new.job.idempotencyKey := clash.2.2
        have taken : j.sameKey new.job.queue new.job.idempotencyKey = true :=
          Job.sameKey_iff.2 ⟨clash.1, key ▸ clash.2.1, key⟩
        exact Bool.false_ne_true ((free j (on ▸ mem)).2.symm.trans taken)
    · cases inserted
  | _ => cases inserted

/-- Every row was put there by an INSERT that a label reports. -/
theorem Sys.inserted_of_run {t : Int} {ls : List Label} {s : Sys} (run : Run Step (Sys.init t) ls s) :
    ∀ id j, s.db.job? id = some j → ∃ l ∈ ls, ∃ row, l.inserted = some row ∧ SameSubmission j row := by
  apply run.history
  · intro id j row
    exact absurd (Db.job?_mem row) List.not_mem_nil
  · intro ls s l s' before ih step id j' row'
    have sound := Sys.sound_of_run before
    have earlier : ∀ j, s.db.job? id = some j → SameSubmission j' j →
        ∃ l' ∈ ls ++ [l], ∃ row, l'.inserted = some row ∧ SameSubmission j' row := by
      intro j row same
      obtain ⟨l', mem, row, inserted, origin⟩ := ih id j row
      exact ⟨l', List.mem_append_left _ mem, row, inserted, same.trans origin⟩
    obtain ⟨-, same⟩ | ⟨i, u, rfl, -, -, -, -, rfl, life⟩ := step.row sound id
    · exact earlier j' (same ▸ row') (.refl j')
    · obtain ⟨j, row, same⟩ | ⟨new, call, reply, -⟩ := life.origin row'
      · exact earlier j row same
      · refine ⟨.commit i u, by simp, j', ?_, .refl j'⟩
        simp only [Label.inserted, call, reply]

/-- Of two INSERTs under one key the second comes after a purge of the first one's row. -/
theorem inserts_separated {t : Int} {pre mid : List Label} {l₁ l₂ : Label} {s : Sys} {row₁ row₂ : Job}
    (run : Run Step (Sys.init t) (pre ++ l₁ :: mid ++ [l₂]) s) (first : l₁.inserted = some row₁)
    (second : l₂.inserted = some row₂) (same : row₁.SameKey row₂) : ∃ l ∈ mid, l.deletes row₁.id = true := by
  obtain ⟨s₂, before₂, step₂⟩ := run.snoc_inv
  obtain ⟨s₀, s₁, before₁, step₁, between⟩ := before₂.at_label
  have present := (step₁.inserted (Sys.sound_of_run before₁) first).present
  have free := (step₂.inserted (Sys.sound_of_run before₂) second).free
  obtain ⟨j, row, origin⟩ | purged := Run.row_kept (before₁.snoc step₁) between present
  · have clash : j.SameKey row₂ := same.congr origin.symm (.refl row₂)
    exact absurd clash (free j (Db.job?_mem row))
  · exact purged

/-- **Idempotent submission.** However submissions race with each other and with
everything else: a key has at most one row; a submission that reports an existing
job carries one under its own queue and key that an INSERT put there; two INSERTs
under a key have a purge of the first row between them; and a submission without
a key creates a new row. -/
theorem submission_idempotent {t : Int} {ls : List Label} {s : Sys} (run : Run Step (Sys.init t) ls s) :
    (∀ queue key, (s.db.jobs.filter (Job.sameKey queue (some key))).length ≤ 1) ∧
    (∀ pre i u post sub, ls = pre ++ .commit i u :: post → u.reply = .done (.ok (.submission sub)) →
      ∃ new, Label.begin i (.submit new) ∈ pre ∧
        (sub.created = false → sub.job.queue = new.job.queue ∧
          (∃ key, new.job.idempotencyKey = some key ∧ sub.job.idempotencyKey = some key) ∧
          ∃ l ∈ pre, ∃ row, l.inserted = some row ∧ SameSubmission sub.job row) ∧
        (new.job.idempotencyKey = none → sub.created = true ∧ u.db.job? sub.job.id = none ∧
          u.after.job? sub.job.id = some sub.job)) ∧
    (∀ pre l₁ mid l₂ post row₁ row₂, ls = pre ++ l₁ :: mid ++ l₂ :: post →
      l₁.inserted = some row₁ → l₂.inserted = some row₂ →
      row₁.queue = row₂.queue → row₁.idempotencyKey.isSome → row₁.idempotencyKey = row₂.idempotencyKey →
      ∃ l ∈ mid, l.deletes row₁.id = true) := by
  refine ⟨?_, ?_, ?_⟩
  · intro queue key
    refine filter_length_le_one (Sys.keyUnique_of_run run) fun a b ha hb => ?_
    obtain ⟨queueA, -, keyA⟩ := Job.sameKey_iff.1 ha
    obtain ⟨queueB, -, keyB⟩ := Job.sameKey_iff.1 hb
    exact ⟨queueA.trans queueB.symm, by simp [keyA], keyA.trans keyB.symm⟩
  · rintro pre i u post sub rfl reply
    obtain ⟨s₁, s₂, before, step, -⟩ := run.at_label
    have sound := Sys.sound_of_run before
    obtain ⟨inFlight, on, -, fresh, -⟩ := step.commit_inv
    obtain ⟨request, begun, busy⟩ := Sys.submitting_of_run before i u.call inFlight
    obtain ⟨new, key, found⟩ | ⟨new, call, rfl, -⟩ := Call.submission_reply reply
    · have submits : request = .submit new := by
        apply busy
        rcases found.phase with phase | phase <;> rw [phase] <;> rfl
      obtain ⟨mem, queue, keyed⟩ := Db.findByKey_spec found.row
      refine ⟨new, submits ▸ begun, fun _ => ⟨queue, ⟨key, found.keyed, keyed⟩, ?_⟩, fun unkeyed => ?_⟩
      · exact Sys.inserted_of_run before _ _ (sound.keyed.lookup_self (on ▸ mem))
      · cases unkeyed.symm.trans found.keyed
    · have submits : request = .submit new := by
        apply busy
        rw [call]
        rfl
      have life := sound.row_step on fresh (new.job.row u.env).id
      obtain ⟨absent, present⟩ := life.of_insert call reply rfl
      exact ⟨new, submits ▸ begun, nofun, fun _ => ⟨rfl, on ▸ absent, present⟩⟩
  · rintro pre l₁ mid l₂ post row₁ row₂ rfl first second queue some key
    rw [List.append_cons] at run
    obtain ⟨s', run, -⟩ := run.split
    exact inserts_separated run first second ⟨queue, some, key⟩

/-- Two submissions under one key, the second after the first. -/
def twiceScript : List Action :=
  let keyed : Submittable := .sample 2 (some "k") NewJob.sample_keyed
  [.begin (.submit keyed), .commit 0 1, .commit 0 2, .commit 0 3, .commit 0 7,
    .begin (.submit keyed), .commit 1 4, .commit 1 5, .commit 1 6]

/-- The lookup that ends the second one. -/
def twiceLookup : Commit :=
  ⟨.submitLookup (.sample 2 (some "k") NewJob.sample_keyed), ⟨0, [], 6⟩,
    ((Sys.init 0).replay twiceScript.dropLast).db⟩

theorem submission_idempotent_twice :
    (((Sys.init 0).replay twiceScript).db.jobs.filter (Job.sameKey "emails" (some "k"))).length ≤ 1 ∧
    ∃ new, Label.begin 1 (.submit new) ∈ (Sys.init 0).trace twiceScript.dropLast ∧
      ∃ key, new.job.idempotencyKey = some key ∧ (Job.sample 2 (some "k")).idempotencyKey = some key := by
  have run := @Sys.replay_run (Sys.init 0) twiceScript (by decide)
  obtain ⟨unique, returned, -⟩ := submission_idempotent run
  have labels : (Sys.init 0).trace twiceScript =
      (Sys.init 0).trace twiceScript.dropLast ++ .commit 1 twiceLookup :: [] := rfl
  have found : twiceLookup.reply = .done (.ok (.submission ⟨Job.sample 2 (some "k"), false⟩)) := rfl
  obtain ⟨new, begun, existing, -⟩ := returned _ _ _ _ _ labels found
  exact ⟨unique _ _, new, begun, (existing rfl).2.1⟩

end Djq
