import Djq.Storage.Dossier
import Djq.System.Attempts
import Djq.Transition.Replay

/-!
# One operation at a time

The store when every operation runs as one indivisible step: what the tables
say to each other then is what the statements of an operation keep between them,
with the interleavings of `Interleaving` left out. A label carries the request
and what it ran on, and so determines the reply and the database left.
-/

namespace Djq

open Relational Transition

/-- An operation at its execution. -/
structure Served where
  request : Request
  env : Env
  db : Db

/-- The database the operation leaves. -/
def Served.after (o : Served) : Db := (o.request.serve o.env o.db).1

/-- What the client gets back. -/
def Served.reply (o : Served) : Except QueueError Value := (o.request.serve o.env o.db).2

structure Serial where
  clock : Int
  db : Db
  /-- The UUIDs drawn so far. -/
  issued : List Uuid

namespace Serial

def init (t : Int) : Serial := ⟨t, .empty, []⟩

def serve (s : Serial) (o : Served) : Serial := { s with db := o.after, issued := o.env.uuid :: s.issued }

inductive Label where
  | tick (now : Int)
  /-- The rows of `jobs` come to lie in another order. -/
  | reorder
  | serve (o : Served)

/-- An operation reads the clock once and draws a UUID never drawn before; which
rows SKIP LOCKED passes over is left open. -/
inductive Step : Serial → Label → Serial → Prop where
  | tick {s : Serial} {now : Int} (later : s.clock ≤ now) : Step s (.tick now) { s with clock := now }
  | reorder {s : Serial} {jobs : List Job} (same : jobs.Perm s.db.jobs) :
      Step s .reorder { s with db := { s.db with jobs := jobs } }
  | serve {s : Serial} {o : Served} (on : o.db = s.db) (now : o.env.now = s.clock) (fresh : o.env.uuid ∉ s.issued) :
      Step s (.serve o) (s.serve o)

/-! ## Replaying concrete runs -/

inductive Action where
  | tick (now : Int)
  | serve (request : Request) (uuid : Uuid)

/-- Do an action, if it is enabled; no row is locked by anyone else. -/
def act (s : Serial) : Action → Option (Label × Serial)
  | .tick now => if s.clock ≤ now then some (.tick now, { s with clock := now }) else none
  | .serve request uuid =>
    if uuid ∈ s.issued then none
    else some (.serve ⟨request, ⟨s.clock, [], uuid⟩, s.db⟩, s.serve ⟨request, ⟨s.clock, [], uuid⟩, s.db⟩)

/-- Serve a list of requests at one time, the `n`-th of them drawing the UUID `7 + n`. -/
def requests (rs : List Request) : List Action := rs.zipIdx.map fun (r, n) => .serve r (7 + n)

theorem act_step (s : Serial) (a : Action) (l : Label) (s' : Serial) (done : s.act a = some (l, s')) :
    Step s l s' := by
  cases a with
  | tick now =>
    simp only [act, Option.ite_none_right_eq_some, Option.some.injEq, Prod.mk.injEq] at done
    obtain ⟨later, rfl, rfl⟩ := done
    exact .tick later
  | serve request uuid =>
    simp only [act, Option.ite_none_left_eq_some, Option.some.injEq, Prod.mk.injEq] at done
    obtain ⟨fresh, rfl, rfl⟩ := done
    exact .serve rfl rfl fresh

end Serial

/-! ## What every reachable state satisfies -/

/-- What every unit keeps, a call that runs by itself keeps. -/
theorem Call.alone_keeps {P : Db → Prop} {env : Env} (keep : ∀ db c, P db → P (Call.step env db c).1) {fuel : Nat}
    {db db' : Db} {c : Call} {result : Except QueueError Value} (ends : c.alone env fuel db = some (db', result))
    (start : P db) : P db' := by
  induction fuel generalizing db c with
  | zero => cases ends
  | succ fuel ih =>
    have kept := keep db c start
    rcases unit : c.step env db with ⟨db₁, next | last⟩
    · rw [alone_next unit] at ends
      rw [unit] at kept
      exact ih ends kept
    · rw [alone_done unit] at ends
      obtain ⟨rfl, -⟩ := Prod.mk.inj (Option.some.inj ends)
      rw [unit] at kept
      exact kept

theorem Request.serve_keeps {P : Db → Prop} {env : Env} (keep : ∀ db c, P db → P (Call.step env db c).1) {db : Db}
    (request : Request) (start : P db) : P (request.serve env db).1 :=
  Call.alone_keeps keep (request.alone_eq_serve env db) start

/-- Attempt rows lie in the order of the numbers drawn for them. -/
def Db.Ordered (db : Db) : Prop :=
  db.attempts.Pairwise (fun a b => a.id < b.id) ∧ ∀ a ∈ db.attempts, a.id < db.attemptSeq

theorem Db.Ordered.history {db : Db} (ordered : db.Ordered) (id : Uuid) :
    (db.history id).Pairwise (fun a b => a.id < b.id) :=
  ordered.1.sublist List.filter_sublist

theorem AttemptStep.ordered {env : Env} {db db' : Db} {c : Call} {p : Progress} (attempt : AttemptStep env db db' c p)
    (ordered : db.Ordered) : db'.Ordered := by
  obtain ⟨increasing, numbered⟩ := ordered
  cases attempt with
  | same _ _ _ _ rows seq => exact ⟨rows ▸ increasing, by rw [rows, seq]; exact numbered⟩
  | opened _ _ _ _ rows seq =>
    constructor
    · rw [rows, List.pairwise_append]
      refine ⟨increasing, List.pairwise_singleton _ _, ?_⟩
      intro a mem b last
      obtain rfl := List.mem_singleton.1 last
      exact numbered a mem
    · rw [rows, seq]
      intro a mem
      rcases List.mem_append.1 mem with mem | last
      · have := numbered a mem
        omega
      · obtain rfl := List.mem_singleton.1 last
        exact Nat.lt_succ_self _
  | @closed _ _ _ which set _ _ _ _ keeps _ rows seq =>
    have kept : ∀ a : JobAttempt, (if which a && decide (a.status = .running) then set a else a).id = a.id := by
      intro a
      split
      · exact (keeps a).id
      · rfl
    constructor
    · rw [rows, closeAttempts, updateWhere, List.pairwise_map]
      apply increasing.imp
      intro a b lt
      rw [kept a, kept b]
      exact lt
    · rw [rows, seq]
      intro a mem
      obtain ⟨old, oldMem, rfl⟩ := mem_updateWhere.1 mem
      rw [kept old]
      exact numbered old oldMem
  | purged rows _ seq =>
    constructor
    · rw [rows]
      exact increasing.sublist List.filter_sublist
    · rw [rows, seq]
      intro a mem
      exact numbered a (mem_deleteWhere.1 mem).1

namespace Serial

structure Sound (s : Serial) : Prop where
  keyed : Keyed Job.id s.db.jobs
  issued : ∀ j ∈ s.db.jobs, j.id ∈ s.issued
  ordered : s.db.Ordered

theorem sound_init (t : Int) : (Serial.init t).Sound := by
  constructor
  · exact List.nodup_nil
  · intro j mem
    exact absurd mem List.not_mem_nil
  · constructor
    · exact List.Pairwise.nil
    · intro a mem
      exact absurd mem List.not_mem_nil

/-- A UUID just drawn is nobody's id. -/
theorem Sound.unused {s : Serial} (sound : s.Sound) {uuid : Uuid} (fresh : uuid ∉ s.issued) : s.db.job? uuid = none := by
  rw [Db.job?, lookup_none_iff]
  intro j mem same
  exact fresh (same ▸ sound.issued j mem)

theorem Sound.serve {s : Serial} (sound : s.Sound) {o : Served} (on : o.db = s.db) : (s.serve o).Sound := by
  have kept : ∀ db c, (Keyed Job.id db.jobs ∧ (∀ j ∈ db.jobs, j.id ∈ o.env.uuid :: s.issued) ∧ db.Ordered) →
      Keyed Job.id (Call.step o.env db c).1.jobs ∧
        (∀ j ∈ (Call.step o.env db c).1.jobs, j.id ∈ o.env.uuid :: s.issued) ∧ (Call.step o.env db c).1.Ordered := by
    rintro db c ⟨keyed, issued, ordered⟩
    have jobs := c.jobs_step o.env db
    refine ⟨jobs.keyed keyed, ?_, (Call.attempt_step keyed c).ordered ordered⟩
    intro j mem
    obtain ⟨old, oldMem, same⟩ | ⟨_, rfl, -⟩ := jobs.origin mem
    · exact same.id ▸ issued old oldMem
    · exact List.mem_cons_self
  have before : Keyed Job.id o.db.jobs ∧ (∀ j ∈ o.db.jobs, j.id ∈ o.env.uuid :: s.issued) ∧ o.db.Ordered := by
    rw [on]
    exact ⟨sound.keyed, fun j mem => List.mem_cons_of_mem _ (sound.issued j mem), sound.ordered⟩
  obtain ⟨keyed, issued, ordered⟩ := o.request.serve_keeps kept before
  exact ⟨keyed, issued, ordered⟩

theorem Step.sound {s s' : Serial} {l : Label} (sound : s.Sound) (step : Step s l s') : s'.Sound := by
  cases step with
  | tick later => exact ⟨sound.keyed, sound.issued, sound.ordered⟩
  | reorder same =>
    constructor
    · exact sound.keyed.perm same
    · intro j mem
      exact sound.issued j (same.mem_iff.1 mem)
    · exact sound.ordered
  | serve on now fresh => exact sound.serve on

theorem sound_of_run {t : Int} {ls : List Label} {s : Serial} (run : Run Step (Serial.init t) ls s) : s.Sound :=
  run.invariant (sound_init t) fun _ _ _ sound step => step.sound sound

/-! ## One job over a run -/

/-- Only an operation changes what the tables say of a job. -/
theorem Step.dossier {s s' : Serial} {l : Label} (sound : s.Sound) (step : Step s l s') (id : Uuid) :
    ((∀ o, l ≠ .serve o) ∧ s'.db.dossier id = s.db.dossier id) ∨
    ∃ o, l = .serve o ∧ o.db = s.db ∧ o.env.now = s.clock ∧ o.env.uuid ∉ s.issued ∧
      OpStep o.env o.db id o.request o.reply (s.db.dossier id) (s'.db.dossier id) := by
  cases step with
  | tick later => exact .inl ⟨by simp, rfl⟩
  | reorder same =>
    refine .inl ⟨by simp, ?_⟩
    have row : lookup Job.id id _ = lookup Job.id id s.db.jobs := sound.keyed.lookup_perm same
    exact congrArg (Dossier.mk · (s.db.history id) (s.db.entries id)) row
  | @serve o on now fresh =>
    refine .inr ⟨o, rfl, on, now, fresh, ?_⟩
    rw [← on]
    exact o.request.op_step (on ▸ sound.keyed) (on ▸ sound.unused fresh)

/-- **Dossier invariants.** What every operation keeps of a job holds of every
job in every state. -/
theorem dossier_invariant {P : Dossier → Prop} (start : P ⟨none, [], []⟩)
    (keep : ∀ {env db id q r d d'}, OpStep env db id q r d d' → P d → P d') {t : Int} {ls : List Label} {s : Serial}
    (run : Run Step (Serial.init t) ls s) (id : Uuid) : P (s.db.dossier id) := by
  induction run with
  | nil => exact start
  | snoc before last ih =>
    obtain ⟨-, same⟩ | ⟨o, -, -, -, -, op⟩ := last.dossier (sound_of_run before) id
    · rw [same]
      exact ih
    · exact keep op ih

/-- A UUID once drawn stays drawn. -/
theorem Step.issued {s s' : Serial} {l : Label} (step : Step s l s') {id : Uuid} (drawn : id ∈ s.issued) :
    id ∈ s'.issued := by
  cases step with
  | serve => exact List.mem_cons_of_mem _ drawn
  | _ => exact drawn

end Serial

/-- An operation writes a row that was there, or the one it inserts. -/
theorem OpStep.written {env : Env} {db : Db} {id : Uuid} {q : Request} {r : Except QueueError Value} {d d' : Dossier}
    (op : OpStep env db id q r d d') (writes : id ∈ q.written r) : id = env.uuid ∨ ∃ j, d.row = some j := by
  cases op with
  | same quiet => exact absurd writes quiet
  | submitted eq isId =>
    rw [eq] at isId
    exact .inl isId.symm
  | _ => exact .inr ⟨_, rfl⟩

/-- A job appears under the UUID drawn for it. -/
theorem OpStep.born {env : Env} {db : Db} {id : Uuid} {q : Request} {r : Except QueueError Value} {d d' : Dossier}
    (op : OpStep env db id q r d d') (absent : d.row = none) {j : Job} (row : d'.row = some j) : id = env.uuid := by
  cases op with
  | same => cases absent.symm.trans row
  | submitted eq isId =>
    rw [eq] at isId
    exact isId.symm
  | purged => cases row
  | _ => cases absent

namespace Serial

/-- Whatever a run has written has an id drawn in it. -/
theorem issued_of_written {t : Int} {ls : List Label} {s : Serial} (run : Run Step (Serial.init t) ls s) {o : Served}
    (served : .serve o ∈ ls) {id : Uuid} (writes : id ∈ o.request.written o.reply) : id ∈ s.issued := by
  induction run with
  | nil => exact absurd served List.not_mem_nil
  | snoc before last ih =>
    rcases List.mem_append.1 served with earlier | now
    · exact last.issued (ih earlier)
    · obtain rfl := List.mem_singleton.1 now
      obtain ⟨other, -⟩ | ⟨o', same, on, -, -, op⟩ := last.dossier (sound_of_run before) id
      · exact absurd rfl (other o)
      · obtain rfl := Label.serve.inj same
        obtain isId | ⟨j, row⟩ := op.written writes
        · cases last with
          | serve => exact isId ▸ List.mem_cons_self
        · apply last.issued
          rw [← Db.job?_id row]
          exact (sound_of_run before).issued j (Db.job?_mem row)

end Serial

end Djq
