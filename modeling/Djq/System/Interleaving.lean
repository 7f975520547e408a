import Djq.Storage.Tables
import Djq.Transition.Run

/-!
# One database, any number of clients

A client begins calls and the database commits their units in any order, on a
clock that never goes back. Everything a claim about runs speaks of can be read
off the labels: a committed unit carries the call it belongs to and what it ran
on, and so determines its reply and the database it left.
-/

namespace Djq

open Relational Transition

/-- A unit of SQL at its commit. -/
structure Commit where
  call : Call
  env : Env
  db : Db

/-- The database the unit leaves. -/
def Commit.after (u : Commit) : Db := (u.call.step u.env u.db).1

/-- What the client gets back. -/
def Commit.reply (u : Commit) : Progress := (u.call.step u.env u.db).2

structure Sys where
  clock : Int
  db : Db
  /-- The UUIDs drawn so far. -/
  issued : List Uuid
  /-- The calls in flight, by number. -/
  calls : Nat → Option Call
  nextCall : Nat

namespace Sys

/-- The migrated database before its first client. -/
def init (t : Int) : Sys := ⟨t, .empty, [], fun _ => none, 0⟩

variable (s : Sys)

/-- A call in another phase, or out of flight. -/
def setCall (i : Nat) (c : Option Call) : Nat → Option Call := fun k => if k = i then c else s.calls k

def begin (request : Request) : Sys :=
  { s with calls := s.setCall s.nextCall (some (.start request)), nextCall := s.nextCall + 1 }

def commit (i : Nat) (u : Commit) : Sys :=
  { s with db := u.after, issued := u.env.uuid :: s.issued, calls := s.setCall i u.reply.pending }

/-- The client gives up: a statement error, a lost connection, a crash. -/
def stop (i : Nat) : Sys := { s with calls := s.setCall i none }

@[simp] theorem setCall_self (i : Nat) (c : Option Call) : s.setCall i c i = c := if_pos rfl

theorem setCall_other {i k : Nat} (c : Option Call) (ne : k ≠ i) : s.setCall i c k = s.calls k := if_neg ne

end Sys

inductive Label where
  | tick (now : Int)
  /-- The rows of `jobs` come to lie in another order. -/
  | reorder
  | begin (i : Nat) (request : Request)
  | commit (i : Nat) (u : Commit)
  | stop (i : Nat) (c : Call)

/-- A commit reads the clock and draws a UUID never drawn before; which rows
other open transactions have locked is left open. -/
inductive Step : Sys → Label → Sys → Prop where
  | tick {s : Sys} {now : Int} (later : s.clock ≤ now) : Step s (.tick now) { s with clock := now }
  | reorder {s : Sys} {jobs : List Job} (same : jobs.Perm s.db.jobs) :
      Step s .reorder { s with db := { s.db with jobs := jobs } }
  | begin {s : Sys} (request : Request) : Step s (.begin s.nextCall request) (s.begin request)
  | commit {s : Sys} {i : Nat} {u : Commit} (inFlight : s.calls i = some u.call) (on : u.db = s.db)
      (now : u.env.now = s.clock) (fresh : u.env.uuid ∉ s.issued) : Step s (.commit i u) (s.commit i u)
  | stop {s : Sys} {i : Nat} {c : Call} (inFlight : s.calls i = some c) : Step s (.stop i c) (s.stop i)

theorem Step.commit_inv {s s' : Sys} {i : Nat} {u : Commit} (step : Step s (.commit i u) s') :
    s.calls i = some u.call ∧ u.db = s.db ∧ u.env.now = s.clock ∧ u.env.uuid ∉ s.issued ∧ s' = s.commit i u := by
  cases step with
  | commit inFlight on now fresh => exact ⟨inFlight, on, now, fresh, rfl⟩

/-! ## Replaying concrete runs -/

/-- What an environment can choose to do. -/
inductive Action where
  | tick (now : Int)
  | begin (request : Request)
  | commit (i : Nat) (uuid : Uuid)
  | stop (i : Nat)

namespace Sys

/-- Do an action, if it is enabled; no row is locked by anyone else. -/
def act (s : Sys) : Action → Option (Label × Sys)
  | .tick now => if s.clock ≤ now then some (.tick now, { s with clock := now }) else none
  | .begin request => some (.begin s.nextCall request, s.begin request)
  | .commit i uuid =>
    match s.calls i with
    | none => none
    | some c =>
      if uuid ∈ s.issued then none
      else some (.commit i ⟨c, ⟨s.clock, [], uuid⟩, s.db⟩, s.commit i ⟨c, ⟨s.clock, [], uuid⟩, s.db⟩)
  | .stop i =>
    match s.calls i with
    | none => none
    | some c => some (.stop i c, s.stop i)

def play (s : Sys) : List Action → Option (List Label × Sys)
  | [] => some ([], s)
  | a :: as =>
    match s.act a with
    | none => none
    | some (l, s) => (s.play as).map fun (ls, s) => (l :: ls, s)

theorem act_step {s s' : Sys} {a : Action} {l : Label} (h : s.act a = some (l, s')) : Step s l s' := by
  cases a with
  | tick now =>
    simp only [act, Option.ite_none_right_eq_some, Option.some.injEq, Prod.mk.injEq] at h
    obtain ⟨later, rfl, rfl⟩ := h
    exact .tick later
  | begin request =>
    simp only [act, Option.some.injEq, Prod.mk.injEq] at h
    obtain ⟨rfl, rfl⟩ := h
    exact .begin request
  | commit i uuid =>
    cases inFlight : s.calls i with
    | none => simp [act, inFlight] at h
    | some c =>
      simp only [act, inFlight, Option.ite_none_left_eq_some, Option.some.injEq, Prod.mk.injEq] at h
      obtain ⟨fresh, rfl, rfl⟩ := h
      exact .commit inFlight rfl rfl fresh
  | stop i =>
    cases inFlight : s.calls i with
    | none => simp [act, inFlight] at h
    | some c =>
      simp only [act, inFlight, Option.some.injEq, Prod.mk.injEq] at h
      obtain ⟨rfl, rfl⟩ := h
      exact .stop inFlight

/-- What is replayed is a run. -/
theorem play_run {s s' : Sys} {as : List Action} {ls : List Label} (h : s.play as = some (ls, s')) :
    Run Step s ls s' := by
  induction as generalizing s ls with
  | nil =>
    simp only [play, Option.some.injEq, Prod.mk.injEq] at h
    obtain ⟨rfl, rfl⟩ := h
    exact .nil
  | cons a as ih =>
    rw [play] at h
    rcases first : s.act a with _ | ⟨l, t⟩
    · simp [first] at h
    · simp only [first, Option.map_eq_some_iff, Prod.exists, Prod.mk.injEq] at h
      obtain ⟨rest, _, played, rfl, rfl⟩ := h
      exact .cons (act_step first) (ih played)

end Sys

namespace Sys

/-- The labels of a script of actions. -/
def trace (s : Sys) (as : List Action) : List Label := ((s.play as).map Prod.fst).getD []

/-- The state a script of actions ends in. -/
def replay (s : Sys) (as : List Action) : Sys := ((s.play as).map Prod.snd).getD s

theorem replay_run {s : Sys} {as : List Action} (enabled : (s.play as).isSome = true) :
    Run Step s (s.trace as) (s.replay as) := by
  obtain ⟨⟨ls, s'⟩, played⟩ := Option.isSome_iff_exists.1 enabled
  have run := play_run played
  simpa only [trace, replay, played, Option.map_some, Option.getD_some] using run

end Sys

/-- The script is enabled and every step of it passes a check on the state before and the label. -/
def Sys.passes (check : Sys → Label → Bool) (s : Sys) : List Action → Bool
  | [] => true
  | a :: as =>
    match s.act a with
    | none => false
    | some (l, s') => check s l && s'.passes check as

theorem Sys.play_of_passes {check : Sys → Label → Bool} {s : Sys} {as : List Action}
    (passes : s.passes check as = true) :
    ∃ ls s', s.play as = some (ls, s') ∧ Run (Restrict (fun s l => check s l = true) Step) s ls s' := by
  induction as generalizing s with
  | nil => exact ⟨[], s, rfl, .nil⟩
  | cons a as ih =>
    rw [Sys.passes] at passes
    rcases first : s.act a with _ | ⟨l, t⟩
    · simp [first] at passes
    · simp only [first, Bool.and_eq_true] at passes
      obtain ⟨ls, s', played, run⟩ := ih passes.2
      refine ⟨l :: ls, s', ?_, .cons ⟨passes.1, Sys.act_step first⟩ run⟩
      simp only [Sys.play, first, played, Option.map_some]

/-- A script that passes the check is a run of the steps that do. -/
theorem Sys.replay_passes {check : Sys → Label → Bool} {s : Sys} {as : List Action}
    (passes : s.passes check as = true) :
    Run (Restrict (fun s l => check s l = true) Step) s (s.trace as) (s.replay as) := by
  obtain ⟨ls, s', played, run⟩ := Sys.play_of_passes passes
  simpa only [trace, replay, played, Option.map_some, Option.getD_some] using run

/-- A request with the defaults for everything not named. -/
def NewJob.sample (maxAttempts : Int) (key : Option String) : NewJob where
  queue := "emails"
  jobType := "send"
  payload := "null"
  priority := 0
  idempotencyKey := key
  maxAttempts := some (.ofInt maxAttempts)
  delaySecs := none
  runAt := none
  timeoutSecs := none
  backoffBaseSecs := none
  backoffMaxSecs := none
  deadLetter := none
  metadata := "null"
  correlationId := none

def NormalizedJob.sample (maxAttempts : Int) (key : Option String) : NormalizedJob where
  queue := "emails"
  jobType := "send"
  payload := "null"
  priority := 0
  idempotencyKey := key
  maxAttempts := maxAttempts
  runAt := 0
  status := .queued
  timeoutSecs := 300
  backoffBaseSecs := 2
  backoffMaxSecs := 300
  deadLetter := true
  metadata := "null"
  correlationId := none

/-- The samples pass the checks of a submission. -/
theorem NewJob.sample_once : (NewJob.sample 1 none).normalized 0 = .ok (.sample 1 none) := rfl
theorem NewJob.sample_twice : (NewJob.sample 2 none).normalized 0 = .ok (.sample 2 none) := rfl
theorem NewJob.sample_thrice : (NewJob.sample 3 none).normalized 0 = .ok (.sample 3 none) := rfl
theorem NewJob.sample_keyed : (NewJob.sample 2 (some "k")).normalized 0 = .ok (.sample 2 (some "k")) := rfl

def Submittable.sample (maxAttempts : Int) (key : Option String)
    (ok : (NewJob.sample maxAttempts key).normalized 0 = .ok (.sample maxAttempts key)) : Submittable :=
  ⟨.sample maxAttempts key, _, _, ok⟩

/-- The row the sample is stored as, under the id 7. -/
def Job.sample (maxAttempts : Int) (key : Option String) : Job :=
  (NormalizedJob.sample maxAttempts key).row ⟨0, [], 7⟩

namespace Action

/-- Submit the sample job as call `i`, with `uuid` for its id. -/
def submit (i : Nat) (s : Submittable) (uuid : Uuid) : List Action :=
  [.begin (.submit s), .commit i (uuid + 1000), .commit i (uuid + 2000), .commit i uuid]

/-- Begin call `i` and commit its first unit. -/
def call (i : Nat) (request : Request) : List Action := [.begin request, .commit i (i + 3000)]

end Action

/-! ## What every reachable state satisfies -/

/-- There is always a UUID to draw. -/
theorem Sys.exists_fresh (issued : List Uuid) : ∃ uuid, uuid ∉ issued := by
  have bound : ∀ l : List Nat, ∃ n, ∀ m ∈ l, m < n := by
    intro l
    induction l with
    | nil => exact ⟨0, by simp⟩
    | cons m l ih =>
      obtain ⟨n, above⟩ := ih
      refine ⟨max n (m + 1), fun k mem => ?_⟩
      rcases List.mem_cons.1 mem with rfl | mem
      · omega
      · have := above k mem
        omega
  obtain ⟨n, above⟩ := bound issued
  exact ⟨n, fun mem => Nat.lt_irrefl n (above n mem)⟩

/-- The tables keep their keys and references, row ids are drawn UUIDs, and the
numbers of calls are given in order. -/
structure Sys.Sound (s : Sys) : Prop where
  keyed : Keyed Job.id s.db.jobs
  issued : ∀ j ∈ s.db.jobs, j.id ∈ s.issued
  queues : ∀ j ∈ s.db.jobs, ∃ q ∈ s.db.queues, q.name = j.queue
  idle : ∀ i, s.nextCall ≤ i → s.calls i = none

theorem Sys.sound_init (t : Int) : (Sys.init t).Sound := by
  constructor
  · exact List.nodup_nil
  · intro j mem
    exact absurd mem List.not_mem_nil
  · intro j mem
    exact absurd mem List.not_mem_nil
  · intro i _
    rfl

namespace Sys.Sound

variable {s : Sys}

/-- A call in flight has been given its number. -/
theorem lt_nextCall (sound : s.Sound) {i : Nat} {c : Call} (inFlight : s.calls i = some c) : i < s.nextCall := by
  by_contra h
  have idle := sound.idle i (by omega)
  rw [idle] at inFlight
  cases inFlight

/-- A check of the call numbers given covers every call in flight. -/
theorem of_given (sound : s.Sound) {p : Option Call → Bool}
    (check : ((List.range s.nextCall).all fun i => p (s.calls i)) = true) {i : Nat} {c : Call}
    (inFlight : s.calls i = some c) : p (some c) = true := by
  have given := List.mem_range.2 (sound.lt_nextCall inFlight)
  rw [← inFlight]
  exact List.all_eq_true.1 check i given

/-- A UUID just drawn is nobody's id. -/
theorem unused (sound : s.Sound) {uuid : Uuid} (fresh : uuid ∉ s.issued) : s.db.job? uuid = none := by
  rw [Db.job?, lookup_none_iff]
  intro j mem same
  exact fresh (same ▸ sound.issued j mem)

theorem setCall_idle (sound : s.Sound) {i : Nat} (given : i < s.nextCall) (c : Option Call) :
    ∀ k, s.nextCall ≤ k → s.setCall i c k = none := by
  intro k le
  have ne : k ≠ i := by omega
  rw [s.setCall_other c ne]
  exact sound.idle k le

theorem commit (sound : s.Sound) {i : Nat} {u : Commit} (inFlight : s.calls i = some u.call) (on : u.db = s.db) :
    (s.commit i u).Sound := by
  have jobs : JobsStep u.env s.db u.after.jobs := on ▸ u.call.jobs_step u.env u.db
  constructor
  · exact jobs.keyed sound.keyed
  · intro j mem
    obtain ⟨old, oldMem, same⟩ | ⟨_, rfl, -⟩ := jobs.origin mem
    · exact List.mem_cons_of_mem _ (same.id ▸ sound.issued old oldMem)
    · exact List.mem_cons_self
  · intro j mem
    have kept : ∀ q ∈ s.db.queues, ∃ q' ∈ u.after.queues, q'.name = q.name := fun q qMem =>
      u.call.queues_kept u.env u.db (on ▸ qMem)
    have target : ∃ q ∈ s.db.queues, q.name = j.queue := by
      obtain ⟨old, oldMem, same⟩ | ⟨_, rfl, queue⟩ := jobs.origin mem
      · rw [same.queue]
        exact sound.queues old oldMem
      · exact lookup_isSome_iff.1 queue
    obtain ⟨q, qMem, name⟩ := target
    obtain ⟨q', qMem', name'⟩ := kept q qMem
    exact ⟨q', qMem', name'.trans name⟩
  · exact sound.setCall_idle (sound.lt_nextCall inFlight) _

end Sys.Sound

theorem Step.sound {s s' : Sys} {l : Label} (sound : s.Sound) (step : Step s l s') : s'.Sound := by
  cases step with
  | tick later => exact ⟨sound.keyed, sound.issued, sound.queues, sound.idle⟩
  | reorder same =>
    constructor
    · exact sound.keyed.perm same
    · intro j mem
      exact sound.issued j (same.mem_iff.1 mem)
    · intro j mem
      exact sound.queues j (same.mem_iff.1 mem)
    · exact sound.idle
  | begin request =>
    constructor
    · exact sound.keyed
    · exact sound.issued
    · exact sound.queues
    · intro i le
      have le' : s.nextCall + 1 ≤ i := le
      have ne : i ≠ s.nextCall := by omega
      show s.setCall _ _ i = none
      rw [s.setCall_other _ ne]
      exact sound.idle i (by omega)
  | commit inFlight on now fresh => exact sound.commit inFlight on
  | stop inFlight =>
    exact ⟨sound.keyed, sound.issued, sound.queues, sound.setCall_idle (sound.lt_nextCall inFlight) _⟩

/-- Every state a run from the migrated database arrives at. -/
theorem Sys.sound_of_run {t : Int} {ls : List Label} {s : Sys} (run : Run Step (Sys.init t) ls s) : s.Sound :=
  run.invariant (Sys.sound_init t) fun _ _ _ sound step => step.sound sound

/-- A run of steps that pass a check is one of the steps the check is sound for. -/
theorem Sys.run_of_check {check : Sys → Label → Bool} {ok : Sys → Label → Prop}
    (sound : ∀ s l, s.Sound → check s l = true → ok s l) {t : Int} {ls : List Label} {s : Sys}
    (run : Run (Restrict (fun s l => check s l = true) Step) (Sys.init t) ls s) :
    Run (Restrict ok Step) (Sys.init t) ls s := by
  induction run with
  | nil => exact .nil
  | snoc before last ih => exact ih.snoc ⟨sound _ _ (Sys.sound_of_run before.unrestrict) last.1, last.2⟩

/-! ## One row over a run -/

/-- A commit follows `RowStep` on every row. -/
theorem Sys.Sound.row_step {s : Sys} (sound : s.Sound) {u : Commit} (on : u.db = s.db)
    (fresh : u.env.uuid ∉ s.issued) (id : Uuid) :
    RowStep u.env u.db id u.call u.reply (s.db.job? id) (u.after.job? id) := by
  have keyed : Keyed Job.id u.db.jobs := on ▸ sound.keyed
  have unused : u.db.job? u.env.uuid = none := on ▸ sound.unused fresh
  rw [← on]
  exact Call.row_step keyed unused u.call

/-- Only a commit touches a row. -/
theorem Step.row {s s' : Sys} {l : Label} (sound : s.Sound) (step : Step s l s') (id : Uuid) :
    ((∀ i u, l ≠ .commit i u) ∧ s'.db.job? id = s.db.job? id) ∨
    ∃ i u, l = .commit i u ∧ s.calls i = some u.call ∧ u.db = s.db ∧ u.env.now = s.clock ∧
      u.env.uuid ∉ s.issued ∧ s' = s.commit i u ∧
      RowStep u.env u.db id u.call u.reply (s.db.job? id) (s'.db.job? id) := by
  cases step with
  | tick later => exact .inl ⟨by simp, rfl⟩
  | reorder same => exact .inl ⟨by simp, sound.keyed.lookup_perm same⟩
  | begin request => exact .inl ⟨by simp, rfl⟩
  | @commit i u inFlight on now fresh =>
    exact .inr ⟨i, u, rfl, inFlight, on, now, fresh, rfl, sound.row_step on fresh id⟩
  | stop inFlight => exact .inl ⟨by simp, rfl⟩

/-- A UUID once drawn stays drawn. -/
theorem Step.issued {s s' : Sys} {l : Label} (step : Step s l s') {id : Uuid} (drawn : id ∈ s.issued) :
    id ∈ s'.issued := by
  cases step with
  | commit => exact List.mem_cons_of_mem _ drawn
  | _ => exact drawn

theorem Step.clock {s s' : Sys} {l : Label} (step : Step s l s') : s.clock ≤ s'.clock := by
  cases step with
  | tick later => exact later
  | _ => exact le_refl _

theorem Run.clock {s s' : Sys} {ls : List Label} (run : Run Step s ls s') : s.clock ≤ s'.clock := by
  induction run with
  | nil => exact le_refl _
  | snoc _ last ih => exact le_trans ih last.clock

/-- **Row invariants.** What every step in the life of a row keeps holds of
every row in every state. -/
theorem Sys.row_invariant {P : Job → Prop}
    (rows : ∀ {env db id c p r r'}, RowStep env db id c p r r' → (∀ j, r = some j → P j) → ∀ j, r' = some j → P j)
    {t : Int} {ls : List Label} {s : Sys} (run : Run Step (Sys.init t) ls s) : ∀ j ∈ s.db.jobs, P j := by
  have byId : ∀ id j, s.db.job? id = some j → P j := by
    apply run.history
    · intro id j row
      exact absurd (Db.job?_mem row) List.not_mem_nil
    · intro ls s l s' before ih step id
      obtain ⟨-, same⟩ | ⟨i, u, -, -, -, -, -, -, life⟩ := step.row (Sys.sound_of_run before) id
      · rw [same]
        exact ih id
      · exact rows life (ih id)
  intro j mem
  exact byId j.id j ((Sys.sound_of_run run).keyed.lookup_self mem)

end Djq
