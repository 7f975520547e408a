import Djq.Worker.Registry

/-!
# The heartbeat loop

`heartbeat_loop` of `crates/worker/src/runtime.rs` among the other clients: it
beats on every tick, registers again where the heartbeat finds no row, and goes
on after an error. What the registry lists is compared with the rounds the loop
has completed.
-/

namespace Djq

open Relational Transition

/-- The call a label commits a unit of, or ends. -/
def Label.number : Label → Option Nat
  | .commit i _ => some i
  | .stop i _ => some i
  | _ => none

/-- Where the loop stands. -/
inductive Pulse where
  /-- For the next tick or the shutdown. -/
  | waiting
  | beating (i : Nat)
  /-- The heartbeat has found no row. -/
  | missing
  | registering (i : Nat)
  | stopped

/-- The call the loop awaits. -/
def Pulse.call : Pulse → Option Nat
  | .beating i => some i
  | .registering i => some i
  | _ => none

/-- The loop of one worker and the store it shares. -/
structure Heart where
  sys : Sys
  pulse : Pulse

namespace Heart

inductive Label where
  /-- A step of another client, or of the clock. -/
  | other (l : Djq.Label)
  | tick (i : Nat)
  | answered (i : Nat) (u : Commit) (known : Bool)
  | reregister (i : Nat)
  | registered (i : Nat) (u : Commit)
  /-- The call returns an error, its statement committed or not. -/
  | failed (l : Djq.Label)
  | shutdown

/-- Nobody else deregisters the worker. -/
inductive Step (worker : Worker) : Heart → Label → Heart → Prop where
  | other {h : Heart} {l : Djq.Label} {sys : Sys} (step : Djq.Step h.sys l sys)
      (foreign : ∀ i, h.pulse.call = some i → l.number ≠ some i) (stays : l.sign worker.id ≠ some .gone) :
      Step worker h (.other l) ⟨sys, h.pulse⟩
  | tick {h : Heart} (waits : h.pulse = .waiting) :
      Step worker h (.tick h.sys.nextCall) ⟨h.sys.begin (.heartbeat worker.id), .beating h.sys.nextCall⟩
  | answered {h : Heart} {i : Nat} {u : Commit} {sys : Sys} {known : Bool} (beats : h.pulse = .beating i)
      (step : Djq.Step h.sys (.commit i u) sys) (reply : u.reply = .done (.ok (.known known))) :
      Step worker h (.answered i u known) ⟨sys, if known then .waiting else .missing⟩
  | reregister {h : Heart} (missing : h.pulse = .missing) :
      Step worker h (.reregister h.sys.nextCall) ⟨h.sys.begin (.registerWorker worker), .registering h.sys.nextCall⟩
  | registered {h : Heart} {i : Nat} {u : Commit} {sys : Sys} (registers : h.pulse = .registering i)
      (step : Djq.Step h.sys (.commit i u) sys) : Step worker h (.registered i u) ⟨sys, .waiting⟩
  | failed {h : Heart} {i : Nat} {l : Djq.Label} {sys : Sys} (awaits : h.pulse.call = some i)
      (step : Djq.Step h.sys l sys) (own : l.number = some i) : Step worker h (.failed l) ⟨sys, .waiting⟩
  | shutdown {h : Heart} (waits : h.pulse = .waiting) : Step worker h .shutdown ⟨h.sys, .stopped⟩

/-- What the store sees of a step. -/
def Label.seen (worker : Worker) : Label → List Djq.Label
  | .other l => [l]
  | .tick i => [.begin i (.heartbeat worker.id)]
  | .answered i u _ => [.commit i u]
  | .reregister i => [.begin i (.registerWorker worker)]
  | .registered i u => [.commit i u]
  | .failed l => [l]
  | .shutdown => []

/-- The time at which a round of the loop ends well. -/
def Label.round : Label → Option Int
  | .answered _ u true => some u.env.now
  | .registered _ u => some u.env.now
  | _ => none

/-- The commit a round ends with. -/
def Label.unit : Label → Option Commit
  | .answered _ u _ => some u
  | .registered _ u => some u
  | _ => none

/-! ## What holds while the loop runs -/

variable {worker : Worker} {t : Int} {pre : List Djq.Label} {s₀ : Sys} {ls : List Label} {h h' : Heart} {l : Label}

/-- What the store sees of a step, as steps of the store. -/
theorem Step.seen (step : Step worker h l h') : Run Djq.Step h.sys (l.seen worker) h'.sys := by
  cases step with
  | other step => exact .one step
  | tick => exact .one (.begin _)
  | answered _ step => exact .one step
  | reregister => exact .one (.begin _)
  | registered _ step => exact .one step
  | failed _ step => exact .one step
  | shutdown => exact .nil

theorem seen_of_run (run : Run (Step worker) ⟨s₀, .waiting⟩ ls h) :
    Run Djq.Step s₀ (ls.flatMap (Label.seen worker)) h.sys := by
  induction run with
  | nil => exact .nil
  | snoc _ last ih =>
    rw [List.flatMap_append, List.flatMap_singleton]
    exact ih.append last.seen

/-- The call a loop awaits is the one it has made. -/
structure Sound (worker : Worker) (h : Heart) : Prop where
  beating : ∀ i, h.pulse = .beating i → h.sys.calls i = some (.start (.heartbeat worker.id))
  registering : ∀ i, h.pulse = .registering i → h.sys.calls i = some (.start (.registerWorker worker))

theorem Sound.idle (idle : h.pulse.call = none) : h.Sound worker := by
  constructor
  · intro i beats
    rw [beats] at idle
    cases idle
  · intro i registers
    rw [registers] at idle
    cases idle

theorem call_kept {s s' : Sys} {l : Djq.Label} {i : Nat} {c : Call} (sound : s.Sound) (step : Djq.Step s l s')
    (foreign : l.number ≠ some i) (inFlight : s.calls i = some c) : s'.calls i = some c := by
  cases step with
  | tick later => exact inFlight
  | reorder same => exact inFlight
  | begin request =>
    have ne : i ≠ s.nextCall := ne_of_lt (sound.lt_nextCall inFlight)
    show s.setCall _ _ i = _
    rw [s.setCall_other _ ne]
    exact inFlight
  | @commit k u inFlight' on now fresh =>
    have ne : i ≠ k := fun same => foreign (congrArg some same.symm)
    show s.setCall _ _ i = _
    rw [s.setCall_other _ ne]
    exact inFlight
  | @stop k c' inFlight' =>
    have ne : i ≠ k := fun same => foreign (congrArg some same.symm)
    show s.setCall _ _ i = _
    rw [s.setCall_other _ ne]
    exact inFlight

theorem Sound.step (sound : h.Sound worker) (sys : h.sys.Sound) (step : Step worker h l h') : h'.Sound worker := by
  cases step with
  | other step foreign stays =>
    constructor
    · intro i beats
      exact call_kept sys step (foreign i (by rw [beats]; rfl)) (sound.beating i beats)
    · intro i registers
      exact call_kept sys step (foreign i (by rw [registers]; rfl)) (sound.registering i registers)
  | tick waits =>
    constructor
    · rintro i ⟨⟩
      exact h.sys.setCall_self _ _
    · rintro i ⟨⟩
  | @answered i u sys' known beats step reply =>
    apply Sound.idle
    cases known with
    | false => rfl
    | true => rfl
  | reregister missing =>
    constructor
    · rintro i ⟨⟩
    · rintro i ⟨⟩
      exact h.sys.setCall_self _ _
  | registered registers step => exact .idle rfl
  | failed awaits step own => exact .idle rfl
  | shutdown waits => exact .idle rfl

theorem sound_of_run (before : Run Djq.Step (Sys.init t) pre s₀) (run : Run (Step worker) ⟨s₀, .waiting⟩ ls h) :
    h.Sound worker := by
  induction run with
  | nil => exact .idle rfl
  | snoc rest last ih => exact ih.step (Sys.sound_of_run (before.append (seen_of_run rest))) last

/-- A round that ends well ends with a sign of life, and with a row that bears it. -/
theorem Step.round (step : Step worker h l h') (sound : h.Sound worker) (keyed : Keyed Worker.id h.sys.db.workers)
    {beat : Int} (ended : l.round = some beat) :
    ∃ i u, l.seen worker = [.commit i u] ∧ l.unit = some u ∧ beat = u.env.now ∧ u.env.now = h.sys.clock ∧
      (Djq.Label.commit i u).sign worker.id = some (.alive beat) ∧
      ∃ w, u.after.worker? worker.id = some w ∧ w.lastHeartbeat = beat := by
  cases step with
  | @answered i u sys known beats step reply =>
    cases known with
    | false => cases ended
    | true =>
      obtain rfl := Option.some.inj ended
      obtain ⟨inFlight, on, now, -, -⟩ := step.commit_inv
      have called : u.call = .start (.heartbeat worker.id) :=
        Option.some.inj (inFlight.symm.trans (sound.beating i beats))
      have life : MemberStep u.env worker.id u.call u.reply (u.db.worker? worker.id) (u.after.worker? worker.id) :=
        u.call.member_step (on ▸ keyed)
      refine ⟨i, u, rfl, rfl, rfl, now, ?_, ?_⟩
      · show u.call.sign u.env worker.id u.reply = _
        rw [called, reply, Call.sign, if_pos rfl]
      · generalize u.db.worker? worker.id = r at life
        generalize u.after.worker? worker.id = r' at life ⊢
        rw [called, reply] at life
        cases life with
        | other silent noBeat => exact absurd rfl noBeat
        | beaten => exact ⟨_, rfl, rfl⟩
  | @registered i u sys registers step =>
    obtain rfl := Option.some.inj ended
    obtain ⟨inFlight, on, now, -, -⟩ := step.commit_inv
    have called : u.call = .start (.registerWorker worker) :=
      Option.some.inj (inFlight.symm.trans (sound.registering i registers))
    have life : MemberStep u.env worker.id u.call u.reply (u.db.worker? worker.id) (u.after.worker? worker.id) :=
      u.call.member_step (on ▸ keyed)
    have sign : u.call.sign u.env worker.id u.reply = some (.alive u.env.now) := by
      rw [called, Call.sign, if_pos rfl]
    refine ⟨i, u, rfl, rfl, rfl, now, sign, ?_⟩
    generalize u.db.worker? worker.id = r at life
    generalize u.after.worker? worker.id = r' at life ⊢
    generalize u.reply = p at life sign
    rw [called] at life sign
    cases life with
    | other silent => cases silent.symm.trans sign
    | registered isId => exact ⟨_, rfl, rfl⟩
  | _ => cases ended

/-- The store sees at most one step of it, and no deregistration of the worker. -/
theorem Step.said (step : Step worker h l h') (sound : h.Sound worker) :
    (l.seen worker = [] ∧ h'.sys = h.sys) ∨
      ∃ k, l.seen worker = [k] ∧ Djq.Step h.sys k h'.sys ∧ k.sign worker.id ≠ some .gone := by
  have own : ∀ {i u sys}, Djq.Step h.sys (.commit i u) sys → h.pulse.call = some i →
      (Djq.Label.commit i u).sign worker.id ≠ some .gone := by
    intro i u sys step awaits
    obtain ⟨inFlight, -⟩ := step.commit_inv
    show u.call.sign u.env worker.id u.reply ≠ _
    have called : u.call = .start (.heartbeat worker.id) ∨ u.call = .start (.registerWorker worker) := by
      cases pulse : h.pulse with
      | beating k =>
        rw [pulse] at awaits
        obtain rfl := Option.some.inj awaits
        exact .inl (Option.some.inj (inFlight.symm.trans (sound.beating k pulse)))
      | registering k =>
        rw [pulse] at awaits
        obtain rfl := Option.some.inj awaits
        exact .inr (Option.some.inj (inFlight.symm.trans (sound.registering k pulse)))
      | _ =>
        rw [pulse] at awaits
        cases awaits
    rcases called with called | called <;> rw [called] <;> unfold Call.sign <;> split <;> simp_all
  cases step with
  | other step foreign stays => exact .inr ⟨_, rfl, step, stays⟩
  | tick => exact .inr ⟨_, rfl, .begin _, by simp [Djq.Label.sign]⟩
  | answered beats step => exact .inr ⟨_, rfl, step, own step (by rw [beats]; rfl)⟩
  | reregister => exact .inr ⟨_, rfl, .begin _, by simp [Djq.Label.sign]⟩
  | registered registers step => exact .inr ⟨_, rfl, step, own step (by rw [registers]; rfl)⟩
  | @failed i k sys awaits step number =>
    refine .inr ⟨k, rfl, step, ?_⟩
    cases k with
    | commit i' u =>
      obtain rfl := Option.some.inj number
      exact own step awaits
    | _ => simp [Djq.Label.sign]
  | shutdown => exact .inl ⟨rfl, rfl⟩

/-- The last sign of life is no older than the last round that ended well. -/
def Fresh (worker : Worker) (pre : List Djq.Label) (ls : List Label) (h : Heart) : Prop :=
  ∀ beat, latest Label.round ls = some beat → beat ≤ h.sys.clock ∧
    ∃ beat', latest (Djq.Label.sign worker.id) (pre ++ ls.flatMap (Label.seen worker)) = some (.alive beat') ∧
      beat ≤ beat'

theorem Fresh.step (fresh : Fresh worker pre ls h) (sound : h.Sound worker)
    (keyed : Keyed Worker.id h.sys.db.workers) (step : Step worker h l h') : Fresh worker pre (ls ++ [l]) h' := by
  intro beat last
  rw [List.flatMap_append, List.flatMap_singleton, ← List.append_assoc, latest_append]
  cases ended : l.round with
  | some b =>
    rw [latest_snoc_some ended] at last
    obtain rfl := Option.some.inj last
    obtain ⟨i, u, seen, -, at', now, sign, -⟩ := step.round sound keyed ended
    have later : h.sys.clock ≤ h'.sys.clock := Run.clock step.seen
    refine ⟨by omega, b, ?_, le_refl b⟩
    have word : latest (Djq.Label.sign worker.id) (l.seen worker) = some (.alive b) := by
      rw [seen]
      exact latest_snoc_some sign []
    rw [word, Option.some_or]
  | none =>
    rw [latest_snoc_none ended] at last
    obtain ⟨past, beat', said, order⟩ := fresh beat last
    obtain ⟨seen, same⟩ | ⟨k, seen, store, stays⟩ := step.said sound
    · rw [seen, latest_nil, Option.none_or, same]
      exact ⟨past, beat', said, order⟩
    · have later := store.clock
      refine ⟨by omega, ?_⟩
      have word : latest (Djq.Label.sign worker.id) (l.seen worker) = k.sign worker.id := by
        rw [seen, ← List.nil_append [k], latest_snoc, latest_nil, Option.or_none]
      rw [word]
      cases sign : k.sign worker.id with
      | none =>
        rw [Option.none_or]
        exact ⟨beat', said, order⟩
      | some b =>
        cases b with
        | gone => exact absurd sign stays
        | alive now =>
          have here : now = h.sys.clock := store.alive_clock sign
          rw [Option.some_or]
          exact ⟨now, rfl, by omega⟩

/-- **A beating worker is in the registry.** Whatever the other clients do short of
deregistering it: a round that ends well leaves the worker a row with a heartbeat
of that moment, however often it has been pruned before; and as long as no prune
is stricter than the window, the worker is listed as active until the window has
passed since its last such round. -/
theorem beating_worker_listed (before : Run Djq.Step (Sys.init t) pre s₀)
    (run : Run (Step worker) ⟨s₀, .waiting⟩ ls h) :
    (∀ l ∈ ls, ∀ beat, l.round = some beat → ∃ u w, l.unit = some u ∧ u.after.worker? worker.id = some w ∧
      w.lastHeartbeat = beat) ∧
    ∀ within : Int, (∀ l ∈ pre ++ ls.flatMap (Label.seen worker), l.Lenient within) →
      ∀ beat, latest Label.round ls = some beat → h.sys.clock - seconds within < beat →
      ∀ {env : Env}, env.now = h.sys.clock → ∀ {rows : List Worker}, rows.Perm h.sys.db.workers →
      ∃ w ∈ { h.sys.db with workers := rows }.listActiveWorkers env within, w.id = worker.id ∧ beat ≤ w.lastHeartbeat := by
  constructor
  · intro l mem beat ended
    obtain ⟨a, b, rfl⟩ := List.append_of_mem mem
    obtain ⟨h₁, h₂, first, step, -⟩ := run.at_label
    have keyed := Sys.workers_keyed_of_run (before.append (seen_of_run first))
    obtain ⟨i, u, -, isUnit, -, -, -, w, row, last⟩ := step.round (sound_of_run before first) keyed ended
    exact ⟨u, w, isUnit, row, last⟩
  · intro within lenient beat last recent env now rows lies
    have fresh : Fresh worker pre ls h := by
      clear lenient last recent now lies
      induction run with
      | nil =>
        intro beat last
        cases last
      | snoc rest last ih =>
        exact ih.step (sound_of_run before rest)
          (Sys.workers_keyed_of_run (before.append (seen_of_run rest))) last
    obtain ⟨-, beat', said, order⟩ := fresh beat last
    have heard := Sys.heard_of_run (before.append (seen_of_run run)) lenient worker.id
    cases stored : h.sys.db.worker? worker.id with
    | none =>
      have old := heard.absent stored beat' said
      omega
    | some w =>
      obtain ⟨inside, isId⟩ := lookup_mem stored
      have same := said.symm.trans (heard.present w stored).1
      injection same with same
      injection same with same
      refine ⟨w, ?_, isId, same ▸ order⟩
      show w ∈ orderBy Db.registeredOrder (rows.filter (Db.active env within))
      rw [mem_orderBy, List.mem_filter, lies.mem_iff, Db.active, decide_eq_true_eq, now]
      exact ⟨inside, by omega⟩

/-- A registered worker beats once, after twenty seconds. -/
def beatStart : Sys := (Sys.init 0).replay (Action.call 0 (.registerWorker (.sample 1)))

def beatWaited : Sys := { beatStart with clock := seconds 20 }

def beatCommit : Commit := ⟨.start (.heartbeat 1), ⟨seconds 20, [], 3001⟩, beatStart.db⟩

def beatEnd : Heart := ⟨(beatWaited.begin (.heartbeat 1)).commit 1 beatCommit, .waiting⟩

theorem beating_worker_listed_once :
    ∃ w ∈ beatEnd.sys.db.listActiveWorkers ⟨seconds 20, [], 0⟩ 30, w.id = 1 ∧ seconds 20 ≤ w.lastHeartbeat := by
  have before := @Sys.replay_run (Sys.init 0) (Action.call 0 (.registerWorker (.sample 1))) (by decide)
  have waited : Step (.sample 1) ⟨beatStart, .waiting⟩ (.other (.tick (seconds 20))) ⟨beatWaited, .waiting⟩ :=
    .other (.tick (by decide)) (by intro i no; cases no) (by decide)
  have began : Step (.sample 1) ⟨beatWaited, .waiting⟩ (.tick 1) ⟨beatWaited.begin (.heartbeat 1), .beating 1⟩ :=
    .tick rfl
  have committed : Djq.Step (beatWaited.begin (.heartbeat 1)) (.commit 1 beatCommit) beatEnd.sys :=
    .commit rfl rfl rfl (by decide)
  have answered : Step (.sample 1) ⟨beatWaited.begin (.heartbeat 1), .beating 1⟩ (.answered 1 beatCommit true) beatEnd :=
    @Step.answered (.sample 1) ⟨beatWaited.begin (.heartbeat 1), .beating 1⟩ 1 beatCommit _ true rfl committed rfl
  have run := ((Run.one waited).snoc began).snoc answered
  obtain ⟨-, listed⟩ := beating_worker_listed before run
  exact listed 30 (by decide) (seconds 20) (by decide) (by decide) rfl (List.Perm.refl _)

end Heart

end Djq
