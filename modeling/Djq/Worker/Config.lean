import Djq.Worker.Runtime
import Mathlib.Data.List.DropRight

/-!
# The configuration of a worker

`WorkerConfig::from_env`, `crates/worker/src/config.rs`, and what
`WorkerRuntime::run` makes of the concurrency: the permits of its semaphore and
the number in its registry row. `usize` is the one of a 64-bit target.
-/

namespace Djq

open Relational Transition

/-! ## Reading a setting -/

/-- The variables of a process, as far as they are set and valid Unicode. -/
abbrev Vars := String → Option String

/-- `str::trim`. -/
def trim (s : String) : String := String.ofList ((s.toList.dropWhile isWhiteSpace).rdropWhile isWhiteSpace)

/-- The digits that follow the sign, if any. -/
def parseDigits (cs : List Char) : Option Nat :=
  if cs ≠ [] ∧ cs.all Char.isDigit then some (Nat.ofDigitChars 10 cs 0) else none

def checkedI64 (n : Int) : Option Int64 :=
  if -2 ^ 63 ≤ n ∧ n < 2 ^ 63 then some (Int64.ofInt n) else none

/-- `str::parse::<i64>`. -/
def parseI64 (s : String) : Option Int64 :=
  match s.toList with
  | '-' :: cs => (parseDigits cs).bind fun n => checkedI64 (-n)
  | '+' :: cs => (parseDigits cs).bind fun n => checkedI64 n
  | cs => (parseDigits cs).bind fun n => checkedI64 n

def envParse (vars : Vars) (key : String) : Option Int64 := (vars key).bind fun v => parseI64 (trim v)

theorem trim_eq_self {s : String} (tight : ∀ c ∈ s.toList, isWhiteSpace c = false) : trim s = s := by
  have front : s.toList.dropWhile isWhiteSpace = s.toList := by
    cases chars : s.toList with
    | nil => rfl
    | cons c cs => exact List.dropWhile_cons_of_neg (by simp [tight c (by simp [chars])])
  have back : s.toList.rdropWhile isWhiteSpace = s.toList := by
    rw [List.rdropWhile_eq_self_iff]
    intro some last
    simp [tight _ (List.getLast_mem some)] at last
  rw [trim, front, back, String.ofList_toList]

/-- What is left of a name is a name that `normalized` does not refuse. -/
theorem trimIsEmpty_trim {s : String} (some : trim s ≠ "") : trimIsEmpty (trim s) = false := by
  have chars : (s.toList.dropWhile isWhiteSpace).rdropWhile isWhiteSpace ≠ [] := by
    intro none
    apply some
    rw [trim, none]
  rw [trimIsEmpty, trim, String.toList_ofList, ← Bool.not_eq_true, List.all_eq_true]
  intro blank
  exact List.rdropWhile_last_not _ _ chars (blank _ (List.getLast_mem chars))

theorem checkedI64_toInt (n : Int64) : checkedI64 n.toInt = some n := by
  rw [checkedI64, if_pos ⟨n.le_toInt, n.toInt_lt⟩, Int64.ofInt_toInt]

theorem parseDigits_toDigits (n : Nat) : parseDigits (Nat.toDigits 10 n) = some n := by
  have digits : (Nat.toDigits 10 n).all Char.isDigit = true := by
    rw [List.all_eq_true]
    intro c mem
    exact Nat.isDigit_of_mem_toDigits (by decide) (by decide) mem
  rw [parseDigits, if_pos ⟨Nat.toDigits_ne_nil, digits⟩, Nat.ofDigitChars_ten_toDigits]

theorem parseI64_unsigned {s : String} (digits : ∀ c ∈ s.toList, c.isDigit = true) :
    parseI64 s = (parseDigits s.toList).bind fun n => checkedI64 n := by
  rw [parseI64]
  split
  · rename_i signed
    cases digits '-' (by simp [signed])
  · rename_i signed
    cases digits '+' (by simp [signed])
  · rfl

theorem toList_toString_natCast (m : Nat) : (toString (m : Int)).toList = Nat.toDigits 10 m := Nat.toList_repr

theorem toList_toString_negSucc (m : Nat) : (toString (Int.negSucc m)).toList = '-' :: Nat.toDigits 10 (m + 1) := by
  show ("-" ++ Nat.repr (m + 1)).toList = _
  rw [String.toList_append, Nat.toList_repr]
  rfl

/-- The text of a number is of digits, but for its sign. -/
theorem mem_toString {n : Int} {c : Char} (mem : c ∈ (toString n).toList) : c = '-' ∨ c.isDigit = true := by
  cases n with
  | ofNat m =>
    rw [Int.ofNat_eq_natCast, toList_toString_natCast] at mem
    exact .inr (Nat.isDigit_of_mem_toDigits (by decide) (by decide) mem)
  | negSucc m =>
    rw [toList_toString_negSucc] at mem
    obtain rfl | digit := List.mem_cons.1 mem
    · exact .inl rfl
    · exact .inr (Nat.isDigit_of_mem_toDigits (by decide) (by decide) digit)

/-- Every number is read from its own text. -/
theorem parseI64_toString (n : Int64) : parseI64 (toString n.toInt) = some n := by
  have checked := checkedI64_toInt n
  cases number : n.toInt with
  | ofNat m =>
    rw [number, Int.ofNat_eq_natCast] at checked
    rw [Int.ofNat_eq_natCast, parseI64_unsigned, toList_toString_natCast, parseDigits_toDigits, Option.bind_some,
      checked]
    intro c mem
    rw [toList_toString_natCast] at mem
    exact Nat.isDigit_of_mem_toDigits (by decide) (by decide) mem
  | negSucc m =>
    have negated : Int.negSucc m = -((m + 1 : Nat) : Int) := by omega
    rw [number, negated] at checked
    rw [parseI64, toList_toString_negSucc]
    show (parseDigits (Nat.toDigits 10 (m + 1))).bind (fun n => checkedI64 (-(n : Int))) = some n
    rw [parseDigits_toDigits, Option.bind_some, checked]

theorem isWhiteSpace_of_isDigit {c : Char} (digit : c.isDigit = true) : isWhiteSpace c = false := by
  have range : 48 ≤ c.toNat ∧ c.toNat ≤ 57 := by
    simpa [Char.isDigit, UInt32.le_iff_toNat_le] using digit
  simp [isWhiteSpace]
  omega

/-- A variable can be set to any number. -/
theorem exists_envParse (key : String) (n : Int64) : ∃ vars : Vars, envParse vars key = some n := by
  refine ⟨fun _ => some (toString n.toInt), ?_⟩
  rw [envParse, Option.bind_some, trim_eq_self, parseI64_toString]
  intro c mem
  obtain rfl | digit := mem_toString mem
  · decide
  · exact isWhiteSpace_of_isDigit digit

/-! ## The settings -/

/-- `Duration::from_millis`. -/
def fromMillis (n : UInt64) : Int := n.toNat * 1000

/-- `Duration::from_secs`. -/
def fromSecs (n : UInt64) : Int := seconds n.toNat

structure WorkerConfig where
  id : Uuid
  hostname : String
  queues : List String
  concurrency : UInt64
  leaseSecs : Int64
  pollInterval : Int
  heartbeatInterval : Int
  shutdownGrace : Int

namespace WorkerConfig

def default (id : Uuid) : WorkerConfig where
  id := id
  hostname := "unknown"
  queues := ["default"]
  concurrency := 8
  leaseSecs := 30
  pollInterval := fromMillis 500
  heartbeatInterval := fromSecs 10
  shutdownGrace := fromSecs 30

/-- The names in a comma-separated list. -/
def splitQueues (list : String) : List String :=
  ((list.toList.splitOn ',').map fun name => trim (String.ofList name)).filter fun name => decide (name ≠ "")

def fromEnv (id : Uuid) (vars : Vars) : WorkerConfig where
  id := id
  hostname := ((vars "HOSTNAME").filter fun h => decide (h ≠ "")).getD (default id).hostname
  queues := (((vars "WORKER_QUEUES").map splitQueues).filter fun names => decide (names ≠ [])).getD (default id).queues
  -- the cast comes before the bound here, and after it below
  concurrency := (envParse vars "WORKER_CONCURRENCY").elim (default id).concurrency fun n => max n.toUInt64 1
  leaseSecs := (envParse vars "WORKER_LEASE_SECS").elim (default id).leaseSecs fun n => max n 1
  pollInterval :=
    (envParse vars "WORKER_POLL_MS").elim (default id).pollInterval fun n => fromMillis (max n 10).toUInt64
  heartbeatInterval :=
    (envParse vars "WORKER_HEARTBEAT_SECS").elim (default id).heartbeatInterval fun n => fromSecs (max n 1).toUInt64
  shutdownGrace :=
    (envParse vars "WORKER_SHUTDOWN_GRACE_SECS").elim (default id).shutdownGrace fun n => fromSecs (max n 1).toUInt64

/-- The row `run` registers. -/
def worker (cfg : WorkerConfig) (now : Int) : Worker where
  id := cfg.id
  hostname := cfg.hostname
  queues := cfg.queues
  concurrency := cfg.concurrency.toUInt32.toInt32.toInt
  registeredAt := now
  lastHeartbeat := now

end WorkerConfig

/-- `usize::MAX >> 3`: `Semaphore::new` panics above it. -/
def maxPermits : Nat := (2 ^ 64 - 1) >>> 3

/-! ## Casts -/

/-- `n as usize`. -/
theorem toNat_toUInt64 (n : Int64) :
    (n.toUInt64.toNat : Int) = if 0 ≤ n.toInt then n.toInt else n.toInt + 2 ^ 64 := by
  have lower := n.le_toInt
  have upper := n.toInt_lt
  have bits : n.toInt = n.toBitVec.toInt := rfl
  rw [BitVec.toInt_eq_toNat_cond] at bits
  have same : n.toUInt64.toNat = n.toBitVec.toNat := rfl
  rw [same]
  split at bits <;> split <;> omega

/-- `c as i32`. -/
theorem toInt_toInt32 (c : UInt64) : c.toUInt32.toInt32.toInt = (c.toNat : Int).bmod (2 ^ 32) := by
  show c.toUInt32.toBitVec.toInt = _
  rw [BitVec.toInt_eq_toNat_bmod, UInt32.toNat_toBitVec, UInt64.toNat_toUInt32, Int.natCast_mod]
  exact Int.emod_bmod _ _

theorem toInt32_eq_iff (c : UInt64) : c.toUInt32.toInt32.toInt = c.toNat ↔ c.toNat < 2 ^ 31 := by
  rw [toInt_toInt32]
  constructor
  · intro same
    have below : (c.toNat : Int).bmod (2 ^ 32) < _ := Int.bmod_lt (by decide)
    omega
  · intro below
    exact Int.bmod_eq_of_le (by omega) (by omega)

theorem toInt_max (n m : Int64) : (max n m).toInt = max n.toInt m.toInt := by
  show (if n ≤ m then m else n).toInt = _
  split
  · rename_i le
    exact (max_eq_right (Int64.le_iff_toInt_le.1 le)).symm
  · rename_i gt
    rw [Int64.le_iff_toInt_le] at gt
    omega

/-- A number with a bound put under it first is cast to itself. -/
theorem toNat_toUInt64_max {n m : Int64} (natural : 0 ≤ m.toInt) :
    ((max n m).toUInt64.toNat : Int) = max n.toInt m.toInt := by
  rw [toNat_toUInt64, toInt_max]
  omega

/-! ## What every configuration has -/

namespace WorkerConfig

/-- Every setting is at or above its bound, and no name is blank. -/
structure Floored (cfg : WorkerConfig) : Prop where
  hostname : cfg.hostname ≠ ""
  queues : cfg.queues ≠ []
  /-- A submission to such a queue is not refused for its name. -/
  names : ∀ q ∈ cfg.queues, trimIsEmpty q = false
  concurrency : 1 ≤ cfg.concurrency.toNat
  leaseSecs : 1 ≤ cfg.leaseSecs.toInt
  pollInterval : fromMillis 10 ≤ cfg.pollInterval
  heartbeatInterval : fromSecs 1 ≤ cfg.heartbeatInterval
  shutdownGrace : fromSecs 1 ≤ cfg.shutdownGrace

variable {id : Uuid} {vars : Vars} {n : Int64}

theorem splitQueues_names {list name : String} (mem : name ∈ splitQueues list) : trimIsEmpty name = false := by
  obtain ⟨piece, some⟩ := List.mem_filter.1 mem
  obtain ⟨chars, -, rfl⟩ := List.mem_map.1 piece
  exact trimIsEmpty_trim (of_decide_eq_true some)

theorem le_fromMillis_max (n : Int64) : fromMillis 10 ≤ fromMillis (max n 10).toUInt64 := by
  have cast : ((max n 10).toUInt64.toNat : Int) = max n.toInt 10 := toNat_toUInt64_max (by decide)
  show 10 * 1000 ≤ ((max n 10).toUInt64.toNat : Int) * 1000
  omega

theorem le_fromSecs_max (n : Int64) : fromSecs 1 ≤ fromSecs (max n 1).toUInt64 := by
  have cast : ((max n 1).toUInt64.toNat : Int) = max n.toInt 1 := toNat_toUInt64_max (by decide)
  show 1 * 1000000 ≤ ((max n 1).toUInt64.toNat : Int) * 1000000
  omega

theorem one_le_max (n : Int64) : 1 ≤ (max n 1).toInt := by
  rw [toInt_max]
  exact le_max_right _ _

/-- The defaults meet what is asked of the settings. -/
theorem default_floored (id : Uuid) : (default id).Floored where
  hostname := show "unknown" ≠ "" by decide
  queues := show ["default"] ≠ [] by decide
  names := show ∀ q ∈ ["default"], trimIsEmpty q = false by decide
  concurrency := show 1 ≤ (8 : UInt64).toNat by decide
  leaseSecs := show 1 ≤ (30 : Int64).toInt by decide
  pollInterval := show fromMillis 10 ≤ fromMillis 500 by decide
  heartbeatInterval := show fromSecs 1 ≤ fromSecs 10 by decide
  shutdownGrace := show fromSecs 1 ≤ fromSecs 30 by decide

/-- A setting has what its default and every number it may be set to have. -/
theorem elim_has {α β : Type} (P : β → Prop) {unset : β} {set : α → β} (parsed : Option α)
    (hasUnset : P unset) (hasSet : ∀ n, P (set n)) : P (parsed.elim unset set) := by
  cases parsed with
  | none => exact hasUnset
  | some n => exact hasSet n

/-- A text that is kept passes the filter, if the default does. -/
theorem getD_filter_has {α : Type} (P : α → Prop) [DecidablePred P] {unset : α} (text : Option α)
    (hasUnset : P unset) : P ((text.filter fun a => decide (P a)).getD unset) := by
  cases kept : text.filter fun a => decide (P a) with
  | none => exact hasUnset
  | some a => exact of_decide_eq_true (Option.filter_eq_some_iff.1 kept).2

/-- **Every configuration keeps its bounds**, whatever the variables hold. -/
theorem floored (id : Uuid) (vars : Vars) : (fromEnv id vars).Floored where
  hostname := getD_filter_has (· ≠ "") _ (default_floored id).hostname
  queues := getD_filter_has (· ≠ []) _ (default_floored id).queues
  names := by
    show ∀ q ∈ Option.getD _ _, trimIsEmpty q = false
    cases kept : ((vars "WORKER_QUEUES").map splitQueues).filter fun names => decide (names ≠ []) with
    | none => exact (default_floored id).names
    | some names =>
      obtain ⟨list, -, rfl⟩ := Option.map_eq_some_iff.1 (Option.filter_eq_some_iff.1 kept).1
      exact fun q mem => splitQueues_names mem
  concurrency := by
    apply elim_has (fun c : UInt64 => 1 ≤ c.toNat) _ (default_floored id).concurrency
    intro n
    rw [UInt64.toNat_max]
    exact le_max_right _ _
  leaseSecs := elim_has (fun n : Int64 => 1 ≤ n.toInt) _ (default_floored id).leaseSecs one_le_max
  pollInterval := elim_has (fromMillis 10 ≤ ·) _ (default_floored id).pollInterval le_fromMillis_max
  heartbeatInterval := elim_has (fromSecs 1 ≤ ·) _ (default_floored id).heartbeatInterval le_fromSecs_max
  shutdownGrace := elim_has (fromSecs 1 ≤ ·) _ (default_floored id).shutdownGrace le_fromSecs_max

/-! ## The concurrency -/

/-- The rows of the worker after it has registered. -/
theorem registerWorker_rows (db : Db) (env : Env) (worker : Worker) :
    (∃ w ∈ (db.registerWorker env worker).workers, w.id = worker.id) ∧
    ∀ w ∈ (db.registerWorker env worker).workers, w.id = worker.id → w.concurrency = worker.concurrency := by
  unfold Db.registerWorker
  dsimp only
  split
  · rename_i registered
    obtain ⟨old, mem, same⟩ := lookup_isSome_iff.1 registered
    refine ⟨⟨_, mem_updateWhere.2 ⟨old, mem, rfl⟩, ?_⟩, ?_⟩
    · split
      · exact same
      · exact same
    · intro w mem id
      obtain ⟨old, -, rfl⟩ := mem_updateWhere.1 mem
      split at id
      · rename_i isOne
        rw [if_pos isOne]
      · rename_i other
        exact absurd (decide_eq_true id) other
  · rename_i unregistered
    refine ⟨⟨_, List.mem_append_right _ (List.mem_singleton.2 rfl), rfl⟩, ?_⟩
    intro w mem id
    rcases List.mem_append.1 mem with old | new
    · exact absurd (lookup_isSome_iff.2 ⟨w, old, id⟩) unregistered
    · rw [List.mem_singleton.1 new]

/-- The concurrency is one the worker can run with, and no more than `n` asks for. -/
structure Usable (n : Int64) (cfg : WorkerConfig) : Prop where
  positive : 1 ≤ cfg.concurrency.toNat
  accepted : cfg.concurrency.toNat ≤ maxPermits
  atMost : (cfg.concurrency.toNat : Int) ≤ max n.toInt 1
  registered (now : Int) (env : Env) (db : Db) :
    (∃ w ∈ (db.registerWorker env (cfg.worker now)).workers, w.id = cfg.id) ∧
    ∀ w ∈ (db.registerWorker env (cfg.worker now)).workers, w.id = cfg.id → w.concurrency = cfg.concurrency.toNat

/-- The cast of a negative number wraps around, above the bound that follows it. -/
theorem concurrency_eq (set : envParse vars "WORKER_CONCURRENCY" = some n) :
    ((fromEnv id vars).concurrency.toNat : Int) = if 0 ≤ n.toInt then max n.toInt 1 else n.toInt + 2 ^ 64 := by
  have eq : (fromEnv id vars).concurrency = max n.toUInt64 1 := by rw [fromEnv, set, Option.elim_some]
  have cast := toNat_toUInt64 n
  have lower := n.le_toInt
  have one : (1 : UInt64).toNat = 1 := by decide
  rw [eq, UInt64.toNat_max, one]
  split at cast
  · rename_i natural
    rw [if_pos natural]
    omega
  · rename_i negative
    rw [if_neg negative]
    omega

/-- Where the cast does not wrap, the loop never executes more jobs at once than it was told to. -/
theorem executing_le_configured (registry : String → Bool) (set : envParse vars "WORKER_CONCURRENCY" = some n)
    (natural : 0 ≤ n.toInt) {ls : List Runtime.Label} {s : Runtime}
    (run : Run (Runtime.Step registry) (.init (fromEnv id vars).concurrency.toNat) ls s) :
    (s.tasks.countP Task.executing : Int) ≤ max n.toInt 1 := by
  have slots := (Runtime.accounted_of_run run).executing_le
  have eq := @concurrency_eq id _ _ set
  rw [if_pos natural] at eq
  omega

/-- **The configured concurrency is usable** exactly if it is neither negative nor
above the range of the `i32` in the registry row. -/
theorem concurrency_usable_iff (id : Uuid) {vars : Vars} {n : Int64}
    (set : envParse vars "WORKER_CONCURRENCY" = some n) :
    (fromEnv id vars).Usable n ↔ 0 ≤ n.toInt ∧ n.toInt < 2 ^ 31 := by
  have eq := @concurrency_eq id _ _ set
  have lower := n.le_toInt
  constructor
  · intro usable
    have atMost := usable.atMost
    have natural : 0 ≤ n.toInt := by
      by_contra negative
      rw [if_neg negative] at eq
      omega
    obtain ⟨⟨w, mem, own⟩, same⟩ := usable.registered 0 ⟨0, [], 0⟩ .empty
    have stored := (registerWorker_rows .empty ⟨0, [], 0⟩ ((fromEnv id vars).worker 0)).2 w mem own
    have below := (toInt32_eq_iff _).1 (stored.symm.trans (same w mem own))
    rw [if_pos natural] at eq
    omega
  · rintro ⟨natural, small⟩
    rw [if_pos natural] at eq
    have below : (fromEnv id vars).concurrency.toNat < 2 ^ 31 := by omega
    have permits : 2 ^ 31 ≤ maxPermits := by decide
    refine ⟨(floored id vars).concurrency, by omega, by omega, fun now env db => ?_⟩
    obtain ⟨there, rows⟩ := registerWorker_rows db env ((fromEnv id vars).worker now)
    refine ⟨there, fun w mem own => ?_⟩
    exact (rows w mem own).trans ((toInt32_eq_iff _).2 below)

/-- A process with one variable set. -/
def withConcurrency (text : String) : Vars := fun key => if key = "WORKER_CONCURRENCY" then some text else none

theorem concurrency_usable_eight : (fromEnv 1 (withConcurrency " 8 ")).Usable 8 :=
  (concurrency_usable_iff 1 (by decide)).2 (by decide)

/-- -1 becomes `usize::MAX`, and 2147483648 is registered as -2147483648. -/
theorem concurrency_unusable :
    (envParse (withConcurrency "-1") "WORKER_CONCURRENCY" = some (-1) ∧
      (fromEnv 1 (withConcurrency "-1")).concurrency.toNat = 2 ^ 64 - 1 ∧
      ¬ (fromEnv 1 (withConcurrency "-1")).Usable (-1)) ∧
    envParse (withConcurrency "2147483648") "WORKER_CONCURRENCY" = some 2147483648 ∧
      ((fromEnv 1 (withConcurrency "2147483648")).worker 0).concurrency = -2147483648 ∧
      ¬ (fromEnv 1 (withConcurrency "2147483648")).Usable 2147483648 := by
  refine ⟨⟨by decide, by decide, ?_⟩, by decide, by decide, ?_⟩
  · intro usable
    exact absurd usable.accepted (by decide)
  · intro usable
    exact absurd ((usable.registered 0 ⟨0, [], 0⟩ .empty).2 _ (List.mem_singleton.2 rfl) rfl) (by decide)

end WorkerConfig

end Djq
