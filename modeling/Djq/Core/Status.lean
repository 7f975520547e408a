/-!
# The job lifecycle

`crates/core/src/status.rs`: the eight statuses, their text form and the
transition table the domain crate declares for them.
-/

namespace Djq

inductive JobStatus where
  | queued
  | scheduled
  | processing
  | completed
  | failed
  | retrying
  | cancelled
  | deadLettered
  deriving DecidableEq

namespace JobStatus

/-- The text a status is stored as. -/
def asStr : JobStatus → String
  | queued => "queued"
  | scheduled => "scheduled"
  | processing => "processing"
  | completed => "completed"
  | failed => "failed"
  | retrying => "retrying"
  | cancelled => "cancelled"
  | deadLettered => "dead_lettered"

def fromStr : String → Except String JobStatus
  | "queued" => .ok queued
  | "scheduled" => .ok scheduled
  | "processing" => .ok processing
  | "completed" => .ok completed
  | "failed" => .ok failed
  | "retrying" => .ok retrying
  | "cancelled" => .ok cancelled
  | "dead_lettered" => .ok deadLettered
  | other => .error ("unknown job status: " ++ other)

/-- A row's status text parses back: `JobRow::into_job` cannot fail on a row
that meets the table's CHECK, so the model's rows hold the parsed status. -/
theorem fromStr_asStr (s : JobStatus) : fromStr s.asStr = .ok s := by
  cases s <;> rfl

def isTerminal : JobStatus → Bool
  | completed | cancelled | deadLettered => true
  | _ => false

def isLeaseable : JobStatus → Bool
  | queued | scheduled | retrying => true
  | _ => false

def isCancellable : JobStatus → Bool
  | queued | scheduled | retrying | processing => true
  | _ => false

/-- The leaseable statuses, as the lease query lists them. -/
theorem isLeaseable_iff {s : JobStatus} : s.isLeaseable = true ↔ s ∈ [queued, scheduled, retrying] := by
  cases s <;> decide

/-- The declared transition table. -/
def canTransitionTo : JobStatus → JobStatus → Bool
  | queued, processing => true
  | queued, scheduled => true
  | queued, cancelled => true
  | scheduled, queued => true
  | scheduled, processing => true
  | scheduled, cancelled => true
  | processing, completed => true
  | processing, failed => true
  | processing, retrying => true
  | processing, queued => true
  | processing, cancelled => true
  | retrying, processing => true
  | retrying, queued => true
  | retrying, cancelled => true
  | retrying, deadLettered => true
  | failed, deadLettered => true
  | failed, retrying => true
  | _, _ => false

/-- The table agrees with `is_terminal`: no edge leaves a terminal status. -/
theorem canTransitionTo_of_isTerminal {s : JobStatus} (terminal : s.isTerminal = true) (next : JobStatus) :
    s.canTransitionTo next = false := by
  cases s <;> cases terminal <;> cases next <;> rfl

/-- Every cancellable status has an edge to `cancelled`, and no other has. -/
theorem canTransitionTo_cancelled (s : JobStatus) : s.canTransitionTo cancelled = s.isCancellable := by
  cases s <;> rfl

end JobStatus

end Djq
