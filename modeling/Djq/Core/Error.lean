import Djq.Core.Model

/-!
# What an error says

`crates/core/src/error.rs`: the category of an error, by which the boundaries of
the system know it, and its text.
-/

namespace Djq

inductive ErrorCategory where
  | badRequest
  | notFound
  | conflict
  | internal
  deriving DecidableEq

namespace QueueError

def category : QueueError → ErrorCategory
  | .jobNotFound _ => .notFound
  | .queueNotFound _ => .notFound
  | .duplicateIdempotencyKey _ _ => .conflict
  | .illegalTransition _ _ => .conflict
  | .invalidOperation _ _ => .conflict
  | .validation _ => .badRequest
  | .serialization _ => .badRequest
  | .storage _ => .internal

/-- The text of an error, given how a UUID is written. -/
def message (text : Uuid → String) : QueueError → String
  | .jobNotFound id => "job not found: " ++ text id
  | .queueNotFound name => "queue not found: " ++ name
  | .duplicateIdempotencyKey queue _ => "duplicate idempotency key for queue " ++ queue
  | .illegalTransition source target => "illegal state transition from " ++ source.asStr ++ " to " ++ target.asStr
  | .invalidOperation op status => "operation \x27" ++ op ++ "\x27 not permitted while job is " ++ status.asStr
  | .validation message => "validation error: " ++ message
  | .storage message => "storage error: " ++ message
  | .serialization message => "serialization error: " ++ message

end QueueError

end Djq
