import Djq.System.Events

/-!
# What fences a lease

The lease-bound operations are guarded by `locked_by = worker_id`. This tells a
worker from another, not an execution from a later one of the same worker.
-/

namespace Djq

open Relational Transition

/-! ## The current lease -/

end Djq
