import Djq.System.RowInvariants
import Djq.System.Integrity
import Djq.System.Atomic
import Djq.System.Linearization
import Djq.Submission.Idempotency
import Djq.Submission.Validation
import Djq.Submission.Race
import Djq.Lease.Protection
import Djq.Lease.Fencing
import Djq.Lease.Drain
import Djq.Lease.Order
import Djq.Lease.Overtaking
import Djq.Lease.PauseScope
import Djq.Lifecycle.StateMachine
import Djq.Lifecycle.Rescue
import Djq.Lifecycle.Backoff
import Djq.Lifecycle.LastError
import Djq.Lifecycle.Listing
import Djq.Lifecycle.Timeline
import Djq.Recovery.DeadLetters
import Djq.Recovery.Sweeps
import Djq.Recovery.Mirror
import Djq.Recovery.Disposal
import Djq.Recovery.Batch
import Djq.Recovery.Residue
import Djq.Worker.Burnt
import Djq.Worker.Verdict
import Djq.Worker.Heartbeat
import Djq.Worker.Runtime
import Djq.Worker.Config
import Djq.Service.Pages
import Djq.Service.Books
import Djq.Service.Walk
import Djq.Api.Watching
import Djq.Api.Contract
