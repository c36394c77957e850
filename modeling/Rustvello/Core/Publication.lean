import Rustvello.Core.Ports
import Mathlib.Data.List.AList

/-!
# What the transactional backends share

The SQLite and the Redis publication compare the same submission identity and read the
same route, target and payload out of a change (`publication.rs` of both crates).
-/

namespace Rustvello.Core

open Proto

/-- Rows by key. -/
abbrev Table (K V : Type) := AList fun _ : K => V

def i64Max : Int := 9223372036854775807

def timestampMillis (now : Timestamp) : Int :=
  now / 1000000

/-- `identity_json` of an accepted submission. -/
structure SubmissionIdentity where
  call : CallDTO
  parent : Option InvocationId
  workflow : Option WorkflowIdentity
  trace : TraceContextCarrier
  queue : String
  priority : F64
  workflowRoot : Bool
  cc : Option SerializedArguments
deriving DecidableEq

def submissionIdentity (s : SubmissionPublication) : SubmissionIdentity where
  call := s.call
  parent := s.invocation.parentInvocationId
  workflow := s.invocation.workflow
  trace := s.invocation.traceContext
  queue := s.route.queue
  priority := s.route.priority
  workflowRoot := s.workflowRoot
  cc := s.ccArguments

/-- Where a change publishes the invocation again. -/
def routeOf : PublicationChange → Option PublicationRoute
  | .recover _ _ route | .concurrencyReroute route | .retry route | .reroute route
  | .delayedRetry route _ => some route
  | .status _ | .success _ | .failure _ => none

/-- The status a change ends in. -/
def targetOf : PublicationChange → InvocationStatus
  | .status status => status
  | .retry _ | .delayedRetry _ _ => .retry
  | .success _ => .success
  | .failure _ => .failed
  | .reroute _ | .concurrencyReroute _ | .recover _ _ _ => .rerouted

/-- The change completes the invocation with a payload. -/
def hasPayload : PublicationChange → Bool
  | .success _ | .failure _ => true
  | _ => false

/-- The status a recovery takes over from. -/
def takenOverFrom : InvocationStatus → Option InvocationStatus
  | .pendingRecovery => some .pending
  | .runningRecovery => some .running
  | _ => none

end Rustvello.Core
