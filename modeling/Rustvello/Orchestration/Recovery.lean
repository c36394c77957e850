import Rustvello.Core.RunnerPorts
import Rustvello.Orchestration.Maintenance

/-!
# Recovery passes

`recover_stale_invocations` and `interrupted_recoveries` (`orchestration/maintenance.rs`):
a pass lists the stale `pending` and `running` invocations and the recoveries that were
interrupted, and then recovers them one after the other.  An error of one invocation does
not stop the pass.
-/

namespace Rustvello.Orchestration

open Concurrency Proto Rustvello.Core

/-- `Duration::seconds`, in nanoseconds. -/
def durationSeconds (seconds : Nat) : Timestamp :=
  (seconds : Int) * 1000000000

/-- The invocations among some ids that are still in a recovery status, and have been since
before the cutoff. -/
def interruptedSince (status : InvocationStatus) (cutoff : Timestamp) :
    List InvocationId → Orch (List (InvocationId × InvocationStatus))
  | [] => pure []
  | id :: rest => do
      match ← attempt (port (.getInvocationStatus id)) with
      | .error _ => interruptedSince status cutoff rest
      | .ok record =>
          let found ← interruptedSince status cutoff rest
          if record.status = status ∧ record.timestamp < cutoff then pure ((id, status) :: found)
          else pure found

/-- Recoveries that wrote their first status and never their second. -/
def interruptedRecoveries : List (InvocationStatus × Nat) →
    Runner (List (InvocationId × InvocationStatus))
  | [] => pure []
  | (status, staleAfter) :: rest => do
      match ← outcome (runnerPort (.getInvocationsByStatus status)) with
      | .error _ => interruptedRecoveries rest
      | .ok ids =>
          let now ← lift (port .utcNow)
          let found ← lift (interruptedSince status (now - durationSeconds staleAfter) ids)
          let others ← interruptedRecoveries rest
          pure (found ++ others)

/-- Recover the candidates; the number of those that were rerouted. -/
def recoverAll (d : Deployment) (runnerId : RunnerId) :
    List (InvocationId × InvocationStatus) → Orch Nat
  | [] => pure 0
  | (id, recoveryStatus) :: rest => do
      let written ← attempt (recoverOne d runnerId id recoveryStatus)
      let others ← recoverAll d runnerId rest
      match written with
      | .ok .rerouted => pure (others + 1)
      | _ => pure others

/-- One recovery pass. -/
def recoverStaleInvocations (d : Deployment) (runnerId : RunnerId) : Runner Nat := do
  let pending ← runnerPort (.getStalePendingInvocations d.appConfig.maxPendingSeconds)
  let running ← runnerPort (.getStaleRunningInvocations d.appConfig.runnerDeadAfterSeconds)
  let interrupted ← interruptedRecoveries
    [(.pendingRecovery, d.appConfig.maxPendingSeconds),
      (.runningRecovery, d.appConfig.runnerDeadAfterSeconds)]
  lift (recoverAll d runnerId
    (pending.map (fun id => (id, .pendingRecovery)) ++
      running.map (fun id => (id, .runningRecovery)) ++ interrupted))

end Rustvello.Orchestration
