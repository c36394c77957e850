import Rustvello.Orchestration.Lifecycle

/-!
# Recovery of one invocation

`recover_one` and `fail_recovery_limit` (`orchestration/maintenance.rs`): a stale
invocation is taken over through its recovery status and routed again, or fails
once it was recovered too often.  The route is resolved before any status is
written.
-/

namespace Rustvello.Orchestration

open Concurrency Proto Rustvello.Core

/-- Error type stored on an invocation that reached the recovery limit. -/
def recoveryLimitError : String := "RecoveryLimitExceeded"

inductive RecoveryOutcome where
  | rerouted
  | failed
  | skipped
deriving DecidableEq, Repr

/-- The two statuses between a take-over and its reroute. -/
def isRecoveryStatus (status : InvocationStatus) : Bool :=
  decide (status = .pendingRecovery ∨ status = .runningRecovery)

/-- Recoveries recorded in the history. -/
def recoveryCount (id : InvocationId) : Orch Nat := do
  match ← attempt (port (.getHistory id)) with
  | .error _ => pure 0
  | .ok history =>
      pure (history.filter fun h => isRecoveryStatus h.statusRecord.status).length

/-- Write the recovery status unless it is already there; `false` when the
transition is refused because the invocation moved on. -/
def takeOver (d : Deployment) (id : InvocationId) (runnerId : RunnerId)
    (recoveryStatus : InvocationStatus) (resuming : Bool) : Orch Bool :=
  if resuming then pure true
  else do
    match ← attempt (setInvocationStatus d id recoveryStatus runnerId) with
    | .ok _ => pure true
    | .error error => if error.isInvalidStatusTransition then pure false else throw error

/-- Fail an invocation that reached the recovery limit. -/
def failRecoveryLimit (d : Deployment) (id : InvocationId) (runnerId : RunnerId)
    (recoveryStatus : InvocationStatus) (resuming : Bool) (previous : Nat) :
    Orch RecoveryOutcome := do
  if ← takeOver d id runnerId recoveryStatus resuming then
    port (.storeError id ⟨recoveryLimitError,
      "invocation " ++ id.raw ++ " was recovered " ++ toString previous ++
        " time(s) (max_invocation_recoveries); its worker died or could not run it each time. " ++
        "Check that the worker image imports the task module and that the task does not crash " ++
        "its process", none⟩)
    let _ ← setInvocationStatus d id .failed runnerId
    pure .failed
  else pure .skipped

/-- Report the statuses a published recovery went through. -/
def reportRecovered (d : Deployment) (id : InvocationId) (taskId : TaskId) :
    List InvocationStatus → SerializedArguments → Orch Unit
  | [], _ => pure ()
  | status :: rest, arguments => do
      reportPublishedStatus d id status taskId arguments
      reportRecovered d id taskId rest arguments

/-- Recover in one transaction. -/
def recoverPublished (d : Deployment) (id : InvocationId) (runnerId : RunnerId) (taskId : TaskId)
    (recoveryStatus : InvocationStatus) (resuming : Bool) (route : PublicationRoute) :
    Orch RecoveryOutcome := do
  let staleAfterSeconds :=
    if recoveryStatus = .pendingRecovery then d.appConfig.maxPendingSeconds
    else d.appConfig.runnerDeadAfterSeconds
  let change : PublicationChange :=
    if resuming then .reroute route else .recover recoveryStatus staleAfterSeconds route
  match ← port (.publicationChange id runnerId change false) with
  | none => pure .skipped
  | some _ =>
      let arguments ← getInvocationArguments id
      reportRecovered d id taskId
        (if resuming then [.rerouted] else [recoveryStatus, .rerouted]) arguments
      pure .rerouted

/-- Recover by ordered calls: take over, reroute, route. -/
def recoverOrdered (d : Deployment) (id : InvocationId) (runnerId : RunnerId) (taskId : TaskId)
    (recoveryStatus : InvocationStatus) (resuming : Bool) (route : PublicationRoute) :
    Orch RecoveryOutcome := do
  if ← takeOver d id runnerId recoveryStatus resuming then
    let _ ← setInvocationStatus d id .rerouted runnerId
    port (.routeInvocationWithOptions id (some taskId) route.queue route.priority)
    pure .rerouted
  else pure .skipped

/-- Recover a stale invocation. -/
def recoverOne (d : Deployment) (runnerId : RunnerId) (id : InvocationId)
    (recoveryStatus : InvocationStatus) : Orch RecoveryOutcome := do
  let invocation ← port (.getInvocation id)
  let current ← port (.getInvocationStatus id)
  let resuming := isRecoveryStatus current.status
  let limit := d.appConfig.maxInvocationRecoveries
  let previous ← recoveryCount id
  let attempts := if resuming then previous else previous + 1
  if 0 < limit ∧ limit < attempts then
    failRecoveryLimit d id runnerId recoveryStatus resuming previous
  else
    match d.catalog.routingFor d.appConfig invocation.taskId with
    | none => throw (.taskNotRegistered invocation.taskId)
    | some (queue, priority) =>
        if d.publication then
          recoverPublished d id runnerId invocation.taskId recoveryStatus resuming
            ⟨queue, priority⟩
        else
          recoverOrdered d id runnerId invocation.taskId recoveryStatus resuming
            ⟨queue, priority⟩

end Rustvello.Orchestration
