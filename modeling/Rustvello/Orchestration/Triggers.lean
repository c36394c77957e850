import Rustvello.Orchestration.Lifecycle

/-!
# Publishing trigger runs

`trigger_loop_iteration` and `publish_trigger_run` (`orchestration/triggers.rs`):
firings are claimed into the outbox, and every pending run is published under the
invocation id derived from its run id and then completed.  An evaluator that stops
between two calls leaves the rest of its iteration undone; another one repeats it.
-/

namespace Rustvello.Orchestration

open Concurrency Proto Rustvello.Core

def pendingTriggerRunBatch : Nat := 1000

/-- The outbox record of a firing. -/
def plannedRun (d : Deployment) (now : Timestamp) (firing : TriggerFiring) : TriggerRunRecord where
  triggerRunId := firing.triggerRunId
  taskId := firing.taskId
  arguments := firing.arguments
  claimedAt := now
  executedAt := none
  plannedInvocationId := some (d.triggerRunInvocationId firing.triggerRunId)
  triggeredInvocationId := none

/-- The status read at the start of a publication; an unknown invocation has none. -/
def existingStatus (id : InvocationId) : Orch (Option InvocationStatus) := do
  match ← attempt (port (.getInvocationStatus id)) with
  | .ok record => pure (some record.status)
  | .error error => if error.isInvocationNotFound then pure none else throw error

/-- The `registered` entry of the history, unless one is there already. -/
def recordRegistered (id : InvocationId) (runnerId : RunnerId) : Orch Unit := do
  let history ← port (.getHistory id)
  if history.any fun h => decide (h.statusRecord.status = .registered) then pure ()
  else
    let record ← port (.getInvocationStatus id)
    port (.addHistory ((InvocationHistory.new id record none).withRunner runnerId))

/-- The writes after registration, each repeated while the invocation is still
`registered`. -/
def completePublication (run : TriggerRunRecord) (id : InvocationId) (call : CallDTO)
    (runnerId : RunnerId) (route : PublicationRoute) : Orch Unit := do
  let now ← port .utcNow
  port (.upsertInvocation (InvocationDTO.new now id run.taskId call.callId) call)
  recordRegistered id runnerId
  port (.routeInvocationWithOptions id (some run.taskId) route.queue route.priority)

/-- Publish one claimed trigger run; a no-op when an earlier attempt did. -/
def publishTriggerRun (d : Deployment) (run : TriggerRunRecord) (id : InvocationId)
    (runnerId : RunnerId) (route : PublicationRoute) : Orch Unit := do
  let call := CallDTO.new d.sha256Hex run.taskId run.arguments
  let existing ← existingStatus id
  if d.publication then
    if existing.isNone then
      let now ← port .utcNow
      let _ ← port (.publicationSubmit ⟨InvocationDTO.new now id run.taskId call.callId, call,
        runnerId, false, none, route⟩)
      pure ()
    else pure ()
  else
    match existing with
    | some status =>
        if status = .registered then completePublication run id call runnerId route
        else pure ()
    | none =>
        let _ ← port (.registerInvocationWithId id call (some runnerId))
        completePublication run id call runnerId route

/-- Attach the published invocation to its run. -/
def completeTriggerRun (triggerRunId : String) (id : InvocationId) : Orch Unit := do
  match ← port (.getTriggerRun triggerRunId) with
  | none => pure ()
  | some run =>
      let now ← port .utcNow
      port (.storeTriggerRun
        { run with triggeredInvocationId := some id, executedAt := some now })

/-- Publish and complete the pending runs whose task is registered here. -/
def publishPending (d : Deployment) (runnerId : RunnerId) : List TriggerRunRecord → Orch Unit
  | [] => pure ()
  | run :: rest =>
      match run.plannedInvocationId, d.catalog.routingFor d.appConfig run.taskId with
      | some id, some (queue, priority) => do
          publishTriggerRun d run id runnerId ⟨queue, priority⟩
          completeTriggerRun run.triggerRunId id
          publishPending d runnerId rest
      | _, _ => publishPending d runnerId rest

/-- One trigger evaluation: claim every firing, then publish every pending run. -/
def triggerLoopIteration (d : Deployment) (runnerId : RunnerId) : Orch Unit :=
  if d.triggerManager then do
    let firings ← port .satisfiedTriggers
    let now ← port .utcNow
    let _ ← port (.claimTriggerRunsWithRecords (firings.map (plannedRun d now)))
    let runs ← port (.getPendingTriggerRuns pendingTriggerRunBatch)
    publishPending d runnerId runs
  else pure ()

end Rustvello.Orchestration
