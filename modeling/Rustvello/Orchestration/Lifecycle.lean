import Rustvello.Core.Ports

/-!
# Status changes with their side effects

The methods of `Orchestrator` that change the status of one invocation
(`orchestration/mod.rs` and `orchestration/control.rs`): every method bundles the
status write with releasing waiters, history, trigger notification, payloads and
routing.  Each has two paths: one transaction of the publication port where the
backends offer it, or ordered calls on the single ports.

`Deployment` is what the methods read of the process: the configuration, the task
catalog and which optional parts are installed.
-/

namespace Rustvello.Orchestration

open Concurrency Proto Rustvello.Core

/-- What an orchestrator is built from. -/
structure Deployment where
  appConfig : AppConfig := {}
  catalog : TaskCatalog
  /-- Seconds after which a finished invocation is purged; zero disables it. -/
  autoPurgeDelaySecs : Nat := 0
  /-- A trigger manager is installed. -/
  triggerManager : Bool := false
  /-- Broker, control and state ports share one transaction domain. -/
  publication : Bool := false
  /-- The broker (or the publication) stores delayed deliveries. -/
  durableRetryDelay : Bool := true
  sha256Hex : List Char → String
  /-- `trigger_run_invocation_id`: the UUID derived from a trigger run id. -/
  triggerRunInvocationId : String → InvocationId

/-! ## Context lookups -/

/-- Arguments of an invocation, for the trigger context; empty when unknown. -/
def getInvocationArguments (id : InvocationId) : Orch SerializedArguments := do
  match ← attempt (port (.getInvocation id)) with
  | .error _ => pure .empty
  | .ok invocation =>
      match ← attempt (port (.getCall invocation.callId)) with
      | .error _ => pure .empty
      | .ok call => pure call.serializedArguments

/-- Task and arguments of an invocation, for the trigger context. -/
def getTriggerContext (id : InvocationId) : Orch (TaskId × SerializedArguments) := do
  match ← attempt (port (.getInvocation id)) with
  | .error _ => pure (⟨.rust, "unknown", "unknown"⟩, .empty)
  | .ok invocation =>
      match ← attempt (port (.getCall invocation.callId)) with
      | .error _ => pure (invocation.taskId, .empty)
      | .ok call => pure (invocation.taskId, call.serializedArguments)

/-- The context that is only looked up where a trigger manager reads it. -/
def triggerContextFor (d : Deployment) (id : InvocationId) :
    Orch (TaskId × SerializedArguments) :=
  if d.triggerManager then getTriggerContext id
  else pure (⟨.rust, "_", "_"⟩, .empty)

def reportPublishedStatus (d : Deployment) (id : InvocationId) (status : InvocationStatus)
    (taskId : TaskId) (arguments : SerializedArguments) : Orch Unit :=
  if d.triggerManager then port (.reportStatusChange id taskId status arguments)
  else pure ()

/-! ## Status transition -/

/-- What follows a terminal status: waiters go free, the purge is scheduled. -/
def terminalEffects (d : Deployment) (id : InvocationId) (status : InvocationStatus) :
    Orch Unit :=
  if status.isTerminal then do
    let _ ← port (.releaseWaiters id)
    if 0 < d.autoPurgeDelaySecs then port (.scheduleAutoPurge id) else pure ()
  else pure ()

def setInvocationStatusWithContext (d : Deployment) (id : InvocationId)
    (status : InvocationStatus) (runnerId : RunnerId) (taskId : TaskId)
    (arguments : SerializedArguments) : Orch InvocationStatusRecord :=
  if d.publication then do
    match ← port (.publicationChange id runnerId (.status status)
        (decide (0 < d.autoPurgeDelaySecs))) with
    | none => throw (.internal "ordinary status publication always returns a record")
    | some record =>
        reportPublishedStatus d id status taskId arguments
        pure record
  else do
    let record ← port (.setInvocationStatus id status (some runnerId))
    terminalEffects d id status
    port (.addHistory ((InvocationHistory.new id record none).withRunner runnerId))
    reportPublishedStatus d id status taskId arguments
    pure record

def setInvocationStatus (d : Deployment) (id : InvocationId) (status : InvocationStatus)
    (runnerId : RunnerId) : Orch InvocationStatusRecord := do
  let context ← triggerContextFor d id
  setInvocationStatusWithContext d id status runnerId context.1 context.2

/-! ## Outcomes -/

/-- Store the result, then move to `success`; one transaction where there is one. -/
def commitResult (d : Deployment) (id : InvocationId) (result : String) (runnerId : RunnerId)
    (taskId : TaskId) (arguments : SerializedArguments) : Orch Unit :=
  if d.publication then do
    let _ ← port (.publicationChange id runnerId (.success result)
      (decide (0 < d.autoPurgeDelaySecs)))
    reportPublishedStatus d id .success taskId arguments
  else do
    port (.storeResult id result)
    let _ ← setInvocationStatusWithContext d id .success runnerId taskId arguments
    pure ()

def setInvocationResultWithContext (d : Deployment) (id : InvocationId) (result : String)
    (runnerId : RunnerId) (taskId : TaskId) (arguments : SerializedArguments) : Orch Unit := do
  commitResult d id result runnerId taskId arguments
  if d.triggerManager then port (.reportResult id taskId result arguments) else pure ()

/-- Store the error, then move to `failed`; one transaction where there is one. -/
def commitException (d : Deployment) (id : InvocationId) (taskError : TaskError)
    (runnerId : RunnerId) (taskId : TaskId) (arguments : SerializedArguments) : Orch Unit :=
  if d.publication then do
    let _ ← port (.publicationChange id runnerId (.failure taskError)
      (decide (0 < d.autoPurgeDelaySecs)))
    reportPublishedStatus d id .failed taskId arguments
  else do
    port (.storeError id taskError)
    let _ ← setInvocationStatusWithContext d id .failed runnerId taskId arguments
    pure ()

def setInvocationExceptionWithContext (d : Deployment) (id : InvocationId)
    (errorType errorMessage : String) (runnerId : RunnerId) (taskId : TaskId)
    (arguments : SerializedArguments) : Orch Unit := do
  commitException d id ⟨errorType, errorMessage, none⟩ runnerId taskId arguments
  if d.triggerManager then port (.reportFailure id taskId errorType errorMessage arguments)
  else pure ()

/-- Move to `retry`, count it and route it again. -/
def setInvocationRetryWithContext (d : Deployment) (id : InvocationId) (runnerId : RunnerId)
    (taskId : TaskId) (arguments : SerializedArguments) (queueName : String) (priority : F64) :
    Orch Unit :=
  if d.publication then do
    let _ ← port (.publicationChange id runnerId (.retry ⟨queueName, priority⟩) false)
    reportPublishedStatus d id .retry taskId arguments
  else do
    let _ ← setInvocationStatusWithContext d id .retry runnerId taskId arguments
    let _ ← port (.incrementInvocationRetries id)
    port (.routeInvocationWithOptions id (some taskId) queueName priority)

/-- Like the plain retry, but not delivered before `delayMs` milliseconds.  A zero
delay, or a broker without delayed delivery, is the plain retry. -/
def setInvocationRetryAfterWithContext (d : Deployment) (id : InvocationId)
    (runnerId : RunnerId) (taskId : TaskId) (arguments : SerializedArguments)
    (queueName : String) (priority : F64) (delayMs : Nat) : Orch Unit :=
  if delayMs = 0 ∨ d.durableRetryDelay = false then
    setInvocationRetryWithContext d id runnerId taskId arguments queueName priority
  else if d.publication then do
    let _ ← port (.publicationChange id runnerId
      (.delayedRetry ⟨queueName, priority⟩ delayMs) false)
    reportPublishedStatus d id .retry taskId arguments
  else do
    let _ ← setInvocationStatusWithContext d id .retry runnerId taskId arguments
    let _ ← port (.incrementInvocationRetries id)
    port (.routeInvocationAfter id (some taskId) queueName priority delayMs)

/-! ## Slots, cancellation and waiting -/

/-- Transactional publication releases slots under the ownership fence; elsewhere
the executor removes them. -/
def releaseNontransactionalConcurrencySlot (d : Deployment) (id : InvocationId) : Orch Unit :=
  if d.publication then pure () else port (.removeFromConcurrencyIndex id)

/-- The stored status record, if it can be read. -/
def currentStatus (id : InvocationId) : Orch (Option InvocationStatusRecord) := do
  match ← attempt (port (.getInvocationStatus id)) with
  | .ok record => pure (some record)
  | .error _ => pure none

def isCancelled (id : InvocationId) : Orch Bool := do
  match ← currentStatus id with
  | some record => pure (decide (record.status = .cancelled))
  | none => pure false

inductive CancelOutcome where
  | cancelled
  | alreadyFinal (status : InvocationStatus)
deriving DecidableEq, Repr

def cancelInvocation (d : Deployment) (id : InvocationId) (runnerId : RunnerId) :
    Orch CancelOutcome := do
  let current ← port (.getInvocationStatus id)
  if current.status.isTerminal then
    pure (.alreadyFinal current.status)
  else
    match ← attempt (setInvocationStatus d id .cancelled runnerId) with
    | .ok _ =>
        let _ ← attempt (releaseNontransactionalConcurrencySlot d id)
        pure .cancelled
    | .error error =>
        -- finished between the read and the write: report what won
        if error.isInvalidStatusTransition ∨ error.isStatusRaceCondition then
          let now ← port (.getInvocationStatus id)
          if now.status = .cancelled then pure .cancelled
          else pure (.alreadyFinal now.status)
        else
          throw error

def setWaitingFor (waiter waitedOn : InvocationId) : Orch Unit :=
  port (.setWaitingFor waiter waitedOn)

end Rustvello.Orchestration
