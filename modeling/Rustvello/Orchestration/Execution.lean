import Rustvello.Orchestration.Dispatch

/-!
# The life of one attempt

`execute_invocation_common` (`runner/executor_common.rs`): a worker claims the
invocation with its `pending` write, runs the task under supervision, and writes
the outcome.  An outcome that the status machine refuses is discarded when the
invocation was cancelled or taken over meanwhile.

The long function of the source is cut at its numbered steps: `executeInvocation`
(claim), `executeClaimed` (running, data, identity), `runAttempt` (execution) and
one function for each way the attempt can end.
-/

namespace Rustvello.Orchestration

open Concurrency Proto Rustvello.Core

/-! ## Execution identity -/

def u32Max : Nat := 4294967295

/-- The attempt number of the next execution; the counter must not overflow. -/
def nextAttemptNumber (previous : Option ExecutionAttemptIdentity) (retryCount : Nat) :
    RustvelloResult Nat :=
  match previous with
  | some identity =>
      if identity.attempt = u32Max then
        .error (.stateBackend "execution attempt counter exhausted")
      else .ok (max retryCount (identity.attempt + 1))
  | none => .ok retryCount

/-- Root retries share the first execution's trace. -/
def parentTraceContext (previous : Option ExecutionAttemptIdentity)
    (incoming : TraceContextCarrier) : TraceContextCarrier :=
  if incoming.isEmpty then
    (previous.map ExecutionAttemptIdentity.executionTraceContext).getD incoming
  else incoming

/-- Allocate and persist the identity of an execution. -/
def beginExecution (d : Deployment) (id : InvocationId) (runnerId : RunnerId) (retries : Nat)
    (incoming : TraceContextCarrier) : Orch ExecutionAttemptIdentity :=
  if d.publication then port (.publicationBeginExecution id runnerId retries incoming)
  else do
    let previous ← port (.getExecutionIdentity id)
    match nextAttemptNumber previous retries with
    | .error e => throw e
    | .ok attemptNumber =>
        let trace ← port (.allocateTraceContext (parentTraceContext previous incoming))
        let identity : ExecutionAttemptIdentity :=
          ⟨attemptNumber, trace,
            (previous.map ExecutionAttemptIdentity.executionTraceContext).getD {}⟩
        port (.setExecutionIdentity id identity)
        pure identity

/-! ## Discarded outcomes -/

/-- Why an attempt's outcome was not written. -/
inductive Discarded where
  | cancelled
  /-- Recovery took the invocation over; `holderRunning` when another worker
  already runs it and so holds its slot. -/
  | takenOver (holderRunning : Bool)
deriving DecidableEq, Repr

/-- A refused write means "discard this attempt"; any other error is an error. -/
def discardedOutcome (id : InvocationId) (worker : RunnerId) :
    RustvelloResult Unit → Orch (Option Discarded)
  | .ok _ => pure none
  | .error error =>
      if error.isInvalidStatusTransition ∨ error.isOwnershipViolation ∨
          error.isStatusRaceCondition then do
        if ← isCancelled id then
          pure (some .cancelled)
        else
          let record ← currentStatus id
          let holderRunning := record.any fun r =>
            decide (r.status = .pending ∨ r.status = .running)
          -- still ours: an ambiguous write, not a take-over
          if holderRunning ∧ record.bind InvocationStatusRecord.runnerId = some worker then
            throw error
          else
            pure (some (.takenOver holderRunning))
      else throw error

/-- The slot is released unless another worker already runs the rerouted copy. -/
def finishDiscarded (d : Deployment) (id : InvocationId) (reason : Discarded) : Orch Unit :=
  if reason = .takenOver true then pure ()
  else do
    let _ ← attempt (releaseNontransactionalConcurrencySlot d id)
    pure ()

/-- Inspect a written outcome: discard it, or carry on with `accepted`. -/
def settleOutcome (d : Deployment) (id : InvocationId) (worker : RunnerId)
    (written : RustvelloResult Unit) (accepted : Orch Unit) : Orch Unit := do
  match ← discardedOutcome id worker written with
  | some reason => finishDiscarded d id reason
  | none => accepted

/-- Remove the slot of a finished invocation; a failure is only logged. -/
def releaseFinished (d : Deployment) (id : InvocationId) : Orch Unit := do
  let _ ← attempt (releaseNontransactionalConcurrencySlot d id)
  pure ()

/-! ## The ways an attempt ends -/

/-- A task this worker does not know fails permanently. -/
def failUnregistered (d : Deployment) (id : InvocationId) (worker : RunnerId) (taskId : TaskId)
    (arguments : SerializedArguments) : Orch Unit := do
  let message := "task " ++ taskId.toText ++ " is not registered in this runner: import the " ++
    "module that defines it in the process that runs the worker (with worker processes, the " ++
    "runner process must register it too), or route it to a runner that has it"
  let written ← attempt (setInvocationExceptionWithContext d id "TaskNotRegistered" message
    worker taskId arguments)
  settleOutcome d id worker written (releaseFinished d id)

def finishSuccess (d : Deployment) (id : InvocationId) (worker : RunnerId) (taskId : TaskId)
    (arguments : SerializedArguments) (result : String) : Orch Unit := do
  let written ← attempt (setInvocationResultWithContext d id result worker taskId arguments)
  settleOutcome d id worker written (releaseFinished d id)

/-- The stored form of an error raised by the attempt. -/
def taskErrorOf : RustvelloError → TaskError
  | .taskExecution errorType message traceback => ⟨errorType, message, traceback⟩
  | err => ⟨"TaskExecutionError", err.toText, none⟩

def containsText (text part : String) : Bool :=
  decide (part.toList <:+: text.toList)

/-- Whether a failed attempt is retried. -/
def shouldRetry (base resolved : TaskConfig) (retryCount : Nat) (timedOut : Bool)
    (error : TaskError) : Bool :=
  decide (retryCount < base.maxRetries) && (!timedOut || resolved.retryOnTimeout) &&
    (base.retryForErrors.isEmpty || base.retryForErrors.any (containsText error.errorType))

/-- Give the slot back and schedule the next attempt. -/
def finishRetry (d : Deployment) (id : InvocationId) (worker : RunnerId) (taskId : TaskId)
    (arguments : SerializedArguments) (resolved : TaskConfig) (retryCount attemptNumber : Nat) :
    Orch Unit :=
  if attemptNumber = u32Max then throw (.stateBackend "execution attempt counter exhausted")
  else do
    releaseNontransactionalConcurrencySlot d id
    let unit ← port .randomUnit
    let written ← attempt (setInvocationRetryAfterWithContext d id worker taskId arguments
      resolved.queue resolved.priority (resolved.retryDelay retryCount unit))
    settleOutcome d id worker written (pure ())

def finishFailure (d : Deployment) (id : InvocationId) (worker : RunnerId) (taskId : TaskId)
    (arguments : SerializedArguments) (error : TaskError) : Orch Unit := do
  let written ← attempt (setInvocationExceptionWithContext d id error.errorType error.message
    worker taskId arguments)
  settleOutcome d id worker written (releaseFinished d id)

/-- Write the outcome of a supervised attempt. -/
def finishAttempt (d : Deployment) (id : InvocationId) (worker : RunnerId) (taskId : TaskId)
    (arguments : SerializedArguments) (base resolved : TaskConfig)
    (retryCount attemptNumber : Nat) (outcome : AttemptOutcome) : Orch Unit :=
  if outcome.interruption = some .cancelled then finishDiscarded d id .cancelled
  else
    match outcome.result with
    | .ok result => finishSuccess d id worker taskId arguments result
    | .error err =>
        let error := taskErrorOf err
        let timedOut := outcome.interruption.isSome
        if shouldRetry base resolved retryCount timedOut error then
          finishRetry d id worker taskId arguments resolved retryCount attemptNumber
        else
          finishFailure d id worker taskId arguments error

/-! ## The attempt -/

def u32 (n : Nat) : Nat := n % 4294967296

/-- The periodic cancellation check is on for a positive finite interval. -/
def cancelCheckEnabled (app : AppConfig) : Bool :=
  match app.cancellationCheckIntervalSeconds with
  | .finite seconds => decide (0 < seconds)
  | _ => false

/-- What the attempt is told; whether it is a workflow root is what its task says. -/
def invocationContext (id : InvocationId) (invocation : InvocationDTO) (base : TaskConfig)
    (numRetries : Nat) (identity : ExecutionAttemptIdentity) : InvocationContext where
  invocationId := id
  taskId := invocation.taskId
  workflow := invocation.workflow
  isWorkflowDefining := base.isWorkflowTask
  parentInvocationId := invocation.parentInvocationId
  numRetries := numRetries
  traceContext := identity.executionTraceContext

/-- Identity, middleware, the supervised attempt and its outcome. -/
def runAttempt (d : Deployment) (id : InvocationId) (worker : RunnerId)
    (invocation : InvocationDTO) (call : CallDTO) (base : TaskConfig) : Orch Unit := do
  let resolved := d.catalog.resolveConfig d.appConfig invocation.taskId base
  let history ← port (.getHistory id)
  let numRetries := u32 (history.filter fun h => h.statusRecord.status = .retry).length
  let identity ← beginExecution d id worker numRetries invocation.traceContext
  port (.middlewareBefore id invocation.taskId)
  let outcome ← port (.superviseAttempt
    (invocationContext id invocation base numRetries identity) resolved.timeout
    (cancelCheckEnabled d.appConfig))
  finishAttempt d id worker invocation.taskId call.serializedArguments base resolved numRetries
    identity.attempt outcome

/-- From the accepted claim on. -/
def executeClaimed (d : Deployment) (id : InvocationId) (worker : RunnerId) : Orch Unit := do
  let _ ← setInvocationStatus d id .running worker
  let invocation ← port (.getInvocation id)
  let call ← port (.getCall invocation.callId)
  match d.catalog.registry invocation.taskId with
  | none => failUnregistered d id worker invocation.taskId call.serializedArguments
  | some base => runAttempt d id worker invocation call base

/-- Execute an invocation: claim ownership, then run it.  A lost claim gives the
admission's slot back. -/
def executeInvocation (d : Deployment) (id : InvocationId) (worker : RunnerId) : Orch Unit := do
  match ← attempt (setInvocationStatus d id .pending worker) with
  | .ok _ => executeClaimed d id worker
  | .error e =>
      if e.isInvalidStatusTransition ∨ e.isOwnershipViolation then
        releaseNontransactionalConcurrencySlot d id
      else
        let _ ← attempt (releaseNontransactionalConcurrencySlot d id)
        throw e

/-- One round of a worker: claim the next invocation and execute it. -/
def workerRound (d : Deployment) (language : TaskLanguage) (worker : RunnerId) : Orch Unit := do
  match ← claimNext d language worker with
  | none => pure ()
  | some id => executeInvocation d id worker

end Rustvello.Orchestration
