import Rustvello.Orchestration.Lifecycle

/-!
# Submission, dispatch and admission

How an invocation gets into the system and from there to a worker
(`orchestration/submission.rs` and `orchestration/dispatch.rs`):

* `submitWithId` — register, store, record and route a new invocation;
* `admitCandidate` — take a concurrency slot for a candidate, or deny it: a denied
  candidate is re-queued or finished, as far as the status machine lets it;
* `claimNext` — candidates that others wait for come first, then the broker queues.
-/

namespace Rustvello.Orchestration

open Concurrency Proto Rustvello.Core

/-! ## Submission -/

/-- One submission: the call, the fresh id of its invocation, the invocation in
whose context it is made (with its workflow), its trace context and its caller. -/
structure Submission where
  invocationId : InvocationId
  call : CallDTO
  parent : Option (InvocationId × Option WorkflowIdentity) := none
  traceContext : TraceContextCarrier := {}
  callerRunnerId : RunnerId
deriving DecidableEq

/-- Parent invocation and workflow of a new invocation. -/
def resolveWorkflow (id : InvocationId) (taskId : TaskId) (isWorkflowTask : Bool)
    (parent : Option (InvocationId × Option WorkflowIdentity)) :
    Option InvocationId × Option WorkflowIdentity :=
  match parent, isWorkflowTask with
  | some (parentId, some workflow), false =>
      (some parentId,
        some ⟨workflow.workflowId, workflow.workflowType, some parentId, workflow.depth + 1⟩)
  | some (parentId, some workflow), true =>
      (some parentId, some ⟨id, taskId, some workflow.workflowId, 0⟩)
  | some (parentId, none), false => (some parentId, none)
  | some (parentId, none), true => (some parentId, some ⟨id, taskId, none, 0⟩)
  | none, false => (none, none)
  | none, true => (none, some ⟨id, taskId, none, 0⟩)

/-- The stored form of a submitted invocation. -/
def Submission.invocation (s : Submission) (now : Timestamp) (config : TaskConfig) :
    InvocationDTO :=
  let lineage := resolveWorkflow s.invocationId s.call.taskId config.isWorkflowTask s.parent
  { InvocationDTO.new now s.invocationId s.call.taskId s.call.callId with
    parentInvocationId := lineage.1
    workflow := lineage.2
    traceContext := s.traceContext }

/-- Register, store, record and route: the ordered calls without a transaction. -/
def submitOrdered (s : Submission) (invocation : InvocationDTO) (config : TaskConfig) :
    Orch Unit := do
  let _ ← port (.registerInvocationWithId s.invocationId s.call (some s.callerRunnerId))
  port (.upsertInvocation invocation s.call)
  let now ← port .utcNow
  port (.addHistory ((InvocationHistory.new s.invocationId
    ⟨.registered, some s.callerRunnerId, now⟩ none).withRunner s.callerRunnerId))
  port (.routeInvocationWithOptions s.invocationId (some s.call.taskId) config.queue
    config.priority)

def submitWithId (d : Deployment) (s : Submission) : Orch InvocationId :=
  match d.catalog.registry s.call.taskId with
  | none => throw (.taskNotRegistered s.call.taskId)
  | some base => do
      let config := d.catalog.resolveConfig d.appConfig s.call.taskId base
      let now ← port .utcNow
      let invocation := s.invocation now config
      if d.publication then
        let _ ← port (.publicationSubmit ⟨invocation, s.call, s.callerRunnerId,
          config.isWorkflowTask, none, ⟨config.queue, config.priority⟩⟩)
        pure s.invocationId
      else
        submitOrdered s invocation config
        pure s.invocationId

/-! ## Admission -/

def maxBlockingCandidates : Nat := 8

def maxCcRetries : Nat := 8

/-- A candidate whose invocation cannot be read is left to the worker. -/
def candidateMatchesLanguage (id : InvocationId) (language : TaskLanguage) : Orch Bool := do
  match ← attempt (port (.getInvocation id)) with
  | .error _ => pure true
  | .ok invocation => pure (decide (invocation.taskId.language = language))

/-- Deny a candidate of a task that reroutes: back through
`concurrencyControlled` and `rerouted` into its queue. -/
def denyByReroute (d : Deployment) (id : InvocationId) (taskId : TaskId) (config : TaskConfig)
    (runnerId : RunnerId) : Orch Unit :=
  if d.publication then do
    match ← attempt (port (.publicationChange id runnerId
        (.concurrencyReroute ⟨config.queue, config.priority⟩) false)) with
    | .ok _ => pure ()
    | .error error => if error.isInvalidStatusTransition then pure () else throw error
  else do
    match ← attempt (port (.setInvocationStatus id .concurrencyControlled none)) with
    | .ok _ =>
        let _ ← port (.setInvocationStatus id .rerouted none)
        port (.routeInvocationWithOptions id (some taskId) config.queue config.priority)
    | .error error => if error.isInvalidStatusTransition then pure () else throw error

/-- Deny a candidate of a task that does not reroute: it ends. -/
def denyFinally (id : InvocationId) : Orch Unit := do
  match ← attempt (port (.setInvocationStatus id .concurrencyControlledFinal none)) with
  | .ok _ => pure ()
  | .error error => if error.isInvalidStatusTransition then pure () else throw error

def denyCandidate (d : Deployment) (id : InvocationId) (taskId : TaskId) (config : TaskConfig)
    (runnerId : RunnerId) : Orch Unit :=
  if config.rerouteOnCc then denyByReroute d id taskId config runnerId else denyFinally id

/-- Take the slot of a limited candidate, or deny it. -/
def admitLimited (d : Deployment) (id : InvocationId) (taskId : TaskId) (config : TaskConfig)
    (call : CallDTO) (runnerId : RunnerId) : Orch Bool := do
  let ccArguments :=
    concurrencyArguments config.concurrencyControl config.keyArguments call.serializedArguments
  if ← port (.tryAcquireConcurrencySlot id taskId config ccArguments) then
    pure true
  else
    denyCandidate d id taskId config runnerId
    pure false

/-- Admit a candidate, or deny it.  What cannot be read or is not limited is
admitted without a slot; `runnerId` is the caller's runner context. -/
def admitCandidate (d : Deployment) (id : InvocationId) (runnerId : RunnerId) : Orch Bool := do
  match ← attempt (port (.getInvocation id)) with
  | .error _ => pure true
  | .ok invocation =>
      match d.catalog.registry invocation.taskId with
      | none => pure true
      | some config =>
          if config.concurrencyControl = .unlimited then pure true
          else
            match ← attempt (port (.getCall invocation.callId)) with
            | .error _ => pure true
            | .ok call => admitLimited d id invocation.taskId config call runnerId

/-! ## Dispatch -/

/-- The first waited-for candidate of the language that is admitted. -/
def admitBlocking (d : Deployment) (language : TaskLanguage) (runnerId : RunnerId) :
    List InvocationId → Orch (Option InvocationId)
  | [] => pure none
  | id :: rest => do
      if ← candidateMatchesLanguage id language then
        if ← admitCandidate d id runnerId then pure (some id)
        else admitBlocking d language runnerId rest
      else admitBlocking d language runnerId rest

/-- The first entry of the queues, in order. -/
def retrieveFromQueues (language : TaskLanguage) : List String → Orch (Option InvocationId)
  | [] => pure none
  | queue :: rest => do
      match ← port (.retrieveInvocationForLanguageFromQueue language queue) with
      | some id => pure (some id)
      | none => retrieveFromQueues language rest

/-- Dequeue candidates until one is admitted, at most the given number of times. -/
def claimFromBroker (d : Deployment) (language : TaskLanguage) (runnerId : RunnerId) :
    Nat → Orch (Option InvocationId)
  | 0 => pure none
  | n + 1 => do
      let queues ← port (.queueNamesForRetrieval d.appConfig)
      match ← retrieveFromQueues language queues with
      | none => pure none
      | some id =>
          if ← admitCandidate d id runnerId then pure (some id)
          else claimFromBroker d language runnerId n

/-- Claim an invocation for a runner of the given language. -/
def claimNext (d : Deployment) (language : TaskLanguage) (runnerId : RunnerId) :
    Orch (Option InvocationId) := do
  match ← attempt (port (.getBlockingInvocations maxBlockingCandidates)) with
  | .error _ => claimFromBroker d language runnerId maxCcRetries
  | .ok blocking =>
      match ← admitBlocking d language runnerId blocking with
      | some id => pure (some id)
      | none => claimFromBroker d language runnerId maxCcRetries

end Rustvello.Orchestration
