import Rustvello.Core.RunnerPorts
import Rustvello.Orchestration.Lifecycle

/-!
# Routing calls

`route_call` and `reroute_invocations` (`orchestration/routing.rs`) and
`register_invocations` (`orchestration/mod.rs`).  Routing and registering are the other two
ways in which an invocation is created: a routed call may reuse a registered invocation with
the same concurrency arguments, and enters the concurrency index only if it is told to.
Rerouting puts existing invocations back into a queue.
-/

namespace Rustvello.Orchestration

open Concurrency Proto Rustvello.Core

inductive RouteCallResult where
  | new (id : InvocationId)
  | reused (id : InvocationId)
  | reusedDifferentCall (id : InvocationId) (existingCallId : CallId)
deriving DecidableEq

/-- What a call is routed with. -/
structure RoutedCall where
  newInvocationId : InvocationId
  call : CallDTO
  ccArgs : Option SerializedArguments
  registrationCc : ConcurrencyControlType
  indexCc : Bool
  runnerId : RunnerId
  queueName : String
  priority : F64
deriving DecidableEq

/-- Store and register: the ordered calls of a new invocation. -/
def createInvocation (d : Deployment) (invocation : InvocationDTO) (call : CallDTO)
    (runnerId : RunnerId) : Orch Unit := do
  port (.upsertInvocation invocation call)
  let record ← port (.registerInvocationWithId invocation.invocationId call (some runnerId))
  port (.addHistory ((InvocationHistory.new invocation.invocationId record none).withRunner
    runnerId))
  reportPublishedStatus d invocation.invocationId record.status invocation.taskId
    call.serializedArguments

def createAndRouteInvocation (d : Deployment) (r : RoutedCall) : Runner InvocationId := do
  let now ← lift (port .utcNow)
  let invocation := InvocationDTO.new now r.newInvocationId r.call.taskId r.call.callId
  if d.publication then
    let created ← lift (port (.publicationSubmit ⟨invocation, r.call, r.runnerId, false,
      if r.indexCc then r.ccArgs else none, ⟨r.queueName, r.priority⟩⟩))
    if created then
      lift (reportPublishedStatus d r.newInvocationId .registered r.call.taskId
        r.call.serializedArguments)
      pure r.newInvocationId
    else pure r.newInvocationId
  else
    lift (createInvocation d invocation r.call r.runnerId)
    if r.indexCc then
      runnerPort (.indexForConcurrencyControl r.newInvocationId r.call.taskId r.ccArgs)
      lift (port (.routeInvocationWithOptions r.newInvocationId (some r.call.taskId) r.queueName
        r.priority))
      pure r.newInvocationId
    else
      lift (port (.routeInvocationWithOptions r.newInvocationId (some r.call.taskId) r.queueName
        r.priority))
      pure r.newInvocationId

/-- Route a call: create an invocation, or reuse a registered one. -/
def routeCall (d : Deployment) (r : RoutedCall) : Runner RouteCallResult :=
  if r.registrationCc = .unlimited then do
    let id ← createAndRouteInvocation d r
    pure (.new id)
  else do
    let existing ← runnerPort (.getExistingInvocations r.call.taskId r.ccArgs [.registered])
    match existing.head? with
    | some existingId =>
        let invocation ← lift (port (.getInvocation existingId))
        if invocation.callId = r.call.callId then pure (.reused existingId)
        else pure (.reusedDifferentCall existingId invocation.callId)
    | none =>
        let id ← createAndRouteInvocation d r
        pure (.new id)

/-- A batch in one transaction each. -/
def registerPublished (d : Deployment) (runnerId : RunnerId) :
    List ((InvocationDTO × CallDTO) × String × F64) → Orch Unit
  | [] => pure ()
  | ((invocation, call), queue, priority) :: rest => do
      let created ← port (.publicationSubmit ⟨invocation, call, runnerId,
        decide (invocation.workflow.map WorkflowIdentity.workflowId = some invocation.invocationId),
        none, ⟨queue, priority⟩⟩)
      if created then
        reportPublishedStatus d invocation.invocationId .registered call.taskId
          call.serializedArguments
        registerPublished d runnerId rest
      else registerPublished d runnerId rest

def createAll (d : Deployment) (runnerId : RunnerId) : List (InvocationDTO × CallDTO) → Orch Unit
  | [] => pure ()
  | (invocation, call) :: rest => do
      createInvocation d invocation call runnerId
      createAll d runnerId rest

def routeAll : List ((InvocationDTO × CallDTO) × String × F64) → Orch Unit
  | [] => pure ()
  | ((invocation, _), queue, priority) :: rest => do
      port (.routeInvocationWithOptions invocation.invocationId (some invocation.taskId) queue
        priority)
      routeAll rest

/-- Register a batch: all are stored and registered before the first one is routed. -/
def registerInvocations (d : Deployment) (invocations : List (InvocationDTO × CallDTO))
    (runnerId : RunnerId) (routes : List (String × F64)) : Orch Unit :=
  if invocations.length ≠ routes.length then
    throw (.internal "invocation and routing counts differ")
  else if d.publication then registerPublished d runnerId (invocations.zip routes)
  else do
    createAll d runnerId invocations
    routeAll (invocations.zip routes)

/-! ## Rerouting -/

/-- Where an invocation is to be routed. -/
def routeFor (routes : List (InvocationId × String × F64)) (id : InvocationId) :
    Orch (String × F64) :=
  match routes.lookup id with
  | some route => pure route
  | none => throw (.internal ("missing routing for invocation " ++ id.raw))

def reroutePublished (runnerId : RunnerId) (routes : List (InvocationId × String × F64))
    (id : InvocationId) : Orch Unit := do
  let route ← routeFor routes id
  match ← attempt (port (.publicationChange id runnerId (.reroute ⟨route.1, route.2⟩) false)) with
  | .ok _ => pure ()
  | .error error => if error.isInvalidStatusTransition then pure () else throw error

/-- History and triggers of a reroute; their errors are dropped. -/
def recordReroute (d : Deployment) (id : InvocationId) (runnerId : RunnerId)
    (record : InvocationStatusRecord) : Orch Unit := do
  let _ ← attempt (port (.addHistory ((InvocationHistory.new id record none).withRunner runnerId)))
  if d.triggerManager then
    let context ← getTriggerContext id
    let _ ← attempt (port (.reportStatusChange id context.1 .rerouted context.2))
    pure ()
  else pure ()

/-- A refused transition is skipped: a racing runner moved the invocation. -/
def rerouteOrdered (d : Deployment) (runnerId : RunnerId)
    (routes : List (InvocationId × String × F64)) (id : InvocationId) : Orch Unit := do
  match ← attempt (port (.setInvocationStatus id .rerouted (some runnerId))) with
  | .ok record =>
      recordReroute d id runnerId record
      let invocation ← port (.getInvocation id)
      let route ← routeFor routes id
      port (.routeInvocationWithOptions id (some invocation.taskId) route.1 route.2)
  | .error error => if error.isInvalidStatusTransition then pure () else throw error

/-- Reroute a set of invocations: transition to `rerouted`, then queue again. -/
def rerouteInvocations (d : Deployment) (runnerId : RunnerId)
    (routes : List (InvocationId × String × F64)) : List InvocationId → Orch Unit
  | [] => pure ()
  | id :: rest => do
      if d.publication then reroutePublished runnerId routes id
      else rerouteOrdered d runnerId routes id
      rerouteInvocations d runnerId routes rest

end Rustvello.Orchestration
