import Rustvello.Core.RunnerPorts
import Rustvello.Orchestration.Dispatch

/-!
# Batch retrieval

`get_invocations_to_run` (`orchestration/retrieval.rs`): invocations that others wait for
come first, then the broker queues; each candidate is checked for running concurrency and
moved to `pending`, or denied.  Denied invocations are rerouted at the end.

The function of the source is cut at its three phases: `retrieveBlocking`,
`retrieveFromBroker` and `rerouteDenied`.
-/

namespace Rustvello.Orchestration

open Concurrency Proto Rustvello.Core

/-- `config_for_task`: the effective configuration of a registered task. -/
def Deployment.configForTask (d : Deployment) (taskId : TaskId) : Option TaskConfig :=
  (d.catalog.registry taskId).map (d.catalog.resolveConfig d.appConfig taskId)

/-- Whether a candidate is cleared to run.  What cannot be read or is not limited is not
checked. -/
def checkCcForInvocation (d : Deployment) (id : InvocationId) : Runner Bool := do
  match ← lift (attempt (port (.getInvocation id))) with
  | .error _ => pure true
  | .ok invocation =>
      match d.configForTask invocation.taskId with
      | none => pure true
      | some config =>
          if config.concurrencyControl = .unlimited then pure true
          else
            match ← lift (attempt (port (.getCall invocation.callId))) with
            | .error _ => pure true
            | .ok call =>
                runnerPort (.checkRunningConcurrency invocation.taskId config
                  (concurrencyArguments config.concurrencyControl config.keyArguments
                    call.serializedArguments))

/-- History and triggers of a claim; their errors are dropped. -/
def recordClaim (d : Deployment) (id : InvocationId) (runnerId : RunnerId)
    (record : InvocationStatusRecord) : Orch Unit := do
  let invocation ← attempt (port (.getInvocation id))
  let _ ← attempt (port (.addHistory ((InvocationHistory.new id record none).withRunner runnerId)))
  match d.triggerManager, invocation with
  | true, .ok invocation =>
      let arguments ← getInvocationArguments id
      let _ ← attempt (port (.reportStatusChange id invocation.taskId .pending arguments))
      pure ()
  | _, _ => pure ()

/-- Move a candidate to `pending` and add it to the result; a refused transition is a lost
race. -/
def tryTransitionToPending (d : Deployment) (id : InvocationId) (runnerId : RunnerId)
    (result : List InvocationId) : Orch (List InvocationId) := do
  match ← attempt (port (.setInvocationStatus id .pending (some runnerId))) with
  | .ok record =>
      recordClaim d id runnerId record
      pure (result ++ [id])
  | .error error => if error.isInvalidStatusTransition then pure result else throw error

/-- A `retry` invocation may be in durable backoff: only its broker entry may deliver it. -/
def passedOver (status : InvocationStatus) : Bool :=
  decide (status = .retry) || !status.canTransitionTo .pending

/-- Phase 1: the waited-for candidates. -/
def retrieveBlocking (d : Deployment) (maxNum : Nat) (runnerId : RunnerId) :
    List InvocationId → List InvocationId → Runner (List InvocationId)
  | result, [] => pure result
  | result, id :: rest =>
      if maxNum ≤ result.length then pure result
      else do
        match ← lift (attempt (port (.getInvocationStatus id))) with
        | .error _ => retrieveBlocking d maxNum runnerId result rest
        | .ok record =>
            if passedOver record.status then retrieveBlocking d maxNum runnerId result rest
            else
              if ← checkCcForInvocation d id then
                let result ← lift (tryTransitionToPending d id runnerId result)
                retrieveBlocking d maxNum runnerId result rest
              else retrieveBlocking d maxNum runnerId result rest

/-- The first entry of the queues, whatever its language. -/
def dequeueFirst : List String → Runner (Option InvocationId)
  | [] => pure none
  | queue :: rest => do
      match ← runnerPort (.retrieveInvocationFromQueue queue) with
      | some id => pure (some id)
      | none => dequeueFirst rest

/-- A denial that the status machine refuses is dropped. -/
def denied (rerouteIds : List InvocationId) :
    RustvelloResult InvocationStatusRecord → List InvocationId → Orch (List InvocationId)
  | .ok _, reroute => pure (rerouteIds ++ reroute)
  | .error error, _ =>
      if error.isInvalidStatusTransition then pure rerouteIds else throw error

/-- Deny a candidate of the broker: it is rerouted later, or ends. -/
def denyRetrieved (d : Deployment) (id : InvocationId) (runnerId : RunnerId)
    (rerouteIds : List InvocationId) : Orch (List InvocationId) := do
  match ← attempt (port (.getInvocation id)) with
  | .error _ => pure rerouteIds
  | .ok invocation =>
      match (d.configForTask invocation.taskId).filter TaskConfig.rerouteOnCc with
      | some config =>
          if d.publication then
            match ← attempt (port (.publicationChange id runnerId
                (.concurrencyReroute ⟨config.queue, config.priority⟩) false)) with
            | .ok _ => pure rerouteIds
            | .error error => if error.isInvalidStatusTransition then pure rerouteIds else throw error
          else
            let written ← attempt (port (.setInvocationStatus id .concurrencyControlled
              (some runnerId)))
            denied rerouteIds written [id]
      | none =>
          let written ← attempt (port (.setInvocationStatus id .concurrencyControlledFinal
            (some runnerId)))
          denied rerouteIds written []

/-- Phase 2: candidates of the broker, at most the given number of times.  The second list
is what was denied and has to be rerouted. -/
def retrieveFromBroker (d : Deployment) (maxNum : Nat) (runnerId : RunnerId)
    (queues : List String) :
    Nat → List InvocationId → List InvocationId → Runner (List InvocationId × List InvocationId)
  | 0, result, rerouteIds => pure (result, rerouteIds)
  | n + 1, result, rerouteIds =>
      if maxNum ≤ result.length then pure (result, rerouteIds)
      else do
        match ← dequeueFirst queues with
        | none => pure (result, rerouteIds)
        | some id =>
            if id ∈ result then retrieveFromBroker d maxNum runnerId queues n result rerouteIds
            else
              match ← lift (attempt (port (.getInvocationStatus id))) with
              | .error _ => retrieveFromBroker d maxNum runnerId queues n result rerouteIds
              | .ok record =>
                  if record.status.isAvailableForRun then
                    if ← checkCcForInvocation d id then
                      let result ← lift (tryTransitionToPending d id runnerId result)
                      retrieveFromBroker d maxNum runnerId queues n result rerouteIds
                    else
                      let rerouteIds ← lift (denyRetrieved d id runnerId rerouteIds)
                      retrieveFromBroker d maxNum runnerId queues n result rerouteIds
                  else retrieveFromBroker d maxNum runnerId queues n result rerouteIds

/-- Put a rerouted invocation back into its queue, if its task is known. -/
def routeDenied (d : Deployment) (id : InvocationId) : Orch Unit := do
  match ← attempt (port (.getInvocation id)) with
  | .error _ => pure ()
  | .ok invocation =>
      match d.configForTask invocation.taskId with
      | none => pure ()
      | some config =>
          let _ ← attempt (port (.routeInvocationWithOptions id (some invocation.taskId)
            config.queue config.priority))
          pure ()

/-- Phase 3: reroute what was denied. -/
def rerouteDenied (d : Deployment) (runnerId : RunnerId) : List InvocationId → Orch Unit
  | [] => pure ()
  | id :: rest => do
      match ← attempt (port (.setInvocationStatus id .rerouted (some runnerId))) with
      | .ok _ =>
          routeDenied d id
          rerouteDenied d runnerId rest
      | .error error =>
          if error.isInvalidStatusTransition then rerouteDenied d runnerId rest else throw error

/-- Retrieve invocations that are ready to run. -/
def getInvocationsToRun (d : Deployment) (maxNum : Nat) (runnerId : RunnerId)
    (queues : List String) : Runner (List InvocationId) := do
  let blocking ← lift (attempt (port (.getBlockingInvocations maxNum)))
  let result ← match blocking with
    | .ok blocking => retrieveBlocking d maxNum runnerId [] blocking
    | .error _ => pure []
  let retrieved ← retrieveFromBroker d maxNum runnerId queues (maxNum * 2 + 8) result []
  lift (rerouteDenied d runnerId retrieved.2)
  pure retrieved.1

end Rustvello.Orchestration
