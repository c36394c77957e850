import Rustvello.Orchestration.Calls
import Rustvello.Orchestration.Retrieval

/-!
# Registration control

`submit_with_registration_control` (`orchestration/submission.rs`): a task may ask that a call
is not registered again while an invocation with the same registration key is unfinished.  The
unfinished invocations of the task are listed first; one with the requested key is returned, and
otherwise the call is submitted.
-/

namespace Rustvello.Orchestration

open Concurrency Proto Rustvello.Core

/-- What a call is submitted with.  `invocationId` is the id that a new invocation takes. -/
structure RegistrationRequest where
  taskId : TaskId
  args : SerializedArguments
  invocationId : InvocationId
  parent : Option (InvocationId × Option WorkflowIdentity) := none
  traceContext : TraceContextCarrier := {}
  callerRunnerId : RunnerId
deriving DecidableEq

def RegistrationRequest.call (d : Deployment) (r : RegistrationRequest) : CallDTO :=
  .new d.sha256Hex r.taskId r.args

def RegistrationRequest.submission (d : Deployment) (r : RegistrationRequest) : Submission where
  invocationId := r.invocationId
  call := r.call d
  parent := r.parent
  traceContext := r.traceContext
  callerRunnerId := r.callerRunnerId

/-- The statuses of unfinished invocations. -/
def nonTerminalStatuses : List InvocationStatus :=
  allStatuses.filter fun status => !status.isTerminal

theorem mem_nonTerminalStatuses (status : InvocationStatus) :
    status ∈ nonTerminalStatuses ↔ status.isTerminal = false := by
  cases status <;> decide

/-- The first of the listed invocations that has the requested key. -/
def findExisting (config : TaskConfig) (requestedKey : Option SerializedArguments) :
    List InvocationId → Orch (Option InvocationId)
  | [] => pure none
  | id :: rest =>
      if config.registrationConcurrency = .task then pure (some id)
      else do
        let invocation ← port (.getInvocation id)
        let call ← port (.getCall invocation.callId)
        let existingKey := concurrencyArguments config.registrationConcurrency config.keyArguments
          call.serializedArguments
        if existingKey = requestedKey then pure (some id)
        else findExisting config requestedKey rest

/-- Submit a call, or return the unfinished invocation that stands for it. -/
def submitWithRegistrationControl (d : Deployment) (r : RegistrationRequest) :
    Runner InvocationId :=
  match d.configForTask r.taskId with
  | none => throw (.taskNotRegistered r.taskId)
  | some config =>
      if config.registrationConcurrency = .unlimited then lift (submitWithId d (r.submission d))
      else do
        let requestedKey := concurrencyArguments config.registrationConcurrency
          config.keyArguments r.args
        let existing ← runnerPort (.getExistingInvocations r.taskId none nonTerminalStatuses)
        match ← lift (findExisting config requestedKey existing) with
        | some id => pure id
        | none => lift (submitWithId d (r.submission d))

/-- The key that a task registers arguments under; `none` if it takes every call. -/
def Deployment.registrationKey (d : Deployment) (taskId : TaskId) (args : SerializedArguments) :
    Option SerializedArguments :=
  (d.configForTask taskId).bind fun config =>
    concurrencyArguments config.registrationConcurrency config.keyArguments args

/-- The key of a request. -/
def RegistrationRequest.key (d : Deployment) (r : RegistrationRequest) :
    Option SerializedArguments :=
  d.registrationKey r.taskId r.args

/-- Limited tasks have a key for every call, and others for none. -/
theorem RegistrationRequest.key_isSome {d : Deployment} {r : RegistrationRequest}
    {config : TaskConfig} (hconfig : d.configForTask r.taskId = some config) :
    (r.key d).isSome = true ↔ config.registrationConcurrency ≠ .unlimited := by
  have hkey : r.key d = concurrencyArguments config.registrationConcurrency config.keyArguments
      r.args := by
    simp only [key, Deployment.registrationKey, hconfig, Option.bind_some]
  rw [hkey]
  cases config.registrationConcurrency with
  | argument =>
      simp only [concurrencyArguments]
      split <;> simp
  | _ => simp [concurrencyArguments]

/-! ## Worker lifecycles -/

/-- The operations that act on invocations that exist already. -/
def Operation.isWorker : Operation → Bool
  | work _ _ | cancel _ _ | waitFor _ _ => true
  | recover _ _ recoveryStatus => isRecoveryStatus recoveryStatus
  | submit _ | evaluateTriggers _ => false

/-- A call that creates nothing. -/
def Serves : PortCall → Prop
  | .registerInvocationWithId _ _ _ | .upsertInvocation _ _ => False
  | _ => True

theorem serves_of_actsOn {id : InvocationId} {runner : RunnerId} {α : Type} {p : Orch α}
    (h : Prog.UsesE Truthful (ActsOn (fun _ => True) id runner) p) :
    Prog.UsesE Truthful Serves p := by
  refine Prog.Uses.mono h (fun _ _ h => h) fun c hc => ?_
  rcases hc with hc | hc
  · cases c <;> trivial
  · cases c <;> trivial

/-- A worker creates no invocation. -/
theorem Operation.program_serves {d : Deployment} (hd : d.publication = false) {op : Operation}
    (hop : op.isWorker = true) : (op.program d).Uses Truthful Serves := by
  have hunit : ∀ {α : Type} {p : Orch α}, Prog.UsesE Truthful Serves p →
      p.run.toUnit.Uses Truthful Serves :=
    fun h => Prog.uses_bind h fun _ => trivial
  cases op with
  | submit submission => cases hop
  | evaluateTriggers runnerId => cases hop
  | waitFor waiter waitedOn => exact hunit (usesE_port trivial)
  | cancel id runnerId =>
      exact hunit (serves_of_actsOn (usesE_actsOn id runnerId
        (cancelInvocation_updates hd id runnerId trivial)))
  | recover runnerId id recoveryStatus =>
      exact hunit (serves_of_actsOn (recoverOne_actsOn hd id runnerId
        trivial trivial trivial))
  | work language worker =>
      refine hunit (Prog.usesE_bind (Prog.Uses.mono (claimNext_dispatches hd language worker)
        (fun _ _ h => h) fun c hc => ?_) ?_)
      · cases c <;> trivial
      · rintro (_ | id)
        · exact usesE_pure _
        · have hrelease : Prog.UsesE Truthful Serves
              (releaseNontransactionalConcurrencySlot d id) :=
            serves_of_actsOn (usesE_actsOn id worker
              (releaseSlot_updates hd id worker))
          refine Prog.usesE_bind (usesE_attempt (serves_of_actsOn (usesE_actsOn id worker
            (setInvocationStatus_updates hd id worker trivial)))) ?_
          rintro (e | record)
          · dsimp only
            split
            · exact hrelease
            · exact Prog.usesE_bind (usesE_attempt hrelease) fun _ => usesE_throw _
          · exact serves_of_actsOn (executeClaimed_actsOn hd id worker
              ⟨trivial, trivial, trivial, trivial⟩)

end Rustvello.Orchestration
