import Rustvello.Proto.Config

/-!
# Errors, and the checks every backend shares

`RustvelloError` with the `Display` text of each variant (`error.rs` of
`rustvello-core`), the translation of a status-machine refusal, and
`validateRouting`, which every broker applies to a queue name and a priority
(`broker.rs`).
-/

namespace Rustvello.Core

open Proto

inductive InfraErrorKind where
  | connection
  | timeout
  | query
  | dataCorruption
  | other
deriving DecidableEq, Repr

def InfraErrorKind.toText : InfraErrorKind → String
  | connection => "connection"
  | timeout => "timeout"
  | query => "query"
  | dataCorruption => "data_corruption"
  | other => "other"

/-- Root error type of the runtime. -/
inductive RustvelloError where
  | retry (reason : String)
  | concurrencyRetry (taskId : TaskId) (reason : String)
  | serialization (message : String)
  | taskNotFound (taskId : TaskId)
  | taskNotRegistered (taskId : TaskId)
  | cycleDetected (taskId : TaskId) (message : String)
  | runnerNotExecutable (taskId : TaskId) (message : String)
  | taskClassNotFound (taskId : TaskId)
  | invocationNotFound (invocationId : InvocationId)
  | invalidStatusTransition (invocationId : InvocationId) (fromStatus toStatus : InvocationStatus)
      (allowedStatuses : List InvocationStatus)
  | ownershipViolation (invocationId : InvocationId) (fromStatus toStatus : InvocationStatus)
      (currentOwner attemptedOwner reason : String)
  | statusRaceCondition (invocationId : InvocationId)
      (previousStatus expectedStatus actualStatus : InvocationStatus)
  | invocationCancelled (invocationId : InvocationId)
  | taskExecution (errorType message : String) (traceback : Option String)
  | infrastructure (kind : InfraErrorKind) (message : String)
  | configuration (message : String)
  | workflowContextUnavailable
  | workflowMembershipRequired (invocationId : InvocationId)
  | workflowRootRequired (invocationId workflowId : InvocationId)
  | internal (message : String)
  | notSupported (backend method : String)
deriving DecidableEq, Repr

abbrev RustvelloResult (α : Type) := Except RustvelloError α

/-- A chain of fallible steps succeeds when each of them does. -/
theorem bind_eq_ok {ρ α β : Type} {x : Except ρ α} {f : α → Except ρ β} {b : β} :
    (x >>= f) = .ok b ↔ ∃ a, x = .ok a ∧ f a = .ok b := by
  cases x with
  | error e => simp [Bind.bind, Except.bind]
  | ok a => simp [Bind.bind, Except.bind]

/-- It fails where its first failing step does. -/
theorem bind_eq_error {ρ α β : Type} {x : Except ρ α} {f : α → Except ρ β} {e : ρ} :
    (x >>= f) = .error e ↔ x = .error e ∨ ∃ a, x = .ok a ∧ f a = .error e := by
  cases x with
  | error e => simp [Bind.bind, Except.bind]
  | ok a => simp [Bind.bind, Except.bind]

namespace RustvelloError

/-- State backend query or storage error. -/
def stateBackend (message : String) : RustvelloError :=
  infrastructure .query message

/-- `Display`. -/
def toText : RustvelloError → String
  | retry reason => "retry requested: " ++ reason
  | concurrencyRetry t reason => "concurrency retry: task " ++ t.toText ++ " — " ++ reason
  | serialization message => "serialization error: " ++ message
  | taskNotFound t => "task not found: " ++ t.toText
  | taskNotRegistered t => "task not registered: " ++ t.toText
  | cycleDetected t message => "cycle detected: " ++ t.toText ++ " — " ++ message
  | runnerNotExecutable t message => "runner not executable: " ++ t.toText ++ " — " ++ message
  | taskClassNotFound t => "task class not found: " ++ t.toText
  | invocationNotFound id => "invocation not found: " ++ id.raw
  | invalidStatusTransition _ a b _ =>
      "invalid status transition: " ++ a.toName ++ " -> " ++ b.toName
  | ownershipViolation _ a b owner requester _ =>
      "ownership violation: " ++ a.toName ++ " -> " ++ b.toName ++ ", owner=" ++ owner ++
        ", requester=" ++ requester
  | statusRaceCondition id _ _ _ => "status race condition on " ++ id.raw
  | invocationCancelled id => "invocation " ++ id.raw ++ " was cancelled"
  | taskExecution errorType message _ =>
      "task execution error (" ++ errorType ++ "): " ++ message
  | infrastructure kind message => "infrastructure error (" ++ kind.toText ++ "): " ++ message
  | configuration message => "configuration error: " ++ message
  | workflowContextUnavailable =>
      "workflow context is unavailable outside a running invocation"
  | workflowMembershipRequired id => "invocation " ++ id.raw ++ " is not a workflow member"
  | workflowRootRequired id workflow =>
      "invocation " ++ id.raw ++ " is not the defining root of workflow " ++ workflow.raw
  | internal message => "internal error: " ++ message
  | notSupported backend method => backend ++ " backend does not support " ++ method

/-- A refusal by the transition table. -/
def isInvalidStatusTransition : RustvelloError → Bool
  | invalidStatusTransition _ _ _ _ => true
  | _ => false

/-- A refusal by the ownership rule. -/
def isOwnershipViolation : RustvelloError → Bool
  | ownershipViolation _ _ _ _ _ _ => true
  | _ => false

def isInvocationNotFound : RustvelloError → Bool
  | invocationNotFound _ => true
  | _ => false

/-- A conditional write that lost its race. -/
def isStatusRaceCondition : RustvelloError → Bool
  | statusRaceCondition _ _ _ _ => true
  | _ => false

end RustvelloError

/-- What is stored with a failed invocation. -/
structure TaskError where
  errorType : String
  message : String
  traceback : Option String
deriving DecidableEq, Repr

/-- A refusal of the status machine as a runtime error. -/
def statusMachineErrorToRustvello (e : StatusMachineError) (invocationId : InvocationId)
    (fallbackFromStatus : InvocationStatus) : RustvelloError :=
  match e with
  | .transition t =>
      .invalidStatusTransition invocationId (t.fromStatus.getD fallbackFromStatus) t.toStatus
        t.allowed
  | .ownership o =>
      .ownershipViolation invocationId o.fromStatus o.toStatus (o.currentOwner.getD "")
        (o.attemptedOwner.getD "") o.reason

theorem isInvalidStatusTransition_statusMachineError (e : StatusMachineError)
    (invocationId : InvocationId) (fallback : InvocationStatus) :
    (statusMachineErrorToRustvello e invocationId fallback).isInvalidStatusTransition = true ↔
      ∃ t, e = .transition t := by
  cases e <;> simp [statusMachineErrorToRustvello, RustvelloError.isInvalidStatusTransition]

/-! ## Routing values -/

/-- The bytes a queue name may hold: `[A-Za-z0-9_.-]`. -/
def queueNameChar (c : Char) : Bool :=
  (c.toNat < 128 && c.isAlphanum) || c = '_' || c = '.' || c = '-'

def validQueueName (queueName : String) : Bool :=
  !queueName.toList.isEmpty && queueName.toList.all queueNameChar

def validPriority : F64 → Bool
  | .finite p => decide (-100 ≤ p) && decide (p ≤ 100)
  | .negZero => true
  | _ => false

/-- Validate backend-independent queue and priority values. -/
def validateRouting (queueName : String) (priority : F64) : RustvelloResult Unit :=
  if !validQueueName queueName then
    .error (.configuration ("invalid queue name \"" ++ queueName ++
      "\"; expected [A-Za-z0-9_.-]+"))
  else if !validPriority priority then
    .error (.configuration "priority must be a finite float between -100 and 100")
  else
    .ok ()

theorem validateRouting_ok_iff (queueName : String) (priority : F64) :
    validateRouting queueName priority = .ok () ↔
      validQueueName queueName = true ∧ validPriority priority = true := by
  unfold validateRouting
  split
  · simp_all
  · split <;> simp_all

/-- A refused route is an error of the configuration. -/
theorem validateRouting_error {queueName : String} {priority : F64} {e : RustvelloError}
    (h : validateRouting queueName priority = .error e) :
    ∃ message, e = .configuration message := by
  unfold validateRouting at h
  split at h
  · exact ⟨_, (Except.error.inj h).symm⟩
  · split at h
    · exact ⟨_, (Except.error.inj h).symm⟩
    · cases h

instance (queueName : String) (priority : F64) :
    Decidable (validateRouting queueName priority = .ok ()) :=
  decidable_of_iff' _ (validateRouting_ok_iff queueName priority)

end Rustvello.Core
