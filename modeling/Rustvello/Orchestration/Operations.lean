import Rustvello.Orchestration.Execution
import Rustvello.Orchestration.Maintenance
import Rustvello.Orchestration.Triggers
import Rustvello.Mem.Runtime

/-!
# The operations of a running system

Everything that clients, workers and maintenance start on one deployment, as the
programs a pool schedules call by call, and the machine they form over the
in-memory backends.
-/

namespace Rustvello.Orchestration

open Concurrency Proto Rustvello.Core

/-- An operation as it is started. -/
inductive Operation where
  | submit (submission : Submission)
  | work (language : TaskLanguage) (worker : RunnerId)
  | recover (runnerId : RunnerId) (id : InvocationId) (recoveryStatus : InvocationStatus)
  | cancel (id : InvocationId) (runnerId : RunnerId)
  | waitFor (waiter waitedOn : InvocationId)
  | evaluateTriggers (runnerId : RunnerId)
deriving DecidableEq

/-- The calls of an operation. -/
def Operation.program (d : Deployment) : Operation → Prog ports Unit
  | submit submission => (submitWithId d submission).run.toUnit
  | work language worker => (workerRound d language worker).run.toUnit
  | recover runnerId id status => (recoverOne d runnerId id status).run.toUnit
  | cancel id runnerId => (cancelInvocation d id runnerId).run.toUnit
  | waitFor waiter waitedOn => (setWaitingFor waiter waitedOn).run.toUnit
  | evaluateTriggers runnerId => (triggerLoopIteration d runnerId).run.toUnit

/-- What a submission submits. -/
def Operation.submission? : Operation → Option Submission
  | submit submission => some submission
  | _ => none

/-- What a wait is for. -/
def Operation.waitedOn? : Operation → Option InvocationId
  | waitFor _ waitedOn => some waitedOn
  | _ => none

/-- The worker that makes a round. -/
def Operation.worker? : Operation → Option RunnerId
  | work _ worker => some worker
  | _ => none

/-- The status that a recovery takes over with. -/
def Operation.recoveryStatus? : Operation → Option InvocationStatus
  | recover _ _ recoveryStatus => some recoveryStatus
  | _ => none

/-- The operations considered: everything but trigger evaluation; a recovery
writes one of the two recovery statuses. -/
def Considered : Operation → Prop
  | .evaluateTriggers _ => False
  | .recover _ _ recoveryStatus => isRecoveryStatus recoveryStatus = true
  | _ => True

instance (op : Operation) : Decidable (Considered op) :=
  match op with
  | .evaluateTriggers _ => inferInstanceAs (Decidable False)
  | .recover _ _ status => inferInstanceAs (Decidable (isRecoveryStatus status = true))
  | .submit _ | .work _ _ | .cancel _ _ | .waitFor _ _ => inferInstanceAs (Decidable True)

/-- Any number of operations over the in-memory backends of one process. -/
def memMachine (d : Deployment) : Machine ports Mem.MemRuntime Env Operation where
  exec := Mem.MemRuntime.exec
  program := Operation.program d

/-- The in-memory runtime before the first operation. -/
def memStart : System ports Mem.MemRuntime Operation :=
  ⟨{}, []⟩

/-! ## A small deployment

One task that runs one invocation at a time and is retried once, for the runs that
later modules exhibit. -/

def serialTask : TaskId := ⟨.rust, "tasks", "serial"⟩

def serialConfig : TaskConfig :=
  { maxRetries := 1, concurrencyControl := .task, rerouteOnCc := true }

def serialDeployment : Deployment where
  catalog := { registry := fun taskId => if taskId = serialTask then some serialConfig else none }
  sha256Hex _ := ""
  triggerRunInvocationId _ := ⟨"planned"⟩

/-- Surroundings in which every attempt succeeds. -/
def idleEnv : Env := {}

/-- Surroundings in which every attempt fails. -/
def failingEnv : Env := { idleEnv with result := .error (.internal "boom") }

/-- Submit an invocation of the serial task, without arguments. -/
def submitSerial (id : String) : Operation :=
  .submit
    { invocationId := ⟨id⟩
      call := .new serialDeployment.sha256Hex serialTask .empty
      callerRunnerId := ⟨"client"⟩ }

end Rustvello.Orchestration
