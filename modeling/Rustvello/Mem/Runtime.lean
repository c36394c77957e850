import Rustvello.Mem.Orchestrator
import Rustvello.Mem.Broker
import Mathlib.Data.List.Sort

/-!
# The in-memory backends together

State backend and trigger runs (`state_backend.rs` and `trigger.rs` of
`rustvello-mem`), and `exec`, which carries out every port call on the four
in-memory backends of one process.  The in-memory backends have no publication
port.
-/

namespace Rustvello.Mem

open Concurrency Proto Rustvello.Core

/-- The tables of `MemStateBackend`. -/
structure BackendState where
  invocations : HashMap InvocationId InvocationDTO := ∅
  calls : HashMap CallId CallDTO := ∅
  results : HashMap InvocationId String := ∅
  errors : HashMap InvocationId TaskError := ∅
  histories : HashMap InvocationId (List InvocationHistory) := ∅
  /-- `workflow_data` under the identity key. -/
  identities : HashMap InvocationId ExecutionAttemptIdentity := ∅

namespace BackendState

def historyOf (b : BackendState) (id : InvocationId) : List InvocationHistory :=
  (b.histories.lookup id).getD []

def upsertInvocation (b : BackendState) (invocation : InvocationDTO) (call : CallDTO) :
    BackendState :=
  { b with
    invocations := b.invocations.insert invocation.invocationId invocation
    calls := b.calls.insert call.callId call }

def getInvocation (b : BackendState) (id : InvocationId) : RustvelloResult InvocationDTO :=
  match b.invocations.lookup id with
  | some invocation => .ok invocation
  | none => .error (.invocationNotFound id)

def getCall (b : BackendState) (callId : CallId) : RustvelloResult CallDTO :=
  match b.calls.lookup callId with
  | some call => .ok call
  | none => .error (.stateBackend ("call not found: " ++ callId.toText))

def addHistory (b : BackendState) (history : InvocationHistory) : BackendState :=
  { b with
    histories := b.histories.insert history.invocationId
      (b.historyOf history.invocationId ++ [history]) }

end BackendState

/-- The trigger outbox of `MemTriggerStore`. -/
structure TriggerState where
  claims : HashMap String Timestamp := ∅
  runs : HashMap String TriggerRunRecord := ∅

namespace TriggerState

/-- Claim one run: only the first claim counts, and a stored run is kept. -/
def claimRun (now : Timestamp) (t : TriggerState) (record : TriggerRunRecord) :
    Bool × TriggerState :=
  let key := record.triggerRunId
  let first := (t.claims.lookup key).isNone
  let t := if first then { t with claims := t.claims.insert key now } else t
  let t := if first || (t.runs.lookup key).isNone then
      { t with runs := t.runs.insert key record } else t
  (first, t)

/-- Claim and record a batch in one step. -/
def claimTriggerRunsWithRecords (now : Timestamp) :
    TriggerState → List TriggerRunRecord → List Bool × TriggerState
  | t, [] => ([], t)
  | t, record :: rest =>
      let first := claimRun now t record
      let others := claimTriggerRunsWithRecords now first.2 rest
      (first.1 :: others.1, others.2)

/-- The pending runs, oldest claim first. -/
def getPendingTriggerRuns (t : TriggerState) (order : List String) (limit : Nat) :
    List TriggerRunRecord :=
  let values := (arrange order t.runs.keys).filterMap fun key => t.runs.lookup key
  ((values.filter TriggerRunRecord.isPending).insertionSort
    fun left right => left.claimedAt ≤ right.claimedAt).take limit

end TriggerState

/-- All in-memory backends of a process. -/
structure MemRuntime where
  orchestrator : OrchestratorState := {}
  backend : BackendState := {}
  broker : MemBroker := {}
  triggers : TriggerState := {}
  nextQueueIndex : Nat := 0

namespace MemRuntime

/-- The in-memory backends offer no transaction. -/
def noPublication : RustvelloError :=
  .notSupported "In-Memory" "runtime_publication"

/-- Carry out one port call. -/
def exec (env : Env) : (c : PortCall) → MemRuntime → RustvelloResult c.Ans × MemRuntime
  | .registerInvocationWithId id call runnerId, s =>
      let answer := s.orchestrator.registerInvocationWithId env.clock id call runnerId
      (.ok answer.1, { s with orchestrator := answer.2 })
  | .getInvocationStatus id, s => (s.orchestrator.getInvocationStatus id, s)
  | .setInvocationStatus id status runnerId, s =>
      let answer := s.orchestrator.setInvocationStatus env.clock id status runnerId
      (answer.1, { s with orchestrator := answer.2 })
  | .incrementInvocationRetries id, s =>
      let answer := s.orchestrator.incrementInvocationRetries id
      (.ok answer.1, { s with orchestrator := answer.2 })
  | .scheduleAutoPurge id, s =>
      (.ok (), { s with orchestrator := s.orchestrator.scheduleAutoPurge env.clock id })
  | .setWaitingFor waiter waitedOn, s =>
      (.ok (), { s with orchestrator := s.orchestrator.setWaitingFor waiter waitedOn })
  | .releaseWaiters completed, s =>
      let answer := s.orchestrator.releaseWaiters completed
      (.ok answer.1, { s with orchestrator := answer.2 })
  | .getBlockingInvocations maxNum, s =>
      (.ok (s.orchestrator.getBlockingInvocations env.order maxNum), s)
  | .tryAcquireConcurrencySlot id taskId config ccArgs, s =>
      let answer := s.orchestrator.tryAcquireConcurrencySlot id taskId config ccArgs
      (.ok answer.1, { s with orchestrator := answer.2 })
  | .removeFromConcurrencyIndex id, s =>
      (.ok (), { s with orchestrator := s.orchestrator.removeFromConcurrencyIndex id })
  | .upsertInvocation invocation call, s =>
      (.ok (), { s with backend := s.backend.upsertInvocation invocation call })
  | .getInvocation id, s => (s.backend.getInvocation id, s)
  | .getCall callId, s => (s.backend.getCall callId, s)
  | .storeResult id result, s =>
      (.ok (), { s with
        backend := { s.backend with results := s.backend.results.insert id result } })
  | .storeError id error, s =>
      (.ok (), { s with
        backend := { s.backend with errors := s.backend.errors.insert id error } })
  | .addHistory history, s => (.ok (), { s with backend := s.backend.addHistory history })
  | .getHistory id, s => (.ok (s.backend.historyOf id), s)
  | .getExecutionIdentity id, s => (.ok (s.backend.identities.lookup id), s)
  | .setExecutionIdentity id identity, s =>
      (.ok (), { s with
        backend := { s.backend with identities := s.backend.identities.insert id identity } })
  | .routeInvocationWithOptions id taskId queue priority, s =>
      let answer := s.broker.routeInvocationWithOptions id taskId queue priority
      (answer.1, { s with broker := answer.2 })
  | .routeInvocationAfter id taskId queue priority delayMs, s =>
      let answer := s.broker.routeInvocationAfter env.clock id taskId queue priority
        (MemBroker.nanoseconds delayMs)
      (answer.1, { s with broker := answer.2 })
  | .retrieveInvocationForLanguageFromQueue language queue, s =>
      let answer := s.broker.retrieveInvocationForLanguageFromQueue env.clock language queue
      (answer.1, { s with broker := answer.2 })
  | .publicationSubmit _, s => (.error noPublication, s)
  | .publicationChange _ _ _ _, s => (.error noPublication, s)
  | .publicationBeginExecution _ _ _ _, s => (.error noPublication, s)
  | .reportStatusChange _ _ _ _, s => (.ok (), s)
  | .reportResult _ _ _ _, s => (.ok (), s)
  | .reportFailure _ _ _ _ _, s => (.ok (), s)
  | .satisfiedTriggers, s => (.ok env.firings, s)
  | .claimTriggerRunsWithRecords records, s =>
      let answer := TriggerState.claimTriggerRunsWithRecords env.clock s.triggers records
      (.ok answer.1, { s with triggers := answer.2 })
  | .getPendingTriggerRuns limit, s =>
      (.ok (s.triggers.getPendingTriggerRuns env.runOrder limit), s)
  | .getTriggerRun triggerRunId, s => (.ok (s.triggers.runs.lookup triggerRunId), s)
  | .storeTriggerRun run, s =>
      (.ok (), { s with
        triggers := { s.triggers with runs := s.triggers.runs.insert run.triggerRunId run } })
  | .utcNow, s => (.ok env.clock, s)
  | .randomUnit, s => (.ok env.randomUnit, s)
  | .queueNamesForRetrieval config, s =>
      let answer := queueNamesForRetrieval env config s.nextQueueIndex
      (.ok answer.1, { s with nextQueueIndex := answer.2 })
  | .allocateTraceContext parent, s => (.ok (env.allocateTraceContext parent), s)
  | .middlewareBefore _ _, s => (env.middleware, s)
  | .superviseAttempt context timeoutMs cancelCheck, s =>
      (.ok (env.supervise context.invocationId (s.orchestrator.statusOf context.invocationId)
        timeoutMs cancelCheck), s)

end MemRuntime

end Rustvello.Mem
