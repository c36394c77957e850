import Rustvello.Orchestration.RunnerCalls

/-!
# Runners over the in-memory backends

The rest of `MemOrchestrator` that runners call (`recovery.rs`, `query.rs`), and the
machine of everything that runners, clients and maintenance start at the same time.

* `isStalePending`, `isStaleRunning` — what recovery takes for abandoned;
* `exec_unrefused` — no call but a status write, or middleware, answers a refusal;
* `execRunner` — every call of a runner on the backends of one process;
* `RunnerTask`, `runnerMachine` — the operations that may run, with the statuses each one
  may ask for (`program_writes`);
* `timedRunners` — the same machine under a clock that does not go back.
-/

namespace Rustvello.Mem

open Concurrency Proto Rustvello.Core Orchestration

namespace OrchestratorState

def registerHeartbeat (s : OrchestratorState) (now : Timestamp) (runnerId : RunnerId) :
    OrchestratorState :=
  { s with heartbeats := s.heartbeats.insert runnerId now }

/-- A `pending` record that is older than the given number of seconds. -/
def isStalePending (now : Timestamp) (maxPendingSeconds : Nat) (record : InvocationStatusRecord) :
    Bool :=
  decide (record.status = .pending) &&
    decide (record.timestamp < now - durationSeconds maxPendingSeconds)

/-- Whole seconds of a duration, rounded toward zero. -/
def wholeSeconds (delta : Timestamp) : Int :=
  delta.tdiv 1000000000

/-- The owner of a `running` record has been silent for longer than the given number of
seconds; without a heartbeat, the record itself is older. -/
def isOwnerDead (s : OrchestratorState) (now : Timestamp) (deadSeconds : Nat)
    (record : InvocationStatusRecord) : Bool :=
  match record.runnerId with
  | some runnerId =>
      match s.heartbeats.lookup runnerId with
      | some last => decide ((deadSeconds : Int) < wholeSeconds (now - last))
      | none => decide (record.timestamp < now - durationSeconds deadSeconds)
  | none => true

def isStaleRunning (s : OrchestratorState) (now : Timestamp) (deadSeconds : Nat)
    (record : InvocationStatusRecord) : Bool :=
  decide (record.status = .running) && s.isOwnerDead now deadSeconds record

/-- The invocations whose record has a property, in iteration order. -/
def recordsWhere (s : OrchestratorState) (order : List InvocationId)
    (selects : InvocationStatusRecord → Bool) : List InvocationId :=
  (arrange order s.statusRecords.keys).filter fun id => (s.statusRecords.lookup id).any selects

def getStalePendingInvocations (s : OrchestratorState) (order : List InvocationId)
    (now : Timestamp) (maxPendingSeconds : Nat) : List InvocationId :=
  s.recordsWhere order (isStalePending now maxPendingSeconds)

def getStaleRunningInvocations (s : OrchestratorState) (order : List InvocationId)
    (now : Timestamp) (runnerDeadAfterSeconds : Nat) : List InvocationId :=
  s.recordsWhere order (s.isStaleRunning now runnerDeadAfterSeconds)

def getInvocationsByStatus (s : OrchestratorState) (order : List InvocationId)
    (status : InvocationStatus) : List InvocationId :=
  s.recordsWhere order fun record => decide (record.status = status)

/-- The invocations of a task, or of one of its keys, that have one of the statuses; no
status stands for any. -/
def getExistingInvocations (s : OrchestratorState) (order : List InvocationId) (taskId : TaskId)
    (ccArgs : Option SerializedArguments) (statuses : List InvocationStatus) : List InvocationId :=
  let candidates := match ccArgs with
    | some args => (s.slotMembers taskId args.ccArgPairs).getD ∅
    | none => (s.taskInvocations.lookup taskId).getD ∅
  (s.recordsWhere order fun record => statuses.isEmpty || statuses.contains record.status).filter
    fun id => decide (id ∈ candidates)

theorem mem_recordsWhere {s : OrchestratorState} {order : List InvocationId}
    {selects : InvocationStatusRecord → Bool} {id : InvocationId} :
    id ∈ s.recordsWhere order selects ↔
      ∃ record, s.statusRecords.lookup id = some record ∧ selects record = true := by
  rw [recordsWhere, List.mem_filter, mem_arrange, Option.any_eq_true]
  constructor
  · intro h
    exact h.2
  · rintro ⟨record, hrecord, hsel⟩
    have hkey : id ∈ s.statusRecords.keys :=
      AList.mem_keys.mpr (AList.lookup_isSome.mp (by rw [hrecord]; rfl))
    exact ⟨hkey, record, hrecord, hsel⟩

end OrchestratorState

/-! ## Refusals -/

/-- The status machine, and middleware, may refuse. -/
def mayRefuse : PortCall → Bool
  | .setInvocationStatus _ _ _ | .middlewareBefore _ _ => true
  | _ => false

theorem validateRouting_unrefused {queue : String} {priority : F64} {e : RustvelloError}
    (h : validateRouting queue priority = .error e) : isRefusal e = false := by
  obtain ⟨message, rfl⟩ := validateRouting_error h
  rfl

theorem exec_unrefused (env : Env) (s : MemRuntime) {c : PortCall} (hc : mayRefuse c = false)
    {e : RustvelloError} (h : (MemRuntime.exec env c s).1 = .error e) : isRefusal e = false := by
  cases c <;> first
    | (cases hc; done)
    | (cases h; done)
    | (cases h; rfl)
    | skip
  case getInvocationStatus id =>
      simp only [MemRuntime.exec, OrchestratorState.getInvocationStatus] at h
      split at h <;> cases h
      rfl
  case getInvocation id =>
      simp only [MemRuntime.exec, BackendState.getInvocation] at h
      split at h <;> cases h
      rfl
  case getCall callId =>
      simp only [MemRuntime.exec, BackendState.getCall] at h
      split at h <;> cases h
      rfl
  case routeInvocationWithOptions id taskId queue priority =>
      simp only [MemRuntime.exec, MemBroker.routeInvocationWithOptions] at h
      split at h
      · rename_i hvalid
        cases h
        exact validateRouting_unrefused hvalid
      · cases h
  case routeInvocationAfter id taskId queue priority delayMs =>
      simp only [MemRuntime.exec, MemBroker.routeInvocationAfter] at h
      split at h
      · rename_i hvalid
        cases h
        exact validateRouting_unrefused hvalid
      · cases h
  case retrieveInvocationForLanguageFromQueue language queue =>
      simp only [MemRuntime.exec, MemBroker.retrieveInvocationForLanguageFromQueue] at h
      split at h
      · rename_i hvalid
        cases h
        exact validateRouting_unrefused hvalid
      · split at h <;> cases h

namespace MemRuntime

/-- Carry out one call of a runner. -/
def execRunner (env : Env) : (c : runnerPorts.Op) → MemRuntime → runnerPorts.Ret c × MemRuntime
  | .inl c, s => exec env c s
  | .inr (.checkRunningConcurrency taskId config ccArgs), s =>
      (.ok (s.orchestrator.checkRunningConcurrency taskId config ccArgs), s)
  | .inr (.indexForConcurrencyControl id taskId ccArgs), s =>
      (.ok (), { s with
        orchestrator := s.orchestrator.indexForConcurrencyControl id taskId ccArgs })
  | .inr (.getExistingInvocations taskId ccArgs statuses), s =>
      (.ok (s.orchestrator.getExistingInvocations env.order taskId ccArgs statuses), s)
  | .inr (.getInvocationsByStatus status), s =>
      (.ok (s.orchestrator.getInvocationsByStatus env.order status), s)
  | .inr (.registerHeartbeat runnerId), s =>
      (.ok (), { s with orchestrator := s.orchestrator.registerHeartbeat env.clock runnerId })
  | .inr (.getStalePendingInvocations seconds), s =>
      (.ok (s.orchestrator.getStalePendingInvocations env.order env.clock seconds), s)
  | .inr (.getStaleRunningInvocations seconds), s =>
      (.ok (s.orchestrator.getStaleRunningInvocations env.order env.clock seconds), s)
  | .inr (.retrieveInvocationFromQueue queue), s =>
      let answer := s.broker.retrieveInvocationFromQueue env.clock queue none
      (answer.1, { s with broker := answer.2 })

theorem execRunner_truthful (env : Env) (c : runnerPorts.Op) (s : MemRuntime) :
    RunnerTruthful c (execRunner env c s).1 := by
  cases c with
  | inl c => exact exec_truthful env c s
  | inr c => trivial

/-- **What a call can do to the status records**: nothing, register an invocation, or carry
out a status write that the status machine accepts. -/
theorem execRunner_statusRecords (env : Env) (c : runnerPorts.Op) (s : MemRuntime) :
    (execRunner env c s).2.orchestrator.statusRecords = s.orchestrator.statusRecords ∨
    (∃ id call runnerId, c = .inl (.registerInvocationWithId id call runnerId) ∧
      (execRunner env c s).2.orchestrator.statusRecords =
        s.orchestrator.statusRecords.insert id ⟨.registered, runnerId, env.clock⟩) ∨
    (∃ id status runnerId current record, c = .inl (.setInvocationStatus id status runnerId) ∧
      s.orchestrator.statusRecords.lookup id = some current ∧
      statusRecordTransition env.clock (some current) status runnerId = .ok record ∧
      (execRunner env c s).2.orchestrator.statusRecords =
        s.orchestrator.statusRecords.insert id record) := by
  rcases c with c | c
  · cases c
    case registerInvocationWithId id call runnerId =>
        exact .inr (.inl ⟨id, call, runnerId, rfl, rfl⟩)
    case setInvocationStatus id status runnerId =>
        obtain ⟨current, record, ccIndex, ccReverse, hcurrent, htrans, heq⟩ | ⟨_, _, -, -, heq⟩ |
          ⟨-, heq⟩ := s.orchestrator.setInvocationStatus_cases env.clock id status runnerId
        · refine .inr (.inr ⟨id, status, runnerId, current, record, rfl, hcurrent, htrans, ?_⟩)
          simp only [execRunner, exec, heq]
        · left
          simp only [execRunner, exec, heq]
        · left
          simp only [execRunner, exec, heq]
    case tryAcquireConcurrencySlot id taskId config ccArgs =>
        exact .inl (OrchestratorState.tryAcquireConcurrencySlot_statusRecords _ id taskId config
          ccArgs)
    case removeFromConcurrencyIndex id =>
        exact .inl (OrchestratorState.removeFromConcurrencyIndex_statusRecords _ id)
    all_goals exact .inl rfl
  · cases c
    case indexForConcurrencyControl id taskId ccArgs =>
        obtain ⟨ccIndex, ccReverse, h⟩ :=
          s.orchestrator.indexForConcurrencyControl_eq id taskId ccArgs
        left
        simp only [execRunner, h]
    all_goals exact .inl rfl

/-- Only a heartbeat is a sign of life. -/
theorem execRunner_heartbeats (env : Env) (c : runnerPorts.Op) (s : MemRuntime) :
    (execRunner env c s).2.orchestrator.heartbeats = s.orchestrator.heartbeats ∨
    ∃ runnerId, c = .inr (.registerHeartbeat runnerId) ∧
      (execRunner env c s).2.orchestrator.heartbeats =
        s.orchestrator.heartbeats.insert runnerId env.clock := by
  rcases c with c | c
  · left
    cases c
    case setInvocationStatus id status runnerId =>
        obtain ⟨_, _, _, _, -, -, heq⟩ | ⟨_, _, -, -, heq⟩ | ⟨-, heq⟩ :=
          s.orchestrator.setInvocationStatus_cases env.clock id status runnerId
        all_goals simp only [execRunner, exec, heq]
    case tryAcquireConcurrencySlot id taskId config ccArgs =>
        obtain ⟨ccIndex, ccReverse, h⟩ :=
          s.orchestrator.tryAcquireConcurrencySlot_eq id taskId config ccArgs
        simp only [execRunner, exec, h]
    case removeFromConcurrencyIndex id =>
        obtain ⟨ccIndex, ccReverse, h⟩ := s.orchestrator.removeFromConcurrencyIndex_eq id
        simp only [execRunner, exec, h]
    all_goals rfl
  · cases c
    case registerHeartbeat runnerId => exact .inr ⟨runnerId, rfl, rfl⟩
    case indexForConcurrencyControl id taskId ccArgs =>
        obtain ⟨ccIndex, ccReverse, h⟩ :=
          s.orchestrator.indexForConcurrencyControl_eq id taskId ccArgs
        left
        simp only [execRunner, h]
    all_goals exact .inl rfl

end MemRuntime

/-! ## What calls read and store -/

/-- What a call reads of an invocation. -/
def reads? : runnerPorts.Op → Option (InvocationId ⊕ CallId)
  | .inl (.getInvocation id) => some (.inl id)
  | .inl (.getCall callId) => some (.inr callId)
  | _ => none

/-- What a call stores. -/
def stores? : runnerPorts.Op → Option (InvocationDTO × CallDTO)
  | .inl (.upsertInvocation invocation call) => some (invocation, call)
  | _ => none

/-- The tables have it. -/
def BackendState.has (b : BackendState) : InvocationId ⊕ CallId → Bool
  | .inl id => (b.invocations.lookup id).isSome
  | .inr callId => (b.calls.lookup callId).isSome

/-! ## The machine -/

/-- An operation as a runner, a client or the maintenance starts it. -/
inductive RunnerTask where
  | operation (op : Operation)
  /-- `get_invocations_to_run`. -/
  | retrieve (maxNum : Nat) (runnerId : RunnerId)
  /-- Run an invocation that was retrieved, to its end. -/
  | complete (id : InvocationId) (worker : RunnerId)
  | routeCall (call : RoutedCall)
  | registerInvocations (invocations : List (InvocationDTO × CallDTO)) (runnerId : RunnerId)
      (routes : List (String × F64))
  | recoverStale (runnerId : RunnerId)
  | heartbeat (runnerId : RunnerId)
deriving DecidableEq

/-- `recover_one` by itself; in the code only a pass calls it. -/
def RunnerTask.isBareRecovery : RunnerTask → Bool
  | .operation (.recover _ _ _) => true
  | _ => false

/-- `App::get_invocations_to_run`: the queues are chosen first. -/
def retrieveToRun (d : Deployment) (maxNum : Nat) (runnerId : RunnerId) :
    Runner (List InvocationId) := do
  let queues ← lift (port (.queueNamesForRetrieval d.appConfig))
  getInvocationsToRun d maxNum runnerId queues

def RunnerTask.program (d : Deployment) : RunnerTask → Prog runnerPorts Unit
  | operation op => (op.program d).inl
  | retrieve maxNum runnerId => (retrieveToRun d maxNum runnerId).run.toUnit
  | complete id worker => (lift (executeClaimed d id worker)).run.toUnit
  | routeCall call => (Orchestration.routeCall d call).run.toUnit
  | registerInvocations invocations runnerId routes =>
      (lift (Orchestration.registerInvocations d invocations runnerId routes)).run.toUnit
  | recoverStale runnerId => (recoverStaleInvocations d runnerId).run.toUnit
  | heartbeat runnerId => (runnerPort (.registerHeartbeat runnerId)).run.toUnit

/-- The statuses that an operation may ask for. -/
def RunnerTask.writtenStatuses : RunnerTask → List InvocationStatus
  | operation (.work _ _) =>
      [.concurrencyControlled, .concurrencyControlledFinal, .rerouted, .pending, .running,
        .success, .failed, .retry]
  | operation (.recover _ _ recoveryStatus) => [recoveryStatus, .failed, .rerouted]
  | operation (.cancel _ _) => [.cancelled]
  | retrieve _ _ => [.pending, .concurrencyControlled, .concurrencyControlledFinal, .rerouted]
  | complete _ _ => [.running, .success, .failed, .retry]
  | recoverStale _ => [.pendingRecovery, .runningRecovery, .failed, .rerouted]
  | _ => []

/-- It asks for no other; what a recovery pass asks for depends on what it listed. -/
theorem RunnerTask.program_writes {d : Deployment} (hd : d.publication = false) {task : RunnerTask}
    (htask : ∀ runnerId, task ≠ .recoverStale runnerId) :
    (task.program d).Uses RunnerTruthful (Writes (· ∈ task.writtenStatuses)) := by
  have hunit : ∀ {α : Type} {targets : InvocationStatus → Prop} {p : Runner α},
      RunnerWritesOnly targets p → p.run.toUnit.Uses RunnerTruthful (Writes targets) :=
    fun h => Prog.uses_bind h fun _ => trivial
  have hinl : ∀ {α : Type} {targets : InvocationStatus → Prop} {p : Orch α},
      WritesOnly targets p → p.run.toUnit.inl.Uses RunnerTruthful (Writes targets) :=
    fun h => Prog.uses_inl (Prog.uses_bind h fun _ => trivial)
  cases task with
  | operation op =>
      cases op with
      | submit submission => exact hinl (submitWithId_writesOnly hd submission)
      | work language worker =>
          refine hinl (workerRound_writesOnly hd ⟨?_, ?_, ?_⟩ ⟨?_, ?_, ?_, ?_⟩ ?_ language worker)
          all_goals simp [writtenStatuses]
      | recover runnerId id recoveryStatus =>
          refine hinl (writesOnly_of_actsOn (recoverOne_actsOn hd id runnerId ?_ ?_ ?_))
          all_goals simp [writtenStatuses]
      | cancel id runnerId =>
          refine hinl (writesOnly_of_updates (cancelInvocation_updates hd id runnerId ?_))
          simp [writtenStatuses]
      | waitFor waiter waitedOn => exact hinl (usesE_port trivial)
      | evaluateTriggers runnerId => exact hinl (triggerLoopIteration_writesOnly hd runnerId)
  | retrieve maxNum runnerId =>
      refine hunit (RunnerWritesOnly.lift_bind (usesE_port trivial) fun queues => ?_)
      refine getInvocationsToRun_writesOnly hd ⟨?_, ?_, ?_⟩ ?_ maxNum runnerId queues
      all_goals simp [writtenStatuses]
  | complete id worker =>
      refine hunit (RunnerWritesOnly.lift (writesOnly_of_actsOn
        (executeClaimed_actsOn hd id worker ⟨?_, ?_, ?_, ?_⟩)))
      all_goals simp [writtenStatuses]
  | routeCall call => exact hunit (routeCall_writesOnly hd call)
  | registerInvocations invocations runnerId routes =>
      exact hunit (RunnerWritesOnly.lift
        (registerInvocations_writesOnly hd invocations runnerId routes))
  | recoverStale runnerId => exact absurd rfl (htask runnerId)
  | heartbeat runnerId => exact ⟨trivial, fun r _ => by cases r <;> trivial⟩

/-- The same for every operation, whatever it lists. -/
theorem RunnerTask.program_asks {d : Deployment} (hd : d.publication = false) (task : RunnerTask) :
    (task.program d).Uses RunnerTruthful (WritesStatus (· ∈ task.writtenStatuses)) := by
  by_cases hpass : ∃ runnerId, task = .recoverStale runnerId
  · obtain ⟨runnerId, rfl⟩ := hpass
    refine Prog.uses_bind (recoverStaleInvocations_writes hd ?_ ?_ ?_ runnerId) fun _ => trivial
    · intro status hstatus
      have hrecovery : status = .pendingRecovery ∨ status = .runningRecovery :=
        of_decide_eq_true hstatus
      rcases hrecovery with rfl | rfl <;> simp [writtenStatuses]
    · simp [writtenStatuses]
    · simp [writtenStatuses]
  · exact Prog.Uses.mono (program_writes hd fun runnerId heq => hpass ⟨runnerId, heq⟩)
      (fun _ _ h => h) fun _ => Writes.status

def runnerMachine (d : Deployment) : Machine runnerPorts MemRuntime Env RunnerTask where
  exec := MemRuntime.execRunner
  program := RunnerTask.program d

/-- A call sees a clock that is not behind the one of any earlier call. -/
def forwardClock : Observer runnerPorts Env Timestamp where
  look last env := { env with clock := max last env.clock }
  note _ env _ _ := env.clock

/-- The runners under such a clock. -/
abbrev timedRunners (d : Deployment) :
    Machine runnerPorts (MemRuntime × Timestamp) Env RunnerTask :=
  (runnerMachine d).observed forwardClock

end Rustvello.Mem
