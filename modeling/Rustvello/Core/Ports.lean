import Rustvello.Concurrency.Discipline
import Rustvello.Core.Error

/-!
# The ports of the runtime

The orchestration code of `rustvello` never touches a store directly: it calls
the invocation-control, state, broker, publication and trigger ports of
`rustvello-core`.  This module is that boundary as one `Interface`: every port
method is one atomic call with a fallible answer, and so is what the code asks its
surroundings for (the clock, a random number, the attempt of user code).

* `PortCall`, `ports` — the calls and their answers;
* `Orch` — an operation of the orchestrator: a program over `ports` that can fail;
* `port`, `attempt` — one call (an error ends the operation, as `?` does) and an
  inspected outcome (as `match` on a result does);
* the rules by which `Discipline.ObeysE` takes such operations apart.
-/

namespace Rustvello.Core

open Concurrency Proto

/-- Queue and priority under which an invocation is published. -/
structure PublicationRoute where
  queue : String
  priority : F64
deriving DecidableEq

/-- A submission, complete. -/
structure SubmissionPublication where
  invocation : InvocationDTO
  call : CallDTO
  runnerId : RunnerId
  workflowRoot : Bool
  ccArguments : Option SerializedArguments
  route : PublicationRoute
deriving DecidableEq

/-- The status changes a transactional backend commits with all their effects. -/
inductive PublicationChange where
  | status (status : InvocationStatus)
  | retry (route : PublicationRoute)
  | delayedRetry (route : PublicationRoute) (delayMs : Nat)
  | reroute (route : PublicationRoute)
  | concurrencyReroute (route : PublicationRoute)
  | recover (status : InvocationStatus) (staleAfterSeconds : Nat) (route : PublicationRoute)
  | success (result : String)
  | failure (error : TaskError)
deriving DecidableEq

/-- What the code of an attempt can learn about its invocation. -/
structure InvocationContext where
  invocationId : InvocationId
  taskId : TaskId
  workflow : Option WorkflowIdentity
  /-- The attempt may act as the root of its workflow. -/
  isWorkflowDefining : Bool
  parentInvocationId : Option InvocationId
  numRetries : Nat
  traceContext : TraceContextCarrier
deriving DecidableEq

/-- Why an attempt stopped before producing its own result. -/
inductive Interruption where
  | timedOut (timeoutMs : Nat)
  | cancelled
deriving DecidableEq, Repr

/-- The result of a supervised attempt. -/
structure AttemptOutcome where
  result : RustvelloResult String
  interruption : Option Interruption

/-- A firing claimed into the trigger outbox; `arguments` are the entries of its
JSON object. -/
structure TriggerRunRecord where
  triggerRunId : String
  taskId : TaskId
  arguments : SerializedArguments
  claimedAt : Timestamp
  executedAt : Option Timestamp
  plannedInvocationId : Option InvocationId
  triggeredInvocationId : Option InvocationId
deriving DecidableEq

/-- A claimed run whose planned invocation has not been attached yet. -/
def TriggerRunRecord.isPending (run : TriggerRunRecord) : Bool :=
  run.plannedInvocationId.isSome && run.triggeredInvocationId.isNone

/-- A firing: the run id, the task and the arguments of a satisfied trigger. -/
structure TriggerFiring where
  triggerRunId : String
  taskId : TaskId
  arguments : SerializedArguments
deriving DecidableEq

inductive PortCall where
  -- invocation control
  | registerInvocationWithId (id : InvocationId) (call : CallDTO) (runnerId : Option RunnerId)
  | getInvocationStatus (id : InvocationId)
  | setInvocationStatus (id : InvocationId) (status : InvocationStatus)
      (runnerId : Option RunnerId)
  | incrementInvocationRetries (id : InvocationId)
  | scheduleAutoPurge (id : InvocationId)
  | setWaitingFor (waiter waitedOn : InvocationId)
  | releaseWaiters (completed : InvocationId)
  | getBlockingInvocations (maxNum : Nat)
  | tryAcquireConcurrencySlot (id : InvocationId) (taskId : TaskId) (config : TaskConfig)
      (ccArgs : Option SerializedArguments)
  | removeFromConcurrencyIndex (id : InvocationId)
  -- state
  | upsertInvocation (invocation : InvocationDTO) (call : CallDTO)
  | getInvocation (id : InvocationId)
  | getCall (callId : CallId)
  | storeResult (id : InvocationId) (result : String)
  | storeError (id : InvocationId) (error : TaskError)
  | addHistory (history : InvocationHistory)
  | getHistory (id : InvocationId)
  | getExecutionIdentity (id : InvocationId)
  | setExecutionIdentity (id : InvocationId) (identity : ExecutionAttemptIdentity)
  -- broker
  | routeInvocationWithOptions (id : InvocationId) (taskId : Option TaskId) (queue : String)
      (priority : F64)
  | routeInvocationAfter (id : InvocationId) (taskId : Option TaskId) (queue : String)
      (priority : F64) (delayMs : Nat)
  | retrieveInvocationForLanguageFromQueue (language : TaskLanguage) (queue : String)
  -- publication
  | publicationSubmit (submission : SubmissionPublication)
  | publicationChange (id : InvocationId) (runnerId : RunnerId) (change : PublicationChange)
      (autoPurge : Bool)
  | publicationBeginExecution (id : InvocationId) (runnerId : RunnerId) (retries : Nat)
      (incoming : TraceContextCarrier)
  -- trigger manager
  | reportStatusChange (id : InvocationId) (taskId : TaskId) (status : InvocationStatus)
      (arguments : SerializedArguments)
  | reportResult (id : InvocationId) (taskId : TaskId) (result : String)
      (arguments : SerializedArguments)
  | reportFailure (id : InvocationId) (taskId : TaskId) (errorType errorMessage : String)
      (arguments : SerializedArguments)
  | satisfiedTriggers
  | claimTriggerRunsWithRecords (records : List TriggerRunRecord)
  | getPendingTriggerRuns (limit : Nat)
  | getTriggerRun (triggerRunId : String)
  | storeTriggerRun (run : TriggerRunRecord)
  -- surroundings
  | utcNow
  | randomUnit
  | queueNamesForRetrieval (config : AppConfig)
  | allocateTraceContext (parent : TraceContextCarrier)
  | middlewareBefore (id : InvocationId) (taskId : TaskId)
  | superviseAttempt (context : InvocationContext) (timeoutMs : Option Nat) (cancelCheck : Bool)
deriving DecidableEq

namespace PortCall

/-- What a call answers when it succeeds. -/
abbrev Ans : PortCall → Type
  | registerInvocationWithId _ _ _ => InvocationStatusRecord
  | getInvocationStatus _ => InvocationStatusRecord
  | setInvocationStatus _ _ _ => InvocationStatusRecord
  | incrementInvocationRetries _ => Nat
  | releaseWaiters _ => List InvocationId
  | getBlockingInvocations _ => List InvocationId
  | tryAcquireConcurrencySlot _ _ _ _ => Bool
  | getInvocation _ => InvocationDTO
  | getCall _ => CallDTO
  | getHistory _ => List InvocationHistory
  | getExecutionIdentity _ => Option ExecutionAttemptIdentity
  | retrieveInvocationForLanguageFromQueue _ _ => Option InvocationId
  | publicationSubmit _ => Bool
  | publicationChange _ _ _ _ => Option InvocationStatusRecord
  | publicationBeginExecution _ _ _ _ => ExecutionAttemptIdentity
  | satisfiedTriggers => List TriggerFiring
  | claimTriggerRunsWithRecords _ => List Bool
  | getPendingTriggerRuns _ => List TriggerRunRecord
  | getTriggerRun _ => Option TriggerRunRecord
  | utcNow => Timestamp
  | randomUnit => F64
  | queueNamesForRetrieval _ => List String
  | allocateTraceContext _ => TraceContextCarrier
  | superviseAttempt _ _ _ => AttemptOutcome
  | _ => Unit

/-- Queue and priority of a call that routes an invocation. -/
def route? : PortCall → Option (String × F64)
  | routeInvocationWithOptions _ _ queue priority => some (queue, priority)
  | routeInvocationAfter _ _ queue priority _ => some (queue, priority)
  | _ => none

/-- The invocation that a call routes. -/
def routed? : PortCall → Option InvocationId
  | routeInvocationWithOptions id _ _ _ => some id
  | routeInvocationAfter id _ _ _ _ => some id
  | _ => none

/-- Invocation and key of a call that asks for a slot. -/
def slotRequest? : PortCall → Option (InvocationId × TaskId × Option SerializedArguments)
  | tryAcquireConcurrencySlot id taskId _ ccArgs => some (id, taskId, ccArgs)
  | _ => none

/-- The invocation whose slot a call gives back. -/
def slotRelease? : PortCall → Option InvocationId
  | removeFromConcurrencyIndex id => some id
  | _ => none

/-- Invocation and value of a call that stores a result. -/
def resultWrite? : PortCall → Option (InvocationId × String)
  | storeResult id result => some (id, result)
  | _ => none

/-- The invocation that a call registers. -/
def registered? : PortCall → Option InvocationId
  | registerInvocationWithId id _ _ => some id
  | _ => none

/-- Invocation and target of a call that writes a status. -/
def statusWrite? : PortCall → Option (InvocationId × InvocationStatus)
  | setInvocationStatus id status _ => some (id, status)
  | _ => none

/-- The entry that a call appends to a history. -/
def historyWrite? : PortCall → Option InvocationHistory
  | addHistory history => some history
  | _ => none

end PortCall

abbrev ports : Interface := ⟨PortCall, fun c => RustvelloResult c.Ans⟩

/-- An operation of the orchestrator. -/
abbrev Orch (α : Type) := ExceptT RustvelloError (Prog ports) α

/-- One port call; its error is the operation's error. -/
def port (c : PortCall) : Orch c.Ans :=
  ExceptT.mk (Prog.request (I := ports) c)

/-- Run `p` and hand its outcome, error or not, to what follows. -/
def attempt {α : Type} (p : Orch α) : Orch (RustvelloResult α) :=
  ExceptT.lift p.run

/-! ## Rules -/

section Rules

variable {Ω γ α β : Type} {D : Discipline ports Ω γ} {c : PortCall} {E : RustvelloError → γ → Prop}
  {f : RustvelloResult α → Orch β} {σ ε : Type}

/-- One port call. -/
theorem obeysE_port {Q : c.Ans → γ → Prop} {g : γ} :
    D.ObeysE (port c) Q E g ↔
      D.pre c g ∧ ∀ r, D.resp c g r → Discipline.Outcome Q E r (D.next c r g) :=
  Iff.rfl

/-- One port call, then the rest: an error ends the operation at once. -/
theorem obeysE_port_bind {f : c.Ans → Orch β} {Q : β → γ → Prop} {g : γ} :
    D.ObeysE (port c >>= f) Q E g ↔
      D.pre c g ∧
        (∀ a, D.resp c g (.ok a) → D.ObeysE (f a) Q E (D.next c (.ok a) g)) ∧
        (∀ e, D.resp c g (.error e) → E e (D.next c (.error e) g)) := by
  rw [Discipline.obeysE_bind, obeysE_port]
  refine and_congr_right fun _ => ⟨fun h => ⟨fun a => h (.ok a), fun e => h (.error e)⟩, ?_⟩
  rintro ⟨hok, herror⟩ (e | a) hr
  · exact herror e hr
  · exact hok a hr

/-- An inspected outcome: nothing ends the operation here. -/
theorem obeysE_attempt_bind {p : Orch α} {Q : β → γ → Prop} {g : γ} :
    D.ObeysE (attempt p >>= f) Q E g ↔
      D.ObeysE p (fun a g' => D.ObeysE (f (.ok a)) Q E g')
        (fun e g' => D.ObeysE (f (.error e)) Q E g') g := by
  rw [Discipline.obeysE_bind, attempt, Discipline.obeysE_lift]
  have hcond : (fun (r : RustvelloResult α) (g' : γ) => D.ObeysE (f r) Q E g') =
      Discipline.Outcome (fun a g' => D.ObeysE (f (.ok a)) Q E g')
        (fun e g' => D.ObeysE (f (.error e)) Q E g') := by
    funext r g'
    cases r <;> rfl
  rw [hcond]
  rfl

/-- Inspecting an outcome leaves the book where the program left it. -/
theorem returns_attempt {g : γ} {p : Orch α} (h : D.Returns g p) : D.Returns g (attempt p) := by
  unfold attempt
  refine Discipline.obeysE_lift.mpr (Discipline.Obeys.mono h ?_)
  intro r g' hr
  cases r with
  | ok a => exact hr
  | error e => exact hr

theorem endsE_port {exec : ε → (c : PortCall) → σ → RustvelloResult c.Ans × σ} {s s' : σ}
    {r : RustvelloResult c.Ans} :
    Prog.EndsE exec (port c) s r s' ↔ ∃ env, exec env c s = (r, s') := by
  constructor
  · rintro ⟨env, hr, hs⟩
    exact ⟨env, Prod.ext hr.symm hs.symm⟩
  · rintro ⟨env, h⟩
    refine ⟨env, ?_⟩
    rw [h]
    exact ⟨rfl, rfl⟩

/-- One port call, then the rest: an error ends the operation where the call left it. -/
theorem endsE_port_bind {exec : ε → (c : PortCall) → σ → RustvelloResult c.Ans × σ}
    {f : c.Ans → Orch β} {s s' : σ} {r : RustvelloResult β} :
    Prog.EndsE exec (port c >>= f) s r s' ↔
      (∃ env a t, exec env c s = (.ok a, t) ∧ Prog.EndsE exec (f a) t r s') ∨
        ∃ env e, exec env c s = (.error e, s') ∧ r = .error e := by
  rw [Prog.endsE_bind]
  simp only [endsE_port]
  constructor
  · rintro (⟨a, t, ⟨env, hport⟩, hrest⟩ | ⟨e, ⟨env, hport⟩, hr⟩)
    · exact .inl ⟨env, a, t, hport, hrest⟩
    · exact .inr ⟨env, e, hport, hr⟩
  · rintro (⟨env, a, t, hport, hrest⟩ | ⟨env, e, hport, hr⟩)
    · exact .inl ⟨a, t, ⟨env, hport⟩, hrest⟩
    · exact .inr ⟨e, ⟨env, hport⟩, hr⟩

/-- An inspected outcome is handed on. -/
theorem endsE_attempt_bind {exec : ε → (c : PortCall) → σ → RustvelloResult c.Ans × σ} {p : Orch α}
    {s s' : σ} {r : RustvelloResult β} :
    Prog.EndsE exec (attempt p >>= f) s r s' ↔
      ∃ x t, Prog.EndsE exec p s x t ∧ Prog.EndsE exec (f x) t r s' := by
  have hlift : ∀ x t, Prog.EndsE exec (attempt p) s (.ok x) t ↔ Prog.EndsE exec p s x t := by
    intro x t
    refine Prog.ends_bind.trans ⟨?_, fun h => ⟨x, t, h, rfl, rfl⟩⟩
    rintro ⟨y, u, h, hx, rfl⟩
    cases hx
    exact h
  rw [Prog.endsE_bind]
  constructor
  · rintro (⟨x, t, hp, hrest⟩ | ⟨e, hp, -⟩)
    · exact ⟨x, t, (hlift x t).mp hp, hrest⟩
    · obtain ⟨_, _, -, he, -⟩ := Prog.ends_bind.mp hp
      cases he
  · rintro ⟨x, t, hp, hrest⟩
    exact .inl ⟨x, t, (hlift x t).mpr hp, hrest⟩

end Rules

end Rustvello.Core
