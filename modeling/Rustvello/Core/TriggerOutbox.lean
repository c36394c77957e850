import Rustvello.Concurrency.Sum
import Rustvello.Core.TriggerManager

/-!
# The trigger outbox

The rest of `TriggerManager` and the provided methods of `TriggerStore`
(`rustvello-core/src/trigger.rs`): `complete_trigger_run` attaches an invocation to its run
and to the events behind it, and `claim_trigger_runs_with_records` is, unless a store
overrides it, a sequence of calls per run.

* `OutboxCall`, `outboxStore` — the calls on single runs and events, beside those of the
  manager;
* `completeTriggerRun` — the run record first, then one event after the other, each read
  and written back as a whole;
* `claimTriggerRunsWithRecords`, `evaluateTriggerRunsOneByOne` — the default claim
  protocol, and an evaluation that uses it.

A failpoint (`failpoints::boundary`) only ends an operation, as any call may.
-/

namespace Rustvello.Core

open Concurrency Proto

/-- Calls on single runs and events. -/
inductive OutboxCall where
  | claimTriggerRun (runId : TriggerRunId)
  | clearValidConditions (ids : List (List Char))
  | getTriggerRun (runId : TriggerRunId)
  | storeTriggerRun (run : TriggerRun)
  | getEvent (eventId : String)
deriving DecidableEq

abbrev OutboxCall.Ans : OutboxCall → Type
  | claimTriggerRun _ => Bool
  | clearValidConditions _ => Unit
  | getTriggerRun _ => Option TriggerRun
  | storeTriggerRun _ => Unit
  | getEvent _ => Option EventRecord

abbrev outboxCalls : Interface := ⟨OutboxCall, OutboxCall.Ans⟩

/-- All calls on a trigger store. -/
abbrev outboxStore : Interface := triggerStore.sum outboxCalls

abbrev Outbox (α : Type) := Prog outboxStore α

/-- A call that the manager makes too. -/
def manage (c : TriggerCall) : Outbox c.Ans :=
  Prog.request (I := outboxStore) (.inl c)

def outbox (c : OutboxCall) : Outbox c.Ans :=
  Prog.request (I := outboxStore) (.inr c)

/-! ## Completion -/

/-- The events among the participants of a run. -/
def TriggerRun.eventIds (run : TriggerRun) : List String :=
  run.participants.filterMap TriggerRunParticipant.eventId

/-- Attach the invocation to one event, if it is stored and has no such link. -/
def linkEvent (id : InvocationId) (eventId : String) : Outbox Unit := do
  match ← outbox (.getEvent eventId) with
  | none => pure ()
  | some event =>
      if id ∈ event.triggeredInvocationIds then pure ()
      else manage (.storeEvent
        { event with triggeredInvocationIds := event.triggeredInvocationIds ++ [id] })

def linkEvents (id : InvocationId) : List String → Outbox Unit
  | [] => pure ()
  | eventId :: rest => do
      linkEvent id eventId
      linkEvents id rest

/-- Attach the invocation created for a claimed run. -/
def completeTriggerRun (runId : TriggerRunId) (id : InvocationId) : Outbox Unit := do
  match ← outbox (.getTriggerRun runId) with
  | none => pure ()
  | some run =>
      let now ← manage .utcNow
      outbox (.storeTriggerRun
        { run with triggeredInvocationId := some id, executedAt := some now.instant })
      linkEvents id (TriggerRun.eventIds run)

def TriggerRun.isPending (run : TriggerRun) : Bool :=
  run.plannedInvocationId.isSome && run.triggeredInvocationId.isNone

/-! ## The default claim protocol -/

/-- Claim one run; the record is stored by the first claim, and by any later one that finds
none. -/
def claimWithRecord (record : TriggerRun) : Outbox Bool := do
  let first ← outbox (.claimTriggerRun record.triggerRunId)
  if first then
    outbox (.storeTriggerRun record)
    pure first
  else
    match ← outbox (.getTriggerRun record.triggerRunId) with
    | some _ => pure first
    | none =>
        outbox (.storeTriggerRun record)
        pure first

def claimEach : List TriggerRun → Outbox (List Bool)
  | [] => pure []
  | record :: rest => do
      let first ← claimWithRecord record
      let others ← claimEach rest
      pure (first :: others)

/-- Claim runs, store their records, then consume valid conditions. -/
def claimTriggerRunsWithRecords (records : List TriggerRun) (consumed : List (List Char)) :
    Outbox (List Bool) := do
  let claimed ← claimEach records
  outbox (.clearValidConditions consumed)
  pure claimed

/-- The runs that an evaluation is going to claim, and what it is going to consume. -/
def planRuns (codec : Codec) :
    Manager (List (TriggerRun × TriggerExecution) × List (List Char)) := do
  let valid ← store .getValidConditions
  if valid.isEmpty then pure ([], [])
  else
    let keys ← store (.keyOrder (valid.map fun vc => vc.conditionId.raw).dedup)
    let triggers ← affectedTriggers [] keys
    let order ← store (.keyOrder (triggers.map fun trigger => trigger.triggerId.raw))
    let now ← store .utcNow
    let ordered := triggersInOrder triggers order
    pure (ordered.flatMap (candidatesOf codec now.instant valid),
      sortTexts (ordered.flatMap (consumedBy valid)).dedup)

/-- `evaluate_trigger_runs` on a store with the default claim protocol. -/
def evaluateTriggerRunsOneByOne (codec : Codec) : Outbox (List TriggerExecution) := do
  let (candidates, consumed) ← (planRuns codec).inl
  if candidates.isEmpty then pure []
  else
    let claimed ← claimTriggerRunsWithRecords (candidates.map Prod.fst) consumed
    pure (claimedExecutions candidates claimed)

/-- An evaluation plans and then claims in one call, where the store does that. -/
theorem evaluateTriggerRuns_eq (codec : Codec) :
    evaluateTriggerRuns codec = planRuns codec >>= fun plan =>
      if plan.1.isEmpty then pure []
      else store (.claimTriggerRunsWithRecords (plan.1.map Prod.fst) plan.2) >>= fun claimed =>
        pure (claimedExecutions plan.1 claimed) := by
  unfold evaluateTriggerRuns planRuns
  rw [Prog.bind_assoc]
  congr 1
  funext valid
  split
  · rfl
  · simp only [Prog.bind_assoc]
    rfl

end Rustvello.Core
