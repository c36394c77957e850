import Rustvello.Core.Environment
import Rustvello.Proto.Trigger

/-!
# The trigger manager

`TriggerManager` (`rustvello-core/src/trigger.rs`): contexts are matched against the
registered conditions and recorded (`evaluate_task_conditions`, `emit_event`,
`evaluate_cron_conditions`), and the recorded conditions are turned into claimed runs
(`evaluate_trigger_runs`).

* `TriggerCall`, `triggerStore` — the store calls the manager makes, and what it asks
  its surroundings for;
* `evaluateTaskConditions`, `emitEvent`, `evaluateCronConditions`, `evaluateTriggerRuns` —
  the operations, each a program over these calls;
* `candidatesOf`, `consumedBy` — what one trigger makes of a snapshot.

The in-memory store answers every call with `Ok`, so the error returns of the trait do
not appear.  The records of one evaluation carry one clock reading.
-/

namespace Rustvello.Core

open Concurrency Proto

/-! ## Time -/

/-- First and last instant of `DateTime<Utc>`, in nanoseconds since the epoch. -/
def minUtc : Timestamp := -8334601315200000000000

def maxUtc : Timestamp := 8210266876799999999999

theorem minUtc_nonpos : minUtc ≤ 0 := by decide

theorem maxUtc_nonneg : 0 ≤ maxUtc := by decide

/-- A clock reading: an instant that `DateTime<Utc>` can represent. -/
structure DateTime where
  instant : Timestamp
  lower : minUtc ≤ instant
  upper : instant ≤ maxUtc
deriving DecidableEq

/-- `TimeDelta::num_seconds`: whole seconds, rounded toward zero. -/
def numSeconds (delta : Timestamp) : Int :=
  delta.tdiv 1000000000

/-- `CRON_MISSED_SLOT_GRACE_SECONDS`. -/
def cronMissedSlotGraceSeconds : Int := 120

/-- `i64::MAX`. -/
def maxI64 : Int := 9223372036854775807

/-- The `croner` crate; its errors are only logged. -/
structure Croner where
  Schedule : Type
  fromStr : String → Option Schedule
  /-- The latest scheduled instant at or before the given one. -/
  findPreviousOccurrence : Schedule → Timestamp → Option Timestamp

/-- Whether a schedule has a slot due at `now`. -/
def cronSlotDue (croner : Croner) (schedule : croner.Schedule) (now : Timestamp)
    (lastExecution : Option Timestamp) : Option Bool :=
  (croner.findPreviousOccurrence schedule now).map fun slot =>
    if numSeconds (now - slot) > cronMissedSlotGraceSeconds then false
    else lastExecution.all fun last => decide (last < slot)

/-- Enough whole seconds have passed since the last firing. -/
def intervalOk (now : Timestamp) (lastExecution : Option Timestamp) (minIntervalSeconds : Nat) :
    Bool :=
  lastExecution.all fun last =>
    decide (min (minIntervalSeconds : Int) maxI64 ≤ numSeconds (now - last))

/-! ## The store -/

/-- One call of the manager. -/
inductive TriggerCall where
  | getConditionsForTask (taskId : TaskId)
  | getCronConditions
  | getEventConditions (eventCode : String)
  | getTriggersForCondition (conditionId : ConditionId)
  | recordValidCondition (vc : ValidCondition)
  | getValidConditions
  | getLastCronExecution (conditionId : ConditionId)
  | storeCronExecution (conditionId : ConditionId) (time : Timestamp)
      (expectedLast : Option Timestamp)
  | storeEvent (event : EventRecord)
  | claimTriggerRunsWithRecords (records : List TriggerRun) (consumed : List (List Char))
  -- surroundings
  | utcNow
  | newEventId
  /-- The iteration order of a hash map of the process. -/
  | keyOrder (keys : List (List Char))
deriving DecidableEq

/-- What a call answers. -/
abbrev TriggerCall.Ans : TriggerCall → Type
  | getConditionsForTask _ => List (ConditionId × TriggerCondition)
  | getCronConditions => List (ConditionId × TriggerCondition)
  | getEventConditions _ => List (ConditionId × TriggerCondition)
  | getTriggersForCondition _ => List TriggerDefinitionDTO
  | getValidConditions => List ValidCondition
  | getLastCronExecution _ => Option Timestamp
  | storeCronExecution _ _ _ => Bool
  | claimTriggerRunsWithRecords _ _ => List Bool
  | utcNow => DateTime
  | newEventId => String
  | keyOrder _ => List (List Char)
  | _ => Unit

abbrev triggerStore : Interface := ⟨TriggerCall, TriggerCall.Ans⟩

/-- An operation of the manager. -/
abbrev Manager (α : Type) := Prog triggerStore α

def store (c : TriggerCall) : Manager c.Ans :=
  Prog.request (I := triggerStore) c

theorem ends_store_bind {σ ε β : Type} {exec : ε → (c : TriggerCall) → σ → c.Ans × σ}
    {c : TriggerCall} {f : c.Ans → Manager β} {s s' : σ} {b : β} :
    (store c >>= f).Ends exec s b s' ↔
      ∃ env, (f (exec env c s).1).Ends exec (exec env c s).2 b s' :=
  Iff.rfl

/-- One store call, then the rest. -/
theorem obeys_store_bind {Ω γ β : Type} {D : Discipline triggerStore Ω γ} {c : TriggerCall}
    {f : c.Ans → Manager β} {Q : β → γ → Prop} {g : γ} :
    D.Obeys (store c >>= f) Q g ↔
      D.pre c g ∧ ∀ r, D.resp c g r → D.Obeys (f r) Q (D.next c r g) :=
  Iff.rfl

/-! ## Reports -/

/-- Record the conditions that a context satisfies, in the order they were found. -/
def recordSatisfied (codec : Codec) (ctx : ConditionContext) :
    List (ConditionId × TriggerCondition) → Manager (List ValidCondition)
  | [] => pure []
  | (condId, cond) :: rest =>
      if cond.isSatisfiedBy codec ctx then do
        let vc := ValidCondition.new codec condId ctx
        store (.recordValidCondition vc)
        let others ← recordSatisfied codec ctx rest
        pure (vc :: others)
      else recordSatisfied codec ctx rest

/-- Match the conditions that watch a task against a context. -/
def evaluateTaskConditions (codec : Codec) (taskId : TaskId) (ctx : ConditionContext) :
    Manager (List ValidCondition) := do
  let conditions ← store (.getConditionsForTask taskId)
  recordSatisfied codec ctx conditions

def reportStatusChange (codec : Codec) (ctx : StatusContext) : Manager (List ValidCondition) :=
  evaluateTaskConditions codec ctx.taskId (.status ctx)

def reportResult (codec : Codec) (ctx : ResultContext) : Manager (List ValidCondition) :=
  evaluateTaskConditions codec ctx.taskId (.result ctx)

def reportFailure (codec : Codec) (ctx : ExceptionContext) : Manager (List ValidCondition) :=
  evaluateTaskConditions codec ctx.taskId (.exception ctx)

/-- Record the conditions an event satisfies, and store the event again if there are any. -/
def matchEvent (codec : Codec) (event : EventRecord)
    (conditions : List (ConditionId × TriggerCondition)) : Manager String := do
  let valid ← recordSatisfied codec (.event ⟨event.eventId, event.eventCode, event.payload⟩)
    conditions
  let matched := { event with
    matchedConditionIds := valid.map ValidCondition.conditionId
    validConditionIds := valid.map ValidCondition.validConditionId }
  if matched.isMatched then
    store (.storeEvent matched)
    pure event.eventId
  else pure event.eventId

/-- Emit an event under an id of its own; it is stored before it is matched. -/
def emitEvent (codec : Codec) (eventCode : String) (payload : JsonValue) : Manager String := do
  let eventId ← store .newEventId
  let now ← store .utcNow
  let event : EventRecord := ⟨eventId, eventCode, payload, now.instant, [], [], []⟩
  store (.storeEvent event)
  let conditions ← store (.getEventConditions eventCode)
  matchEvent codec event conditions

/-! ## Cron evaluation -/

/-- Evaluate one condition of the cron index at `now`. -/
def evaluateCronCondition (croner : Croner) (codec : Codec) (now : Timestamp)
    (condId : ConditionId) : TriggerCondition → Manager (Option ValidCondition)
  | .cron cron =>
      match croner.fromStr cron.cronExpression with
      | none => pure none
      | some schedule => do
          let lastExec ← store (.getLastCronExecution condId)
          if intervalOk now lastExec cron.minIntervalSeconds then
            match cronSlotDue croner schedule now lastExec with
            | some true => do
                let claimed ← store (.storeCronExecution condId now lastExec)
                if claimed then
                  let vc := ValidCondition.new codec condId (.cron ⟨now, lastExec⟩)
                  store (.recordValidCondition vc)
                  pure (some vc)
                else pure none
            | _ => pure none
          else pure none
  | _ => pure none

def evaluateCrons (croner : Croner) (codec : Codec) (now : Timestamp) :
    List (ConditionId × TriggerCondition) → Manager (List ValidCondition)
  | [] => pure []
  | (condId, cond) :: rest => do
      let found ← evaluateCronCondition croner codec now condId cond
      let others ← evaluateCrons croner codec now rest
      pure (found.toList ++ others)

/-- Evaluate all cron conditions against the current time. -/
def evaluateCronConditions (croner : Croner) (codec : Codec) : Manager (List ValidCondition) := do
  let conditions ← store .getCronConditions
  let now ← store .utcNow
  evaluateCrons croner codec now.instant conditions

/-! ## Trigger evaluation -/

/-- A claimed execution, ready for its invocation. -/
structure TriggerExecution where
  runId : TriggerRunId
  trigger : TriggerDefinitionDTO
  arguments : JsonValue
  invocationId : InvocationId
deriving DecidableEq

/-- The outbox record and the execution of one firing. -/
def plannedRun (codec : Codec) (now : Timestamp) (runId : TriggerRunId)
    (trigger : TriggerDefinitionDTO) (valid : List ValidCondition) :
    TriggerRun × TriggerExecution :=
  let arguments := trigger.argumentTemplate.getD (.object [])
  let invocationId := codec.triggerRunInvocationId runId.raw
  ({ triggerRunId := runId
     triggerId := trigger.triggerId
     taskId := trigger.taskId
     logic := trigger.logic
     arguments := arguments
     participants := valid.map (participantFromValidCondition codec)
     claimedAt := now
     executedAt := none
     plannedInvocationId := some invocationId
     triggeredInvocationId := none },
   ⟨runId, trigger, arguments, invocationId⟩)

/-- The valid conditions of one condition (`by_condition`). -/
def byCondition (valid : List ValidCondition) (conditionId : ConditionId) : List ValidCondition :=
  valid.filter fun vc => vc.conditionId = conditionId

/-- All conditions of a trigger are satisfied. -/
def allConditionsValid (valid : List ValidCondition) (trigger : TriggerDefinitionDTO) : Bool :=
  trigger.conditionIds.all fun conditionId => !(byCondition valid conditionId).isEmpty

/-- The representative of every condition of an AND trigger. -/
def selectedOf (valid : List ValidCondition) (trigger : TriggerDefinitionDTO) :
    List ValidCondition :=
  trigger.conditionIds.filterMap fun conditionId => (byCondition valid conditionId).head?

def andRunId (trigger : TriggerDefinitionDTO) (selected : List ValidCondition) : TriggerRunId :=
  ⟨"run_".toList ++ trigger.triggerId.raw ++ "_".toList ++
    Text.join '_' (sortTexts (selected.map ValidCondition.validConditionId))⟩

def orRunId (trigger : TriggerDefinitionDTO) (validConditionId : List Char) : TriggerRunId :=
  ⟨"run_".toList ++ trigger.triggerId.raw ++ "_".toList ++ validConditionId⟩

/-- The runs one trigger plans: one for an AND trigger, one for every valid condition of
an OR trigger. -/
def candidatesOf (codec : Codec) (now : Timestamp) (valid : List ValidCondition)
    (trigger : TriggerDefinitionDTO) : List (TriggerRun × TriggerExecution) :=
  match trigger.logic with
  | .and =>
      if allConditionsValid valid trigger then
        let selected := selectedOf valid trigger
        [plannedRun codec now (andRunId trigger selected) trigger selected]
      else []
  | .or =>
      trigger.conditionIds.flatMap fun conditionId =>
        (byCondition valid conditionId).map fun vc =>
          plannedRun codec now (orRunId trigger vc.validConditionId) trigger [vc]

/-- The valid conditions one trigger consumes: all of its conditions', once it fires. -/
def consumedBy (valid : List ValidCondition) (trigger : TriggerDefinitionDTO) :
    List (List Char) :=
  match trigger.logic with
  | .and =>
      if allConditionsValid valid trigger then
        trigger.conditionIds.flatMap fun conditionId =>
          (byCondition valid conditionId).map ValidCondition.validConditionId
      else []
  | .or =>
      trigger.conditionIds.flatMap fun conditionId =>
        (byCondition valid conditionId).map ValidCondition.validConditionId

/-- Add triggers to the map of affected triggers; the first one of an id stays. -/
def addTriggers (found : List TriggerDefinitionDTO) :
    List TriggerDefinitionDTO → List TriggerDefinitionDTO
  | [] => found
  | trigger :: rest =>
      if trigger.triggerId ∈ found.map TriggerDefinitionDTO.triggerId then addTriggers found rest
      else addTriggers (found ++ [trigger]) rest

/-- The triggers that reference any of the conditions. -/
def affectedTriggers (found : List TriggerDefinitionDTO) :
    List (List Char) → Manager (List TriggerDefinitionDTO)
  | [] => pure found
  | key :: rest => do
      let triggers ← store (.getTriggersForCondition ⟨key⟩)
      affectedTriggers (addTriggers found triggers) rest

/-- The values of the trigger map in the order of its keys. -/
def triggersInOrder (triggers : List TriggerDefinitionDTO) (order : List (List Char)) :
    List TriggerDefinitionDTO :=
  order.filterMap fun key => triggers.find? fun trigger => trigger.triggerId.raw = key

/-- The executions whose run this evaluation was the first to claim. -/
def claimedExecutions (candidates : List (TriggerRun × TriggerExecution)) (claimed : List Bool) :
    List TriggerExecution :=
  (candidates.zip claimed).filterMap fun entry => if entry.2 then some entry.1.2 else none

/-- Process the recorded valid conditions and claim the triggers that fire. -/
def evaluateTriggerRuns (codec : Codec) : Manager (List TriggerExecution) := do
  let valid ← store .getValidConditions
  if valid.isEmpty then pure []
  else
    let keys ← store (.keyOrder (valid.map fun vc => vc.conditionId.raw).dedup)
    let triggers ← affectedTriggers [] keys
    let order ← store (.keyOrder (triggers.map fun trigger => trigger.triggerId.raw))
    let now ← store .utcNow
    let ordered := triggersInOrder triggers order
    let candidates := ordered.flatMap (candidatesOf codec now.instant valid)
    let consumed := sortTexts (ordered.flatMap (consumedBy valid)).dedup
    if candidates.isEmpty then pure []
    else
      let claimed ← store (.claimTriggerRunsWithRecords (candidates.map Prod.fst) consumed)
      pure (claimedExecutions candidates claimed)

/-! ## The calls of an operation -/

section Uses

variable {A : (c : TriggerCall) → c.Ans → Prop} {P : TriggerCall → Prop} (codec : Codec)

theorem uses_store_bind {β : Type} {c : TriggerCall} {f : c.Ans → Manager β} (hc : P c)
    (hf : ∀ r, A c r → (f r).Uses A P) : (store c >>= f).Uses A P :=
  ⟨hc, hf⟩

theorem uses_recordSatisfied (hrecord : ∀ vc, P (.recordValidCondition vc))
    (ctx : ConditionContext) (conditions : List (ConditionId × TriggerCondition)) :
    (recordSatisfied codec ctx conditions).Uses A P := by
  induction conditions with
  | nil => trivial
  | cons entry rest ih =>
      simp only [recordSatisfied]
      split
      · exact uses_store_bind (hrecord _) fun _ _ => Prog.uses_bind ih fun _ => trivial
      · exact ih

theorem uses_evaluateTaskConditions (hlookup : ∀ taskId, P (.getConditionsForTask taskId))
    (hrecord : ∀ vc, P (.recordValidCondition vc)) (taskId : TaskId) (ctx : ConditionContext) :
    (evaluateTaskConditions codec taskId ctx).Uses A P :=
  uses_store_bind (hlookup taskId) fun conditions _ =>
    uses_recordSatisfied codec hrecord ctx conditions

theorem uses_emitEvent (hid : P .newEventId) (hnow : P .utcNow)
    (hstore : ∀ event, P (.storeEvent event)) (hlookup : ∀ code, P (.getEventConditions code))
    (hrecord : ∀ vc, P (.recordValidCondition vc)) (eventCode : String) (payload : JsonValue) :
    (emitEvent codec eventCode payload).Uses A P := by
  apply uses_store_bind hid
  intro eventId _
  apply uses_store_bind hnow
  intro now _
  apply uses_store_bind (hstore _)
  intro _ _
  apply uses_store_bind (hlookup _)
  intro conditions _
  apply Prog.uses_bind (uses_recordSatisfied codec hrecord _ conditions)
  intro valid
  dsimp only
  split
  · exact uses_store_bind (hstore _) fun _ _ => trivial
  · trivial

theorem uses_evaluateCronConditions (croner : Croner) (hlookup : P .getCronConditions)
    (hnow : P .utcNow) (hlast : ∀ condId, P (.getLastCronExecution condId))
    (hstore : ∀ condId time last, P (.storeCronExecution condId time last))
    (hrecord : ∀ condId ctx,
      P (.recordValidCondition (ValidCondition.new codec condId (.cron ctx)))) :
    (evaluateCronConditions croner codec).Uses A P := by
  have hone : ∀ now condId cond,
      (evaluateCronCondition croner codec now condId cond).Uses A P := by
    intro now condId cond
    cases cond with
    | cron cron =>
        simp only [evaluateCronCondition]
        split
        · trivial
        · apply uses_store_bind (hlast _)
          intro lastExec _
          split
          · split
            · apply uses_store_bind (hstore _ _ _)
              intro claimed _
              split
              · exact uses_store_bind (hrecord _ _) fun _ _ => trivial
              · trivial
            · trivial
          · trivial
    | _ => trivial
  have hall : ∀ now conditions, (evaluateCrons croner codec now conditions).Uses A P := by
    intro now conditions
    induction conditions with
    | nil => trivial
    | cons entry rest ih =>
        exact Prog.uses_bind (hone _ _ _) fun _ => Prog.uses_bind ih fun _ => trivial
  apply uses_store_bind hlookup
  intro conditions _
  apply uses_store_bind hnow
  intro now _
  exact hall _ _

theorem uses_affectedTriggers (hlookup : ∀ condId, P (.getTriggersForCondition condId))
    (found : List TriggerDefinitionDTO) (keys : List (List Char)) :
    (affectedTriggers found keys).Uses A P := by
  induction keys generalizing found with
  | nil => trivial
  | cons key rest ih => exact uses_store_bind (hlookup _) fun triggers _ => ih _

theorem uses_evaluateTriggerRuns (hvalid : P .getValidConditions) (hnow : P .utcNow)
    (horder : ∀ keys, P (.keyOrder keys)) (hlookup : ∀ condId, P (.getTriggersForCondition condId))
    (hclaim : ∀ records consumed, P (.claimTriggerRunsWithRecords records consumed)) :
    (evaluateTriggerRuns codec).Uses A P := by
  apply uses_store_bind hvalid
  intro valid _
  split
  · trivial
  · apply uses_store_bind (horder _)
    intro keys _
    apply Prog.uses_bind (uses_affectedTriggers hlookup [] keys)
    intro triggers
    apply uses_store_bind (horder _)
    intro order _
    apply uses_store_bind hnow
    intro now _
    dsimp only
    split
    · trivial
    · exact uses_store_bind (hclaim _ _) fun _ _ => trivial

end Uses

end Rustvello.Core
