import Rustvello.Core.TriggerManager
import Rustvello.Mem.Orchestrator

/-!
# The in-memory trigger store

`MemTriggerStore` (`rustvello-mem/src/trigger.rs`): conditions with their three indexes,
trigger definitions, valid conditions, cron executions, run claims and records, all
behind one mutex, so every method is one atomic step.

* `registerCondition`, `registerTrigger` — registration fills the indexes;
* `getConditionsForTask`, `getEventConditions`, `getCronConditions`,
  `getTriggersForCondition` — lookups go through them;
* `storeCronExecution` — a compare-and-set;
* `claimTriggerRunsWithRecords` — first claims, their records, consumption;
* `exec`, `triggerMachine` — every call of the trigger manager on the store, and the
  operations that may run at the same time;
* `TriggerBuilder` — how definitions are made, and registered with their conditions.
-/

namespace Rustvello.Mem

open Concurrency Proto Rustvello.Core

structure MemTriggerStore where
  conditions : HashMap ConditionId TriggerCondition := ∅
  /-- `Display` text of a source task → condition ids -/
  sourceTaskConditions : HashMap String (List ConditionId) := ∅
  /-- event code → condition ids -/
  eventConditions : HashMap String (List ConditionId) := ∅
  cronConditionIds : List ConditionId := []
  triggers : HashMap TriggerDefinitionId TriggerDefinitionDTO := ∅
  /-- condition id → trigger ids -/
  conditionTriggers : HashMap ConditionId (List TriggerDefinitionId) := ∅
  validConditions : HashMap (List Char) ValidCondition := ∅
  cronExecutions : HashMap ConditionId Timestamp := ∅
  triggerRunClaims : HashMap TriggerRunId Timestamp := ∅
  events : HashMap String EventRecord := ∅
  triggerRuns : HashMap TriggerRunId TriggerRun := ∅

/-- Add a value at the end of a list unless it is there. -/
def pushNew {α : Type} [DecidableEq α] (values : List α) (value : α) : List α :=
  if value ∈ values then values else values ++ [value]

/-- Add a value to the list under a key (`entry(..).or_default()`). -/
def indexAdd {K α : Type} [DecidableEq K] [DecidableEq α] (index : HashMap K (List α)) (key : K)
    (value : α) : HashMap K (List α) :=
  index.insert key (pushNew ((index.lookup key).getD []) value)

namespace MemTriggerStore

/-! ## Registration -/

def registerCondition (codec : Codec) (s : MemTriggerStore) (cond : TriggerCondition) :
    MemTriggerStore :=
  let condId := cond.conditionId codec
  { s with
    conditions := s.conditions.insert condId cond
    sourceTaskConditions := cond.sourceTaskIds.foldl
      (fun index taskId => indexAdd index taskId.toText condId) s.sourceTaskConditions
    eventConditions := match cond with
      | .event event => indexAdd s.eventConditions event.eventCode condId
      | _ => s.eventConditions
    cronConditionIds := match cond with
      | .cron _ => pushNew s.cronConditionIds condId
      | _ => s.cronConditionIds }

def registerTrigger (s : MemTriggerStore) (trigger : TriggerDefinitionDTO) : MemTriggerStore :=
  { s with
    triggers := s.triggers.insert trigger.triggerId trigger
    conditionTriggers := trigger.conditionIds.foldl
      (fun index condId => indexAdd index condId trigger.triggerId) s.conditionTriggers }

/-- A fresh store after a sequence of registrations. -/
def registered (codec : Codec) (conditions : List TriggerCondition) : MemTriggerStore :=
  conditions.foldl (registerCondition codec) {}

/-- Registration records, fires and claims nothing. -/
theorem registered_idle (codec : Codec) (conditions : List TriggerCondition) :
    (registered codec conditions).validConditions = ∅ ∧
      (registered codec conditions).cronExecutions = ∅ ∧
      (registered codec conditions).triggerRunClaims = ∅ ∧
      (registered codec conditions).triggerRuns = ∅ := by
  induction conditions using List.reverseRecOn with
  | nil => exact ⟨rfl, rfl, rfl, rfl⟩
  | append_singleton conditions cond ih =>
      unfold registered at ih ⊢
      rw [List.foldl_append]
      exact ih

/-! ## Lookups -/

/-- The registered conditions among some ids. -/
def resolve (s : MemTriggerStore) (ids : List ConditionId) :
    List (ConditionId × TriggerCondition) :=
  ids.filterMap fun condId => (s.conditions.lookup condId).map fun cond => (condId, cond)

def getConditionsForTask (s : MemTriggerStore) (taskId : TaskId) :
    List (ConditionId × TriggerCondition) :=
  s.resolve ((s.sourceTaskConditions.lookup taskId.toText).getD [])

def getCronConditions (s : MemTriggerStore) : List (ConditionId × TriggerCondition) :=
  s.resolve s.cronConditionIds

def getEventConditions (s : MemTriggerStore) (eventCode : String) :
    List (ConditionId × TriggerCondition) :=
  s.resolve ((s.eventConditions.lookup eventCode).getD [])

def getTriggersForCondition (s : MemTriggerStore) (condId : ConditionId) :
    List TriggerDefinitionDTO :=
  ((s.conditionTriggers.lookup condId).getD []).filterMap fun triggerId =>
    s.triggers.lookup triggerId

/-! ## Valid conditions, cron executions, runs -/

def recordValidCondition (s : MemTriggerStore) (vc : ValidCondition) : MemTriggerStore :=
  { s with validConditions := s.validConditions.insert vc.validConditionId vc }

/-- The values of the map, in some order. -/
def getValidConditions (s : MemTriggerStore) (order : List (List Char)) : List ValidCondition :=
  (arrange order s.validConditions.keys).filterMap fun key => s.validConditions.lookup key

/-- Optimistic locking: the time is stored only over the expected one. -/
def storeCronExecution (s : MemTriggerStore) (condId : ConditionId) (time : Timestamp)
    (expectedLast : Option Timestamp) : Bool × MemTriggerStore :=
  if s.cronExecutions.lookup condId = expectedLast then
    (true, { s with cronExecutions := s.cronExecutions.insert condId time })
  else (false, s)

/-- Claim one run: only the first claim counts, and a stored record is kept. -/
def claimRun (now : Timestamp) (s : MemTriggerStore) (record : TriggerRun) :
    Bool × MemTriggerStore :=
  let key := record.triggerRunId
  let first := (s.triggerRunClaims.lookup key).isNone
  let s := if first then { s with triggerRunClaims := s.triggerRunClaims.insert key now } else s
  let s := if first || (s.triggerRuns.lookup key).isNone then
      { s with triggerRuns := s.triggerRuns.insert key record } else s
  (first, s)

def claimRuns (now : Timestamp) :
    MemTriggerStore → List TriggerRun → List Bool × MemTriggerStore
  | s, [] => ([], s)
  | s, record :: rest =>
      let first := claimRun now s record
      let others := claimRuns now first.2 rest
      (first.1 :: others.1, others.2)

/-- Remove valid conditions by their ids. -/
def consume (s : MemTriggerStore) (consumed : List (List Char)) : MemTriggerStore :=
  { s with validConditions := consumed.foldl (fun valid id => valid.erase id) s.validConditions }

def claimTriggerRunsWithRecords (now : Timestamp) (s : MemTriggerStore)
    (records : List TriggerRun) (consumed : List (List Char)) : List Bool × MemTriggerStore :=
  let answer := claimRuns now s records
  (answer.1, answer.2.consume consumed)

/-- Claiming touches claims and run records. -/
theorem claimRuns_eq (now : Timestamp) (records : List TriggerRun) (s : MemTriggerStore) :
    ∃ claims runs, (claimRuns now s records).2 =
      { s with triggerRunClaims := claims, triggerRuns := runs } := by
  have hone : ∀ (record : TriggerRun) (s : MemTriggerStore), ∃ claims runs,
      (claimRun now s record).2 = { s with triggerRunClaims := claims, triggerRuns := runs } := by
    intro record s
    unfold claimRun
    dsimp only
    split
    · split <;> exact ⟨_, _, rfl⟩
    · split <;> exact ⟨_, _, rfl⟩
  induction records generalizing s with
  | nil => exact ⟨s.triggerRunClaims, s.triggerRuns, rfl⟩
  | cons record rest ih =>
      obtain ⟨claims, runs, hfirst⟩ := hone record s
      obtain ⟨claims', runs', hrest⟩ := ih (claimRun now s record).2
      refine ⟨claims', runs', ?_⟩
      show (claimRuns now (claimRun now s record).2 rest).2 = _
      rw [hrest, hfirst]

/-- A run record was there, or is one of those that came with a claim. -/
theorem lookup_claimRuns (now : Timestamp) (records : List TriggerRun) {s : MemTriggerStore}
    {runId : TriggerRunId} {run : TriggerRun}
    (h : (claimRuns now s records).2.triggerRuns.lookup runId = some run) :
    s.triggerRuns.lookup runId = some run ∨ run ∈ records := by
  have hinsert : ∀ (s : MemTriggerStore) (record : TriggerRun),
      (s.triggerRuns.insert record.triggerRunId record).lookup runId = some run →
        s.triggerRuns.lookup runId = some run ∨ run = record := by
    intro s record hrun
    by_cases hid : runId = record.triggerRunId
    · subst hid
      rw [AList.lookup_insert] at hrun
      exact .inr (Option.some.inj hrun).symm
    · rw [AList.lookup_insert_ne hid] at hrun
      exact .inl hrun
  induction records generalizing s with
  | nil => exact .inl h
  | cons record rest ih =>
      rcases ih h with hrun | hrun
      · -- only the claim at the head can have stored it
        unfold claimRun at hrun
        dsimp only at hrun
        split at hrun
        · split at hrun
          · exact (hinsert s record hrun).imp_right (by simp +contextual)
          · exact .inl hrun
        · split at hrun
          · exact (hinsert s record hrun).imp_right (by simp +contextual)
          · exact .inl hrun
      · exact .inr (List.mem_cons_of_mem _ hrun)

end MemTriggerStore

/-! ## The machine -/

/-- What the surroundings decide for one call. -/
structure TriggerEnv where
  clock : DateTime := ⟨0, minUtc_nonpos, maxUtc_nonneg⟩
  /-- Preferred iteration order of a hash map. -/
  order : List (List Char) := []
  /-- A fresh UUID. -/
  eventId : String := ""

instance : Inhabited TriggerEnv := ⟨{}⟩

namespace MemTriggerStore

/-- Carry out one call of the trigger manager. -/
def exec (env : TriggerEnv) : (c : TriggerCall) → MemTriggerStore → c.Ans × MemTriggerStore
  | .getConditionsForTask taskId, s => (s.getConditionsForTask taskId, s)
  | .getCronConditions, s => (s.getCronConditions, s)
  | .getEventConditions eventCode, s => (s.getEventConditions eventCode, s)
  | .getTriggersForCondition condId, s => (s.getTriggersForCondition condId, s)
  | .recordValidCondition vc, s => ((), s.recordValidCondition vc)
  | .getValidConditions, s => (s.getValidConditions env.order, s)
  | .getLastCronExecution condId, s => (s.cronExecutions.lookup condId, s)
  | .storeCronExecution condId time expectedLast, s => s.storeCronExecution condId time expectedLast
  | .storeEvent event, s => ((), { s with events := s.events.insert event.eventId event })
  | .claimTriggerRunsWithRecords records consumed, s =>
      s.claimTriggerRunsWithRecords env.clock.instant records consumed
  | .utcNow, s => (env.clock, s)
  | .newEventId, s => (env.eventId, s)
  | .keyOrder keys, s => (arrange env.order keys, s)

/-- A firing that is stored changes the times of the firings at most. -/
theorem exec_storeCronExecution (env : TriggerEnv) (s : MemTriggerStore) (condId : ConditionId)
    (time : Timestamp) (last : Option Timestamp) :
    (exec env (.storeCronExecution condId time last) s).2 = { s with cronExecutions :=
      (exec env (.storeCronExecution condId time last) s).2.cronExecutions } := by
  simp only [exec, storeCronExecution]
  split <;> rfl

end MemTriggerStore

/-- The operations that run over one trigger store. -/
inductive TriggerTask where
  | statusChange (ctx : StatusContext)
  | result (ctx : ResultContext)
  | failure (ctx : ExceptionContext)
  | event (eventCode : String) (payload : JsonValue)
  | cron
  | evaluate
deriving DecidableEq

def TriggerTask.program (croner : Croner) (codec : Codec) : TriggerTask → Manager Unit
  | statusChange ctx => (reportStatusChange codec ctx).toUnit
  | result ctx => (reportResult codec ctx).toUnit
  | failure ctx => (reportFailure codec ctx).toUnit
  | event eventCode payload => (emitEvent codec eventCode payload).toUnit
  | cron => (evaluateCronConditions croner codec).toUnit
  | evaluate => (evaluateTriggerRuns codec).toUnit

def triggerMachine (croner : Croner) (codec : Codec) :
    Machine triggerStore MemTriggerStore TriggerEnv TriggerTask where
  exec := MemTriggerStore.exec
  program := TriggerTask.program croner codec

/-- The valid condition that a call recorded. -/
def recordedBy? : Event triggerStore → Option ValidCondition
  | ⟨.recordValidCondition vc, _⟩ => some vc
  | _ => none

/-! ## The builder -/

structure TriggerBuilder where
  conditions : List TriggerCondition := []
  logic : TriggerLogic := .and
  argumentTemplate : Option JsonValue := none

namespace TriggerBuilder

def onEvent (b : TriggerBuilder) (eventCode : String) : TriggerBuilder :=
  { b with conditions := b.conditions ++ [.event ⟨eventCode, none⟩] }

def withStaticArgs (b : TriggerBuilder) (args : JsonValue) : TriggerBuilder :=
  { b with argumentTemplate := some args }

variable (codec : Codec)

/-- The definition, not registered anywhere. -/
def build (b : TriggerBuilder) (targetTaskId : TaskId) : RustvelloResult TriggerDefinitionDTO :=
  if b.conditions.isEmpty then
    .error (.configuration "trigger must have at least one condition")
  else
    let conditionIds := b.conditions.map (TriggerCondition.conditionId codec)
    .ok
      { triggerId := computeTriggerId codec targetTaskId conditionIds b.logic
        taskId := targetTaskId
        conditionIds := conditionIds
        logic := b.logic
        argumentTemplate := b.argumentTemplate }

/-- Register the conditions, and the definition over the ids that the store gave them. -/
def buildAndRegister (b : TriggerBuilder) (targetTaskId : TaskId) (s : MemTriggerStore) :
    RustvelloResult TriggerDefinitionDTO × MemTriggerStore :=
  if b.conditions.isEmpty then
    (.error (.configuration "trigger must have at least one condition"), s)
  else
    let s := b.conditions.foldl (MemTriggerStore.registerCondition codec) s
    let conditionIds := b.conditions.map (TriggerCondition.conditionId codec)
    let definition : TriggerDefinitionDTO :=
      { triggerId := computeTriggerId codec targetTaskId conditionIds b.logic
        taskId := targetTaskId
        conditionIds := conditionIds
        logic := b.logic
        argumentTemplate := b.argumentTemplate }
    (.ok definition, s.registerTrigger definition)

end TriggerBuilder

end Rustvello.Mem
