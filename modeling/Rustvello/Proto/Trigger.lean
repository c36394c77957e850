import Rustvello.Proto.Config
import Rustvello.Text.Fields
import Mathlib.Data.List.Sort
import Mathlib.Data.List.Destutter

/-!
# Trigger conditions, contexts and definitions

The `trigger` module of `rustvello-proto`: the conditions a trigger may wait for
(`condition.rs`), the contexts that may satisfy them (`context.rs`), the filters both
sides are compared by (`filter.rs`), and the definitions that tie conditions to a task
(`definition.rs`, `monitoring.rs`).

* `JsonValue`, `Codec` — JSON values, and what other crates compute on them;
* `TriggerCondition` with `conditionId`, `sourceTaskIds` and `isSatisfiedBy`;
* `ConditionContext` with `contextId`;
* `ValidCondition`, `TriggerDefinitionDTO`, `TriggerRun`.

Identifiers of this subsystem are made by writing texts one after the other and are
never hashed as a whole, so they are kept as texts (`List Char`).
-/

namespace Rustvello.Proto

/-! ## JSON -/

/-- A JSON number; `serde_json` keeps integers and floats apart. -/
inductive JsonNumber where
  | int (value : Int)
  | float (value : F64)
deriving DecidableEq

/-- `serde_json::Value`; the members of an object are sorted by key. -/
inductive JsonValue where
  | null
  | bool (value : Bool)
  | number (value : JsonNumber)
  | string (value : String)
  | array (items : List JsonValue)
  | object (members : List (String × JsonValue))

namespace JsonValue

mutual

def decEq : (a b : JsonValue) → Decidable (a = b)
  | null, null => isTrue rfl
  | bool a, bool b => decidable_of_iff (a = b) (by simp)
  | number a, number b => decidable_of_iff (a = b) (by simp)
  | string a, string b => decidable_of_iff (a = b) (by simp)
  | array as, array bs =>
      have := decEqItems as bs
      decidable_of_iff (as = bs) (by simp)
  | object as, object bs =>
      have := decEqMembers as bs
      decidable_of_iff (as = bs) (by simp)
  | null, bool _ | null, number _ | null, string _ | null, array _ | null, object _
  | bool _, null | bool _, number _ | bool _, string _ | bool _, array _ | bool _, object _
  | number _, null | number _, bool _ | number _, string _ | number _, array _
  | number _, object _
  | string _, null | string _, bool _ | string _, number _ | string _, array _
  | string _, object _
  | array _, null | array _, bool _ | array _, number _ | array _, string _ | array _, object _
  | object _, null | object _, bool _ | object _, number _ | object _, string _
  | object _, array _ => isFalse (by simp)

def decEqItems : (as bs : List JsonValue) → Decidable (as = bs)
  | [], [] => isTrue rfl
  | a :: as, b :: bs =>
      have := decEq a b
      have := decEqItems as bs
      decidable_of_iff (a = b ∧ as = bs) (by simp)
  | [], _ :: _ | _ :: _, [] => isFalse (by simp)

def decEqMembers : (as bs : List (String × JsonValue)) → Decidable (as = bs)
  | [], [] => isTrue rfl
  | (k, a) :: as, (l, b) :: bs =>
      have := decEq a b
      have := decEqMembers as bs
      decidable_of_iff ((k = l ∧ a = b) ∧ as = bs) (by simp)
  | [], _ :: _ | _ :: _, [] => isFalse (by simp)

end

instance : DecidableEq JsonValue := decEq

/-- `as_object`, and the value under a key. -/
def asObject : JsonValue → Option (List (String × JsonValue))
  | object members => some members
  | _ => none

end JsonValue

/-- What the crates around the trigger code compute: `sha2` with `lower_hex`,
`serde_json`, `chrono` and `uuid`. -/
structure Codec where
  /-- Lower-case hexadecimal SHA-256 of a text. -/
  sha256Hex : List Char → List Char
  /-- `serde_json::from_str::<Value>`. -/
  parseJson : String → Option JsonValue
  /-- `serde_json::to_string`. -/
  jsonText : JsonValue → List Char
  /-- The `Display` text of a JSON number that is a float. -/
  floatText : F64 → List Char
  /-- `DateTime::to_rfc3339`. -/
  rfc3339 : Timestamp → List Char
  /-- The UUID that `uuid` derives from a run id (version 5). -/
  triggerRunInvocationId : List Char → InvocationId

/-! ## Filters -/

/-- A filter: expected values by key. -/
abbrev Filter := List (String × JsonValue)

/-- Backslashes and double quotes are escaped, nothing else is. -/
def pythonEscape (c : Char) : List Char :=
  if c = '\\' then ['\\', '\\'] else if c = '"' then ['\\', '"'] else [c]

def pythonString (s : String) : List Char :=
  '"' :: s.toList.flatMap pythonEscape ++ ['"']

/-- Decimal digits of an integer. -/
def decimal (n : Int) : List Char :=
  if n < 0 then '-' :: Nat.toDigits 10 n.natAbs else Nat.toDigits 10 n.natAbs

mutual

/-- `value_to_python_json`. -/
def valueToPythonJson (codec : Codec) : JsonValue → List Char
  | .null => "null".toList
  | .bool b => if b then "true".toList else "false".toList
  | .number (.int n) => decimal n
  | .number (.float x) => codec.floatText x
  | .string s => pythonString s
  | .array items => '[' :: ", ".toList.intercalate (itemTexts codec items) ++ [']']
  | .object members => '{' :: ", ".toList.intercalate (memberTexts codec members) ++ ['}']

def itemTexts (codec : Codec) : List JsonValue → List (List Char)
  | [] => []
  | item :: rest => valueToPythonJson codec item :: itemTexts codec rest

def memberTexts (codec : Codec) : List (String × JsonValue) → List (List Char)
  | [] => []
  | (key, value) :: rest =>
      (pythonString key ++ ": ".toList ++ valueToPythonJson codec value) :: memberTexts codec rest

end

/-- `python_compatible_json`: what `json.dumps(obj, sort_keys=True)` writes. -/
def pythonCompatibleJson (codec : Codec) (filter : Filter) : List Char :=
  '{' :: ", ".toList.intercalate (memberTexts codec filter) ++ ['}']

def argumentFilterId (codec : Codec) : Option Filter → List Char
  | none => "static_no_args".toList
  | some [] => "static_no_args".toList
  | some filter => "static_".toList ++ codec.sha256Hex (pythonCompatibleJson codec filter)

def resultFilterId (codec : Codec) : Option JsonValue → List Char
  | none => "no_result_filter".toList
  | some value => codec.sha256Hex (codec.jsonText value)

/-- Every expected value equals the argument of its key, read as JSON. -/
def checkArgumentFilter (codec : Codec) (filter : Option Filter) (args : SerializedArguments) :
    Bool :=
  match filter with
  | none => true
  | some expected => expected.all fun member =>
      ((args.get? member.1).bind codec.parseJson).any fun actual => decide (actual = member.2)

def checkResultFilter (filter : Option JsonValue) (result : JsonValue) : Bool :=
  match filter with
  | none => true
  | some expected => decide (expected = result)

def checkPayloadFilter (filter : Option Filter) (payload : JsonValue) : Bool :=
  match filter with
  | none => true
  | some expected =>
      match payload.asObject with
      | none => expected.isEmpty
      | some members => expected.all fun member =>
          decide (members.lookup member.1 = some member.2)

/-! ## Contexts -/

structure CronContext where
  timestamp : Timestamp
  lastExecution : Option Timestamp
deriving DecidableEq

structure StatusContext where
  invocationId : InvocationId
  taskId : TaskId
  status : InvocationStatus
  arguments : SerializedArguments
deriving DecidableEq

structure EventContext where
  eventId : String
  eventCode : String
  payload : JsonValue
deriving DecidableEq

structure ResultContext where
  invocationId : InvocationId
  taskId : TaskId
  result : JsonValue
  arguments : SerializedArguments
deriving DecidableEq

structure ExceptionContext where
  invocationId : InvocationId
  taskId : TaskId
  errorType : String
  errorMessage : String
  arguments : SerializedArguments
deriving DecidableEq

inductive ConditionContext where
  | cron (ctx : CronContext)
  | status (ctx : StatusContext)
  | event (ctx : EventContext)
  | result (ctx : ResultContext)
  | exception (ctx : ExceptionContext)
deriving DecidableEq

/-- The text a context is identified by. -/
def ConditionContext.digestInput (codec : Codec) : ConditionContext → List Char
  | cron ctx => "cron_ctx:".toList ++ codec.rfc3339 ctx.timestamp
  | status ctx => "status_ctx:".toList ++ ctx.invocationId.raw.toList ++ ":".toList ++
      ctx.status.toName.toList
  | event ctx => "event_ctx:".toList ++ ctx.eventId.toList
  | result ctx => "result_ctx:".toList ++ ctx.invocationId.raw.toList
  | exception ctx => "exception_ctx:".toList ++ ctx.invocationId.raw.toList

def ConditionContext.contextId (codec : Codec) (ctx : ConditionContext) : List Char :=
  codec.sha256Hex (ctx.digestInput codec)

/-! ## Conditions -/

structure ConditionId where
  raw : List Char
deriving DecidableEq

structure CronCondition where
  cronExpression : String
  /-- Least number of seconds between two firings. -/
  minIntervalSeconds : Nat
deriving DecidableEq

structure StatusCondition where
  taskId : TaskId
  statuses : List InvocationStatus
  argumentFilter : Option Filter
deriving DecidableEq

structure EventCondition where
  eventCode : String
  payloadFilter : Option Filter
deriving DecidableEq

structure ResultCondition where
  taskId : TaskId
  argumentFilter : Option Filter
  resultFilter : Option JsonValue
deriving DecidableEq

structure ExceptionCondition where
  taskId : TaskId
  /-- Error type names to match; none for every error. -/
  exceptionTypes : List String
  argumentFilter : Option Filter
deriving DecidableEq

inductive CompositeLogic where
  | and
  | or
deriving DecidableEq

/-- The `Debug` text, in lower case. -/
def CompositeLogic.asStr : CompositeLogic → String
  | and => "and"
  | or => "or"

inductive TriggerCondition where
  | cron (cond : CronCondition)
  | status (cond : StatusCondition)
  | event (cond : EventCondition)
  | result (cond : ResultCondition)
  | exception (cond : ExceptionCondition)
  | composite (logic : CompositeLogic) (children : List TriggerCondition)

/-- Texts in the order of `sort`. -/
def sortTexts (texts : List (List Char)) : List (List Char) :=
  texts.insertionSort (· ≤ ·)

/-- `status.to_string().to_lowercase()`. -/
def InvocationStatus.lowercase (status : InvocationStatus) : List Char :=
  status.toName.toList.map Char.toLower

/-- The id of a status condition, which result and exception conditions extend. -/
def statusConditionId (codec : Codec) (cond : StatusCondition) : List Char :=
  "condition#".toList ++ cond.taskId.toText.toList ++ "#".toList ++
    Text.join '_' (sortTexts (cond.statuses.map InvocationStatus.lowercase)) ++
    "#".toList ++ argumentFilterId codec cond.argumentFilter

/-- The part of an exception condition's id that names the types. -/
def exceptionText (types : List String) : List Char :=
  if types.isEmpty then "any".toList
  else Text.join '_' (sortTexts (types.map String.toList))

def cronConditionId (cond : CronCondition) : List Char :=
  "cron_".toList ++ cond.cronExpression.toList

def eventConditionId (codec : Codec) (cond : EventCondition) : List Char :=
  "event#".toList ++ cond.eventCode.toList ++ "#".toList ++
    argumentFilterId codec cond.payloadFilter

/-- The id of the status condition for success, and the result filter. -/
def resultConditionId (codec : Codec) (cond : ResultCondition) : List Char :=
  statusConditionId codec ⟨cond.taskId, [.success], cond.argumentFilter⟩ ++
    "_result_".toList ++ resultFilterId codec cond.resultFilter

/-- The id of the status condition for failure, and the exception types. -/
def exceptionConditionId (codec : Codec) (cond : ExceptionCondition) : List Char :=
  statusConditionId codec ⟨cond.taskId, [.failed], cond.argumentFilter⟩ ++
    "_exception_".toList ++ exceptionText cond.exceptionTypes

def compositeConditionId (logic : CompositeLogic) (childIds : List (List Char)) : List Char :=
  "composite#".toList ++ logic.asStr.toList ++ "#".toList ++ Text.join ',' (sortTexts childIds)

namespace TriggerCondition

mutual

/-- `condition_id`, as a text. -/
def idText (codec : Codec) : TriggerCondition → List Char
  | cron cond => cronConditionId cond
  | status cond => statusConditionId codec cond
  | event cond => eventConditionId codec cond
  | result cond => resultConditionId codec cond
  | exception cond => exceptionConditionId codec cond
  | composite logic children => compositeConditionId logic (childTexts codec children)

def childTexts (codec : Codec) : List TriggerCondition → List (List Char)
  | [] => []
  | child :: rest => idText codec child :: childTexts codec rest

end

def conditionId (codec : Codec) (cond : TriggerCondition) : ConditionId :=
  ⟨cond.idText codec⟩

mutual

/-- The tasks a condition watches. -/
def sourceTaskIds : TriggerCondition → List TaskId
  | cron _ => []
  | event _ => []
  | status cond => [cond.taskId]
  | result cond => [cond.taskId]
  | exception cond => [cond.taskId]
  | composite _ children =>
      -- `sort_by_key` and `dedup_by`, both on the `Display` text
      ((childTaskIds children).insertionSort fun a b => a.toText.toList ≤ b.toText.toList).destutter
        fun a b => a.toText ≠ b.toText

def childTaskIds : List TriggerCondition → List TaskId
  | [] => []
  | child :: rest => sourceTaskIds child ++ childTaskIds rest

end

mutual

def isSatisfiedBy (codec : Codec) : TriggerCondition → ConditionContext → Bool
  | cron _, .cron _ => true
  | status cond, .status ctx =>
      decide (cond.taskId = ctx.taskId) && decide (ctx.status ∈ cond.statuses) &&
        checkArgumentFilter codec cond.argumentFilter ctx.arguments
  | event cond, .event ctx =>
      decide (cond.eventCode = ctx.eventCode) && checkPayloadFilter cond.payloadFilter ctx.payload
  | result cond, .result ctx =>
      decide (cond.taskId = ctx.taskId) &&
        checkArgumentFilter codec cond.argumentFilter ctx.arguments &&
        checkResultFilter cond.resultFilter ctx.result
  | exception cond, .exception ctx =>
      decide (cond.taskId = ctx.taskId) &&
        (cond.exceptionTypes.isEmpty || decide (ctx.errorType ∈ cond.exceptionTypes)) &&
        checkArgumentFilter codec cond.argumentFilter ctx.arguments
  | composite .and children, ctx => allSatisfied codec children ctx
  | composite .or children, ctx => anySatisfied codec children ctx
  | _, _ => false

def allSatisfied (codec : Codec) : List TriggerCondition → ConditionContext → Bool
  | [], _ => true
  | child :: rest, ctx => isSatisfiedBy codec child ctx && allSatisfied codec rest ctx

def anySatisfied (codec : Codec) : List TriggerCondition → ConditionContext → Bool
  | [], _ => false
  | child :: rest, ctx => isSatisfiedBy codec child ctx || anySatisfied codec rest ctx

end

end TriggerCondition

/-! ## Definitions and runs -/

structure TriggerDefinitionId where
  raw : List Char
deriving DecidableEq

structure TriggerRunId where
  raw : List Char
deriving DecidableEq

inductive TriggerLogic where
  | and
  | or
deriving DecidableEq

/-- A trigger definition: conditions, and the task they invoke. -/
structure TriggerDefinitionDTO where
  triggerId : TriggerDefinitionId
  taskId : TaskId
  conditionIds : List ConditionId
  logic : TriggerLogic
  argumentTemplate : Option JsonValue
deriving DecidableEq

def TriggerLogic.display : TriggerLogic → List Char
  | and => "AND".toList
  | or => "OR".toList

/-- The id of a trigger: the digest of its task, its sorted conditions and its logic. -/
def computeTriggerId (codec : Codec) (taskId : TaskId) (conditionIds : List ConditionId)
    (logic : TriggerLogic) : TriggerDefinitionId :=
  let sorted := sortTexts (conditionIds.map ConditionId.raw)
  ⟨codec.sha256Hex (taskId.toText.toList ++ ['|'] ++ sorted.flatMap (fun id => id ++ [',']) ++
    ['|'] ++ logic.display)⟩

/-- A condition that was found satisfied, kept until a trigger consumes it. -/
structure ValidCondition where
  validConditionId : List Char
  conditionId : ConditionId
  context : ConditionContext
deriving DecidableEq

/-- The id of a valid condition: `valid_{condition_id}_{context_id}`. -/
def validConditionIdOf (codec : Codec) (conditionId : ConditionId) (ctx : ConditionContext) :
    List Char :=
  "valid_".toList ++ conditionId.raw ++ "_".toList ++ ctx.contextId codec

def ValidCondition.new (codec : Codec) (conditionId : ConditionId) (ctx : ConditionContext) :
    ValidCondition where
  validConditionId := validConditionIdOf codec conditionId ctx
  conditionId := conditionId
  context := ctx

/-- Source that satisfied one condition of a run. -/
structure TriggerRunParticipant where
  contextType : String
  conditionId : ConditionId
  validConditionId : List Char
  eventId : Option String
  sourceInvocationId : Option InvocationId
  contextSummary : List Char
deriving DecidableEq

/-- How a valid condition is named in the runs it takes part in. -/
def participantFromValidCondition (codec : Codec) (vc : ValidCondition) : TriggerRunParticipant :=
  let named (contextType : String) (eventId : Option String)
      (sourceInvocationId : Option InvocationId) (contextSummary : List Char) :
      TriggerRunParticipant :=
    ⟨contextType, vc.conditionId, vc.validConditionId, eventId, sourceInvocationId,
      contextSummary⟩
  match vc.context with
  | .event ctx => named "event" (some ctx.eventId) none ctx.eventCode.toList
  | .status ctx => named "status" none (some ctx.invocationId)
      (ctx.taskId.toText.toList ++ ' ' :: ctx.status.debugName.toList)
  | .result ctx => named "result" none (some ctx.invocationId) ctx.taskId.toText.toList
  | .exception ctx => named "exception" none (some ctx.invocationId)
      (ctx.taskId.toText.toList ++ ' ' :: ctx.errorType.toList)
  | .cron ctx => named "cron" none none (codec.rfc3339 ctx.timestamp)

@[simp] theorem participantFromValidCondition_conditionId (codec : Codec) (vc : ValidCondition) :
    (participantFromValidCondition codec vc).conditionId = vc.conditionId := by
  unfold participantFromValidCondition
  cases vc.context <;> rfl

@[simp] theorem participantFromValidCondition_validConditionId (codec : Codec)
    (vc : ValidCondition) :
    (participantFromValidCondition codec vc).validConditionId = vc.validConditionId := by
  unfold participantFromValidCondition
  cases vc.context <;> rfl

/-- The outbox record of one claimed execution (`TriggerRunRecord`), with its
participants. -/
structure TriggerRun where
  triggerRunId : TriggerRunId
  triggerId : TriggerDefinitionId
  taskId : TaskId
  logic : TriggerLogic
  arguments : JsonValue
  participants : List TriggerRunParticipant
  claimedAt : Timestamp
  executedAt : Option Timestamp
  plannedInvocationId : Option InvocationId
  triggeredInvocationId : Option InvocationId
deriving DecidableEq

/-- An emitted event, stored whether or not a condition matched. -/
structure EventRecord where
  eventId : String
  eventCode : String
  payload : JsonValue
  timestamp : Timestamp
  matchedConditionIds : List ConditionId
  validConditionIds : List (List Char)
  triggeredInvocationIds : List InvocationId
deriving DecidableEq

def EventRecord.isMatched (event : EventRecord) : Bool :=
  !event.matchedConditionIds.isEmpty

/-! ## Reading the recursions over children -/

namespace TriggerCondition

variable (codec : Codec) (children : List TriggerCondition)

theorem childTexts_eq :
    childTexts codec children = children.map (idText codec) := by
  induction children with
  | nil => rfl
  | cons child rest ih => simp only [childTexts, List.map_cons, ih]

theorem allSatisfied_iff (ctx : ConditionContext) :
    allSatisfied codec children ctx = true ↔
      ∀ child ∈ children, isSatisfiedBy codec child ctx = true := by
  induction children with
  | nil => simp [allSatisfied]
  | cons child rest ih => simp [allSatisfied, ih]

theorem anySatisfied_iff (ctx : ConditionContext) :
    anySatisfied codec children ctx = true ↔
      ∃ child ∈ children, isSatisfiedBy codec child ctx = true := by
  induction children with
  | nil => simp [anySatisfied]
  | cons child rest ih => simp [anySatisfied, ih]

/-- Every condition is of one kind or has children: induction with the children's
hypotheses. -/
theorem induction {P : TriggerCondition → Prop} (hcron : ∀ c, P (cron c))
    (hstatus : ∀ c, P (status c)) (hevent : ∀ c, P (event c)) (hresult : ∀ c, P (result c))
    (hexception : ∀ c, P (exception c))
    (hcomposite : ∀ logic children, (∀ child ∈ children, P child) → P (composite logic children))
    (cond : TriggerCondition) : P cond := by
  refine @TriggerCondition.rec P (fun cs => ∀ c ∈ cs, P c) hcron hstatus hevent hresult
    hexception (fun logic children ih => hcomposite logic children ih) ?_ ?_ cond
  · simp
  · intro child rest hchild hrest c hc
    rcases List.mem_cons.mp hc with rfl | hc
    · exact hchild
    · exact hrest c hc

end TriggerCondition

end Rustvello.Proto
