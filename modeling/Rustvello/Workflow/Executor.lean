import Rustvello.Concurrency.History
import Rustvello.Core.Error
import Rustvello.Text.Fields
import Mathlib.Data.List.AList

/-!
# The deterministic executor of workflows

`DeterministicExecutor` of `rustvello-core` (`workflow.rs`) as programs over the state
backend.  An execution of a workflow asks for random numbers, timestamps and UUIDs; each
value is looked up under its sequence number first and generated and stored otherwise.
Lookups and stores are separate calls, so a second execution of the same workflow may run
in between.

* `DataKey` — the keys of workflow data, with the texts they are stored under;
* `deterministicOperation`, `getBaseTime`, `random`, `utcNow`, `uuid` — the operations;
* `execute` — one execution: a fresh executor and a sequence of requests;
* `workflowMachine` — any number of executions of any workflows over one backend.
-/

namespace Rustvello.Workflow

open Concurrency Proto Rustvello.Core

/-- Library functions that the executor calls. -/
structure Library where
  sha256 : String → Fin 32 → UInt8
  /-- `((seed as f64) / (u64::MAX as f64)).to_string()` -/
  randomText : Nat → String
  parseF64 : String → Option F64
  uuidText : (Fin 16 → UInt8) → String
  toRfc3339 : Timestamp → String
  parseRfc3339 : String → Option Timestamp
  /-- A formatted instant reads back as itself. -/
  parse_toRfc3339 : ∀ t, parseRfc3339 (toRfc3339 t) = some t

/-- The operations that are numbered. -/
inductive Operation where
  | random
  | time
  | uuid
deriving DecidableEq, Repr

def Operation.name : Operation → String
  | random => "random"
  | time => "time"
  | uuid => "uuid"

namespace Operation

theorem name_injective : Function.Injective Operation.name := by
  intro operation operation' h
  revert h
  cases operation <;> cases operation' <;> decide

theorem colon_notMem_name (operation : Operation) : ':' ∉ operation.name.toList := by
  cases operation <;> decide

theorem name_ne_counter (operation : Operation) : operation.name ≠ "counter" := by
  cases operation <;> decide

theorem name_ne_workflow (operation : Operation) : operation.name ≠ "workflow" := by
  cases operation <;> decide

end Operation

/-- The keys under which an executor keeps workflow data. -/
inductive DataKey where
  | value (operation : Operation) (sequence : Nat)
  | counter (operation : Operation)
  | baseTime
deriving DecidableEq, Repr

def DataKey.text : DataKey → String
  | value operation sequence => operation.name ++ ":" ++ toString sequence
  | counter operation => "counter:" ++ operation.name
  | baseTime => "workflow:base_time"

namespace DataKey

/-- What stands before the colon of a key. -/
def heading : DataKey → String
  | value operation _ => operation.name
  | counter _ => "counter"
  | baseTime => "workflow"

/-- What stands after it. -/
def rest : DataKey → String
  | value _ sequence => toString sequence
  | counter operation => operation.name
  | baseTime => "base_time"

theorem text_eq (key : DataKey) : key.text = key.heading ++ ":" ++ key.rest := by
  cases key with
  | value operation sequence => rfl
  | counter operation => cases operation <;> rfl
  | baseTime => rfl

theorem colon_notMem_heading (key : DataKey) : ':' ∉ key.heading.toList := by
  cases key with
  | value operation sequence => exact operation.colon_notMem_name
  | counter operation => simp [heading]
  | baseTime => simp [heading]

theorem toString_injective : Function.Injective (toString : Nat → String) := by
  intro m n h
  have hdigits : Nat.toDigits 10 m = Nat.toDigits 10 n := by
    simpa [Nat.repr] using congrArg String.toList h
  rw [← Nat.ofDigitChars_ten_toDigits (n := m), ← Nat.ofDigitChars_ten_toDigits (n := n), hdigits]

/-- Different keys are stored under different texts. -/
theorem text_injective : Function.Injective DataKey.text := by
  intro key key' h
  rw [text_eq, text_eq] at h
  have hlist := congrArg String.toList h
  simp only [String.toList_append, List.append_assoc] at hlist
  obtain ⟨hheading, hrest⟩ := Text.append_cons_inj_left (colon_notMem_heading key)
    (colon_notMem_heading key') hlist
  have hheading := String.toList_injective hheading
  have hrest := String.toList_injective hrest
  cases key with
  | value operation sequence =>
      cases key' with
      | value operation' sequence' =>
          rw [Operation.name_injective hheading, toString_injective hrest]
      | counter operation' => exact absurd hheading operation.name_ne_counter
      | baseTime => exact absurd hheading operation.name_ne_workflow
  | counter operation =>
      cases key' with
      | value operation' sequence' => exact absurd hheading.symm operation'.name_ne_counter
      | counter operation' => rw [Operation.name_injective hrest]
      | baseTime => simp [heading] at hheading
  | baseTime =>
      cases key' with
      | value operation' sequence' => exact absurd hheading.symm operation'.name_ne_workflow
      | counter operation' => simp [heading] at hheading
      | baseTime => rfl

end DataKey

/-- Workflow data: one text for each workflow and key. -/
abbrev WorkflowData := AList fun _ : InvocationId × String => String

inductive DataCall where
  | getWorkflowData (workflow : InvocationId) (key : DataKey)
  | setWorkflowData (workflow : InvocationId) (key : DataKey) (value : String)
  | utcNow
deriving DecidableEq, Repr

abbrev DataCall.Ret : DataCall → Type
  | .getWorkflowData _ _ => Option String
  | .setWorkflowData _ _ _ => Unit
  | .utcNow => Timestamp

abbrev dataCalls : Interface := ⟨DataCall, DataCall.Ret⟩

def getWorkflowData (workflow : InvocationId) (key : DataKey) : Prog dataCalls (Option String) :=
  Prog.request (I := dataCalls) (.getWorkflowData workflow key)

def setWorkflowData (workflow : InvocationId) (key : DataKey) (value : String) :
    Prog dataCalls Unit :=
  Prog.request (I := dataCalls) (.setWorkflowData workflow key value)

def readClock : Prog dataCalls Timestamp :=
  Prog.request (I := dataCalls) .utcNow

/-! ## The executor -/

structure DeterministicExecutor where
  workflowId : InvocationId
  operationCounters : Operation → Nat

namespace DeterministicExecutor

def new (workflowId : InvocationId) : DeterministicExecutor :=
  ⟨workflowId, fun _ => 0⟩

def getOperationCount (executor : DeterministicExecutor) (operation : Operation) : Nat :=
  executor.operationCounters operation

def getNextSequence (executor : DeterministicExecutor) (operation : Operation) :
    Nat × DeterministicExecutor :=
  let counter := executor.operationCounters operation + 1
  (counter,
    { executor with
      operationCounters := Function.update executor.operationCounters operation counter })

/-- `s.parse::<u64>().ok()`: digits, perhaps after a plus sign. -/
def parseU64 (text : String) : Option Nat :=
  let digits := match text.toList with
    | '+' :: rest => rest
    | chars => chars
  if digits ≠ [] ∧ digits.all Char.isDigit = true then
    let n := Nat.ofDigitChars 10 digits 0
    if n < 2 ^ 64 then some n else none
  else none

/-- A counter reads back as itself, or not at all. -/
theorem parseU64_toString {m n : Nat} (h : parseU64 (toString m) = some n) : n = m := by
  have hdigits : (toString m).toList = Nat.toDigits 10 m := by simp [Nat.repr]
  have hplus : ∀ rest, Nat.toDigits 10 m ≠ '+' :: rest := by
    intro rest heq
    have hdigit : Char.isDigit '+' = true :=
      Nat.isDigit_of_mem_toDigits (b := 10) (n := m) (by omega) (by omega)
        (by rw [heq]; exact List.mem_cons_self)
    revert hdigit
    decide
  have hbody : (match Nat.toDigits 10 m with
      | '+' :: rest => rest
      | chars => chars) = Nat.toDigits 10 m := by
    split
    · rename_i rest heq
      exact absurd heq (hplus rest)
    · rfl
  unfold parseU64 at h
  rw [hdigits, hbody] at h
  simp only [Nat.ofDigitChars_ten_toDigits] at h
  split at h
  · split at h
    · exact (Option.some.inj h).symm
    · cases h
  · cases h

/-- Return the stored value of this operation and sequence number, or generate and store
one. -/
def deterministicOperation (executor : DeterministicExecutor) (operation : Operation)
    (generator : Unit → String) : Prog dataCalls (String × DeterministicExecutor) := do
  let (sequence, executor) := executor.getNextSequence operation
  -- check for stored value (replay)
  match ← getWorkflowData executor.workflowId (.value operation sequence) with
  | some value => pure (value, executor)
  | none =>
      let value := generator ()
      setWorkflowData executor.workflowId (.value operation sequence) value
      -- update total count
      let stored ← getWorkflowData executor.workflowId (.counter operation)
      let currentTotal := (stored.bind parseU64).getD 0
      setWorkflowData executor.workflowId (.counter operation)
        (toString (max currentTotal sequence))
      pure (value, executor)

def getBaseTime (lib : Library) (executor : DeterministicExecutor) : Prog dataCalls Timestamp := do
  match ← getWorkflowData executor.workflowId .baseTime with
  | some stored =>
      match lib.parseRfc3339 stored with
      | some dt => pure dt
      | none => readClock
  | none =>
      let baseTime ← readClock
      setWorkflowData executor.workflowId .baseTime (lib.toRfc3339 baseTime)
      pure baseTime

/-- The first eight bytes of a digest, read as a little-endian number. -/
def seedOf (digest : Fin 32 → UInt8) : Nat :=
  (List.finRange 8).foldr (fun i n => (digest (i.castLE (by omega))).toNat + 256 * n) 0

/-- The generator of `random`. -/
def generateRandom (lib : Library) (workflowId : InvocationId) (seq : Nat) : String :=
  lib.randomText (seedOf (lib.sha256 (workflowId.raw ++ ":random:" ++ toString seq)))

def random (lib : Library) (executor : DeterministicExecutor) :
    Prog dataCalls (F64 × DeterministicExecutor) := do
  let seq := executor.getOperationCount .random + 1
  let (valueStr, executor) ← executor.deterministicOperation .random
    fun _ => generateRandom lib executor.workflowId seq
  pure ((lib.parseF64 valueStr).getD (.finite 0), executor)

/-- `chrono::Duration::seconds` -/
def seconds (n : Nat) : Int :=
  n * 1000000000

/-- The generator of `utc_now`. -/
def generateTime (lib : Library) (baseTime : Timestamp) (seq : Nat) : String :=
  lib.toRfc3339 (baseTime + seconds seq)

def utcNow (lib : Library) (executor : DeterministicExecutor) :
    Prog dataCalls (Timestamp × DeterministicExecutor) := do
  let baseTime ← executor.getBaseTime lib
  let seq := executor.getOperationCount .time + 1
  let (valueStr, executor) ← executor.deterministicOperation .time
    fun _ => generateTime lib baseTime seq
  match lib.parseRfc3339 valueStr with
  | some dt => pure (dt, executor)
  | none =>
      let now ← readClock
      pure (now, executor)

/-- A UUID has sixteen bytes. -/
instance neZero_sixteen : NeZero 16 := ⟨by decide⟩

/-- Sixteen bytes of a digest with the version and variant bits of a UUID. -/
def uuidBytes (digest : Fin 32 → UInt8) (i : Fin 16) : UInt8 :=
  let byte := digest (i.castLE (by omega))
  if i = 6 then byte &&& 0x0f ||| 0x40
  else if i = 8 then byte &&& 0x3f ||| 0x80
  else byte

/-- The generator of `uuid`. -/
def generateUuid (lib : Library) (workflowId : InvocationId) (seq : Nat) : String :=
  lib.uuidText (uuidBytes (lib.sha256 (workflowId.raw ++ ":uuid:" ++ toString seq)))

def uuid (lib : Library) (executor : DeterministicExecutor) :
    Prog dataCalls (String × DeterministicExecutor) := do
  let seq := executor.getOperationCount .uuid + 1
  executor.deterministicOperation .uuid fun _ => generateUuid lib executor.workflowId seq

end DeterministicExecutor

/-! ## Executions -/

/-- What a call of a workflow returned. -/
inductive WorkflowValue where
  | random (value : F64)
  | time (value : Timestamp)
  | uuid (value : String)
deriving DecidableEq

/-- The operation a value came from. -/
def WorkflowValue.operation : WorkflowValue → Operation
  | random _ => .random
  | time _ => .time
  | uuid _ => .uuid

/-- One call of a workflow. -/
def perform (lib : Library) (executor : DeterministicExecutor) :
    Operation → Prog dataCalls (WorkflowValue × DeterministicExecutor)
  | .random => do
      let (value, executor) ← executor.random lib
      pure (.random value, executor)
  | .time => do
      let (value, executor) ← executor.utcNow lib
      pure (.time value, executor)
  | .uuid => do
      let (value, executor) ← executor.uuid lib
      pure (.uuid value, executor)

/-- The calls of a workflow, one after the other. -/
def execute (lib : Library) (executor : DeterministicExecutor) :
    List Operation → Prog dataCalls (List WorkflowValue)
  | [] => pure []
  | operation :: rest => do
      let (value, executor) ← perform lib executor operation
      let values ← execute lib executor rest
      pure (value :: values)

/-- One execution: the workflow, and the calls it makes. -/
structure Execution where
  workflow : InvocationId
  calls : List Operation
deriving DecidableEq, Repr

/-- The first calls of an execution, by a fresh executor. -/
def Execution.first (lib : Library) (execution : Execution) (n : Nat) :
    Prog dataCalls (List WorkflowValue) :=
  execute lib (.new execution.workflow) (execution.calls.take n)

def exec (clock : Timestamp) : (c : DataCall) → WorkflowData → c.Ret × WorkflowData
  | .getWorkflowData workflow key, data => (data.lookup (workflow, key.text), data)
  | .setWorkflowData workflow key value, data => ((), data.insert (workflow, key.text) value)
  | .utcNow, data => (clock, data)

/-- Any number of executions; an execution that is stopped makes no further call. -/
def workflowMachine (lib : Library) : Machine dataCalls WorkflowData Timestamp Execution where
  exec := exec
  program execution := (execution.first lib execution.calls.length).toUnit

/-- A backend on which no execution has started. -/
def idle (data : WorkflowData) : System dataCalls WorkflowData Execution :=
  ⟨data, []⟩

/-- What is stored for a workflow under a key. -/
def stored (data : WorkflowData) (workflow : InvocationId) (key : DataKey) : Option String :=
  data.lookup (workflow, key.text)

@[simp] theorem stored_insert_self (data : WorkflowData) (workflow : InvocationId) (key : DataKey)
    (value : String) :
    stored (data.insert (workflow, key.text) value) workflow key = some value :=
  AList.lookup_insert _

theorem stored_insert_of_ne {data : WorkflowData} {workflow workflow' : InvocationId}
    {key key' : DataKey} {value : String} (h : (workflow', key') ≠ (workflow, key)) :
    stored (data.insert (workflow, key.text) value) workflow' key' = stored data workflow' key' := by
  refine AList.lookup_insert_ne fun heq => h ?_
  rw [Prod.mk.injEq] at heq
  rw [heq.1, DataKey.text_injective heq.2]

/-- The total that the counter of an operation shows. -/
def storedCounter (data : WorkflowData) (workflow : InvocationId) (operation : Operation) : Nat :=
  ((stored data workflow (.counter operation)).bind DeterministicExecutor.parseU64).getD 0

end Rustvello.Workflow
