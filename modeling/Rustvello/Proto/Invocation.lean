import Rustvello.Proto.Status
import Mathlib.Data.String.Basic

/-!
# Calls, invocations and their history

The data that travels between the ports (`identifiers.rs`, `call.rs` and
`invocation.rs` of `rustvello-proto`):

* identifiers of tasks, calls and invocations;
* `SerializedArguments`, a map sorted by key, with the pairs under which
  concurrency control indexes it (`ccArgPairs`) and the digest that names it
  (`computeArgsId`);
* `CallDTO`, `InvocationDTO`, `InvocationHistory` and the identities an
  invocation carries.

A map of the source that is keyed by the `Display` text of an identifier is keyed
by the identifier here.
-/

namespace Rustvello.Proto

/-- Invocation identities are opaque strings (UUIDs when the runtime makes them). -/
structure InvocationId where
  raw : String
deriving DecidableEq, Repr

/-- The runtime that owns and executes a task. -/
inductive TaskLanguage where
  | rust
  | python
deriving DecidableEq, Repr

def TaskLanguage.asStr : TaskLanguage → String
  | rust => "rust"
  | python => "python"

/-- A task definition: language, module path and function name. -/
structure TaskId where
  language : TaskLanguage
  module : String
  name : String
deriving DecidableEq, Repr

/-- `Display`: `language::module.name`. -/
def TaskId.toText (t : TaskId) : String :=
  t.language.asStr ++ "::" ++ t.module ++ "." ++ t.name

/-- A task with specific arguments. -/
structure CallId where
  taskId : TaskId
  argsId : String
deriving DecidableEq, Repr

/-- `Display`: `task_id:args_id`. -/
def CallId.toText (c : CallId) : String :=
  c.taskId.toText ++ ":" ++ c.argsId

/-! ## Arguments -/

/-- Serialized arguments: key-value pairs sorted by key, each key once. -/
structure SerializedArguments where
  entries : List (String × String)
  sorted : (entries.map Prod.fst).Pairwise (· < ·)
deriving DecidableEq, Repr

namespace SerializedArguments

/-- No arguments (`new`, `default`). -/
def empty : SerializedArguments :=
  ⟨[], List.Pairwise.nil⟩

/-- Entries are compared by equality. -/
instance lawfulBEqEntry : LawfulBEq (String × String) := inferInstance

/-- Sorted insertion; an equal key is replaced. -/
def insertEntry (key value : String) : List (String × String) → List (String × String)
  | [] => [(key, value)]
  | (k, v) :: rest =>
      if key < k then (key, value) :: (k, v) :: rest
      else if key = k then (key, value) :: rest
      else (k, v) :: insertEntry key value rest

theorem fst_mem_insertEntry {key value k : String} {entries : List (String × String)}
    (h : k ∈ (insertEntry key value entries).map Prod.fst) :
    k = key ∨ k ∈ entries.map Prod.fst := by
  induction entries with
  | nil => simpa [insertEntry] using h
  | cons entry rest ih =>
      obtain ⟨k', v'⟩ := entry
      simp only [insertEntry] at h
      split at h
      · simpa using h
      · split at h
        · rename_i hkey
          subst hkey
          simp only [List.map_cons, List.mem_cons] at h ⊢
          exact h.imp id .inr
        · simp only [List.map_cons, List.mem_cons] at h ⊢
          rcases h with h | h
          · exact .inr (.inl h)
          · exact (ih h).imp id .inr

theorem insertEntry_sorted (key value : String) {entries : List (String × String)}
    (h : (entries.map Prod.fst).Pairwise (· < ·)) :
    ((insertEntry key value entries).map Prod.fst).Pairwise (· < ·) := by
  induction entries with
  | nil => simp [insertEntry]
  | cons entry rest ih =>
      obtain ⟨k, v⟩ := entry
      rw [List.map_cons, List.pairwise_cons] at h
      obtain ⟨hhead, hrest⟩ := h
      simp only [insertEntry]
      split
      · rename_i hlt
        refine List.pairwise_cons.mpr ⟨?_, List.pairwise_cons.mpr ⟨hhead, hrest⟩⟩
        intro k' hk'
        rcases List.mem_cons.mp hk' with rfl | hk'
        · exact hlt
        · exact lt_trans hlt (hhead k' hk')
      · split
        · rename_i hkey
          subst hkey
          exact List.pairwise_cons.mpr ⟨hhead, hrest⟩
        · rename_i hlt hne
          refine List.pairwise_cons.mpr ⟨?_, ih hrest⟩
          intro k' hk'
          rcases fst_mem_insertEntry hk' with rfl | hk'
          · exact lt_of_le_of_ne (not_lt.mp hlt) (Ne.symm hne)
          · exact hhead k' hk'

def insert (args : SerializedArguments) (key value : String) : SerializedArguments :=
  ⟨insertEntry key value args.entries, insertEntry_sorted key value args.sorted⟩

def get? (args : SerializedArguments) (key : String) : Option String :=
  (args.entries.find? fun entry => entry.1 = key).map Prod.snd

def isEmpty (args : SerializedArguments) : Bool :=
  args.entries.isEmpty

/-- The pairs under which concurrency control indexes a call.  The empty map has
a sentinel pair, so that it is still indexed. -/
def ccArgPairs (args : SerializedArguments) : List (String × String) :=
  if args.entries.isEmpty then [("", "")] else args.entries

theorem ccArgPairs_ne_nil (args : SerializedArguments) : args.ccArgPairs ≠ [] := by
  unfold ccArgPairs
  split
  · simp
  · rename_i h
    simpa using h

/-- A hexadecimal digit, lower case. -/
def hexDigit (n : Nat) : Char :=
  if n < 10 then Char.ofNat (48 + n) else Char.ofNat (87 + n)

/-- JSON escaping of one character, as `serde_json` writes it. -/
def jsonEscapeChar (c : Char) : List Char :=
  if c = '"' then ['\\', '"']
  else if c = '\\' then ['\\', '\\']
  else if c = Char.ofNat 8 then ['\\', 'b']
  else if c = Char.ofNat 9 then ['\\', 't']
  else if c = Char.ofNat 10 then ['\\', 'n']
  else if c = Char.ofNat 12 then ['\\', 'f']
  else if c = Char.ofNat 13 then ['\\', 'r']
  else if c.toNat < 32 then
    ['\\', 'u', '0', '0', hexDigit (c.toNat / 16), hexDigit (c.toNat % 16)]
  else [c]

/-- A string as a JSON literal. -/
def jsonString (s : String) : List Char :=
  '"' :: s.toList.flatMap jsonEscapeChar ++ ['"']

/-- The text the digest reads: every pair as `"key"="value";`. -/
def digestInput (args : SerializedArguments) : List Char :=
  args.entries.flatMap fun entry =>
    jsonString entry.1 ++ '=' :: jsonString entry.2 ++ [';']

/-- The `args_id` of a call.  `sha256Hex` is the lower-case hexadecimal SHA-256
of a text. -/
def computeArgsId (sha256Hex : List Char → String) (args : SerializedArguments) : String :=
  if args.isEmpty then "no_args" else sha256Hex args.digestInput

end SerializedArguments

/-- A call: a task with its arguments. -/
structure CallDTO where
  callId : CallId
  taskId : TaskId
  serializedArguments : SerializedArguments
deriving DecidableEq, Repr

def CallDTO.new (sha256Hex : List Char → String) (taskId : TaskId) (args : SerializedArguments) :
    CallDTO where
  callId := ⟨taskId, args.computeArgsId sha256Hex⟩
  taskId := taskId
  serializedArguments := args

/-! ## Invocations -/

/-- W3C trace context persisted with an invocation. -/
structure TraceContextCarrier where
  traceparent : Option String := none
  tracestate : Option String := none
deriving DecidableEq, Repr, Inhabited

def TraceContextCarrier.isEmpty (c : TraceContextCarrier) : Bool :=
  c.traceparent.isNone && c.tracestate.isNone

/-- Identity of the latest execution of an invocation. -/
structure ExecutionAttemptIdentity where
  attempt : Nat
  executionTraceContext : TraceContextCarrier
  previousAttemptTraceContext : TraceContextCarrier
deriving DecidableEq, Repr

/-- The workflow an invocation belongs to. -/
structure WorkflowIdentity where
  workflowId : InvocationId
  workflowType : TaskId
  parentId : Option InvocationId
  depth : Nat
deriving DecidableEq, Repr

/-- The stored form of an invocation; its arguments are in the call. -/
structure InvocationDTO where
  invocationId : InvocationId
  taskId : TaskId
  callId : CallId
  status : InvocationStatus
  createdAt : Timestamp
  updatedAt : Timestamp
  parentInvocationId : Option InvocationId
  workflow : Option WorkflowIdentity
  traceContext : TraceContextCarrier
deriving DecidableEq, Repr

def InvocationDTO.new (now : Timestamp) (invocationId : InvocationId) (taskId : TaskId)
    (callId : CallId) : InvocationDTO where
  invocationId := invocationId
  taskId := taskId
  callId := callId
  status := .registered
  createdAt := now
  updatedAt := now
  parentInvocationId := none
  workflow := none
  traceContext := {}

/-- An audit entry for a status change. -/
structure InvocationHistory where
  invocationId : InvocationId
  statusRecord : InvocationStatusRecord
  message : Option String
  runnerId : Option RunnerId
  registeredByInvId : Option InvocationId
  historyTimestamp : Option Timestamp
deriving DecidableEq, Repr

namespace InvocationHistory

def new (invocationId : InvocationId) (statusRecord : InvocationStatusRecord)
    (message : Option String) : InvocationHistory where
  invocationId := invocationId
  statusRecord := statusRecord
  message := message
  runnerId := none
  registeredByInvId := none
  historyTimestamp := none

def withRunner (history : InvocationHistory) (runnerId : RunnerId) : InvocationHistory :=
  { history with runnerId := some runnerId }

end InvocationHistory

end Rustvello.Proto
