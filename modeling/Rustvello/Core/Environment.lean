import Rustvello.Core.Ports

/-!
# What the surroundings decide

The answers that no store determines: clock readings, random numbers, the iteration
order of hash maps, the satisfied triggers, and what user code and middleware do.
A run picks an `Env` afresh for every call, so a statement about all runs is a
statement about all of these.
-/

namespace Rustvello.Core

open Proto

structure Env where
  clock : Timestamp := 0
  /-- Preferred iteration order of the invocations in a hash map. -/
  order : List InvocationId := []
  /-- Preferred order of queues that are shuffled. -/
  queueOrder : List String := []
  /-- Preferred iteration order of the trigger runs in a hash map. -/
  runOrder : List String := []
  randomUnit : F64 := .finite 0
  traceContext : TraceContextCarrier := {}
  middleware : RustvelloResult Unit := .ok ()
  /-- The cancellation check of a supervised attempt fires before the attempt ends. -/
  ticked : Bool := false
  /-- The deadline of a supervised attempt expires before the attempt ends. -/
  overdue : Bool := false
  result : RustvelloResult String := .ok ""
  firings : List TriggerFiring := []
  /-- The boundary of a transaction at which a fault is injected. -/
  failpoint : Option String := none
  /-- Preferred order in which a query visits the rows of a table. -/
  rowOrder : List Nat := []

/-- An iteration order of a key set: the preferred keys first, then the rest.
Every permutation of the keys is one of these. -/
def arrange {K : Type} [DecidableEq K] (preferred keys : List K) : List K :=
  preferred.dedup.filter (fun id => id ∈ keys) ++ keys.filter (fun id => id ∉ preferred)

theorem mem_arrange {K : Type} [DecidableEq K] (preferred keys : List K) (k : K) :
    k ∈ arrange preferred keys ↔ k ∈ keys := by
  by_cases h : k ∈ preferred <;> simp [arrange, h]

theorem nodup_arrange {K : Type} [DecidableEq K] (preferred : List K) {keys : List K}
    (h : keys.Nodup) : (arrange preferred keys).Nodup := by
  refine List.nodup_append.mpr ⟨(List.nodup_dedup preferred).filter _, h.filter _, ?_⟩
  intro a ha b hb hab
  have hin : a ∈ preferred := List.mem_dedup.mp (List.mem_filter.mp ha).1
  have hout : b ∉ preferred := by simpa using (List.mem_filter.mp hb).2
  exact hout (hab ▸ hin)

/-- `allocate_execution_trace_context`: a fresh span below the parent. -/
def Env.allocateTraceContext (env : Env) (_parent : TraceContextCarrier) : TraceContextCarrier :=
  env.traceContext

/-- Error recorded for an attempt that exceeded its deadline. -/
def timeoutError (timeoutMs : Nat) : RustvelloError :=
  .taskExecution "TaskTimeoutError"
    ("attempt exceeded its execution deadline of " ++ toString timeoutMs ++ " ms") none

/-- `supervise`: the attempt's own result, unless the deadline expires or a check
reads a cancelled status first.  Checks that read another status change nothing,
so only the last one is a call. -/
def Env.supervise (env : Env) (id : InvocationId) (status : Option InvocationStatus)
    (timeoutMs : Option Nat) (cancelCheck : Bool) : AttemptOutcome :=
  if cancelCheck && env.ticked && decide (status = some .cancelled) then
    ⟨.error (.invocationCancelled id), some .cancelled⟩
  else
    match timeoutMs with
    | some timeout =>
        if env.overdue then ⟨.error (timeoutError timeout), some (.timedOut timeout)⟩
        else ⟨env.result, none⟩
    | none => ⟨env.result, none⟩

/-- The queues a runner polls, in the order of its strategy, and the next value of
the process-wide round-robin counter. -/
def queueNamesForRetrieval (env : Env) (config : AppConfig) (counter : Nat) : List String × Nat :=
  let queues := if config.runnerQueues.isEmpty then config.brokerQueues else config.runnerQueues
  match config.queueSelectionStrategy with
  | .ordered => (queues, counter)
  | .roundRobin =>
      if queues.isEmpty then (queues, counter)
      else (queues.rotate (counter % queues.length), (counter + 1) % 2 ^ 64)
  | .random => (arrange env.queueOrder queues, counter)

end Rustvello.Core
