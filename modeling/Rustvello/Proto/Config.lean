import Rustvello.Proto.Invocation
import Mathlib.Algebra.Order.Ring.Rat
import Mathlib.Data.Rat.Floor
import Mathlib.Tactic.Linarith

/-!
# Task and application configuration

The configuration values the orchestration code reads (`config.rs` of
`rustvello-proto`), the overrides that are layered over a task's own configuration
(`task_config.rs`), and the catalog that resolves them (`task_catalog.rs`):

* `TaskConfig`, `AppConfig` — with the retry delay and the concurrency key that
  are computed from them;
* `TaskConfigOverride.applyTo`, `TaskCatalog.resolveConfig` — the layers.

A 64-bit float is its exact value, the negative zero, or one of the values that are not
finite (`F64`); arithmetic on finite floats is the arithmetic of the rationals.
-/

namespace Rustvello.Proto

/-- A 64-bit float: an exact finite value, the negative zero, or a value that is not
finite. -/
inductive F64 where
  | finite (value : ℚ)
  | negZero
  | negInf
  | posInf
  | nan
deriving DecidableEq

namespace F64

def isFinite : F64 → Bool
  | finite _ => true
  | negZero => true
  | _ => false

/-- `total_cmp` as an order test: infinities are the ends, NaN is above all, and the
negative zero is just below zero. -/
def totalLe : F64 → F64 → Bool
  | negInf, _ => true
  | finite _, negInf => false
  | finite a, finite b => a ≤ b
  | finite a, negZero => a < 0
  | finite _, _ => true
  | negZero, negInf => false
  | negZero, finite b => 0 ≤ b
  | negZero, _ => true
  | posInf, posInf => true
  | posInf, nan => true
  | posInf, _ => false
  | nan, nan => true
  | nan, _ => false

theorem totalLe_total (a b : F64) : a.totalLe b = true ∨ b.totalLe a = true := by
  cases a <;> cases b <;> simp [totalLe, le_total, lt_or_ge, le_or_gt]

theorem totalLe_trans {a b c : F64} (hab : a.totalLe b = true) (hbc : b.totalLe c = true) :
    a.totalLe c = true := by
  cases a <;> cases b <;> cases c <;>
    simp only [totalLe, decide_eq_true_eq, Bool.false_eq_true] at hab hbc ⊢ <;> linarith

/-- The number a float stands for: both zeros are one. -/
def unsigned : F64 → F64
  | negZero => finite 0
  | value => value

/-- Order of two numbers, as databases compare them. -/
def numericLe (a b : F64) : Bool :=
  a.unsigned.totalLe b.unsigned

end F64

/-- How concurrent invocations of one task are restricted. -/
inductive ConcurrencyControlType where
  | unlimited
  | task
  | argument
  | none
deriving DecidableEq, Repr

inductive RetryJitter where
  | none
  | full
  | equal
deriving DecidableEq, Repr

inductive QueueSelectionStrategy where
  | roundRobin
  | ordered
  | random
deriving DecidableEq, Repr

/-- The configuration of one task, with the defaults of the source. -/
structure TaskConfig where
  queue : String := "default"
  priority : F64 := .finite 0
  maxRetries : Nat := 0
  retryForErrors : List String := []
  concurrencyControl : ConcurrencyControlType := .unlimited
  runningConcurrency : Option Nat := none
  registrationConcurrency : ConcurrencyControlType := .unlimited
  cacheResults : Bool := false
  keyArguments : List String := []
  isWorkflowTask : Bool := false
  rerouteOnCc : Bool := false
  retryDelayMs : Nat := 0
  retryMaxDelayMs : Nat := 300000
  retryBackoff : F64 := .finite 2
  retryJitter : RetryJitter := .equal
  timeoutMs : Option Nat := none
  retryOnTimeout : Bool := true
deriving DecidableEq

namespace TaskConfig

/-- How many other slots an admission may find taken at most, plus one. -/
def limit (config : TaskConfig) : Nat :=
  config.runningConcurrency.getD 1

/-- Growth factor of the retry delay; values below one or not finite count as one. -/
def backoffFactor (config : TaskConfig) : ℚ :=
  match config.retryBackoff with
  | .finite factor => if 1 ≤ factor then factor else 1
  | _ => 1

/-- `random_unit` clamped to the unit interval. -/
def clampUnit : F64 → ℚ
  | .finite unit => max 0 (min unit 1)
  | _ => 0

/-- Delay in milliseconds before retry number `retryCount + 1`. -/
def retryDelay (config : TaskConfig) (retryCount : Nat) (randomUnit : F64) : Nat :=
  if config.retryDelayMs = 0 then 0
  else
    let cap : ℚ := (max config.retryMaxDelayMs 1 : Nat)
    let base : ℚ := min ((config.retryDelayMs : ℚ) * config.backoffFactor ^ retryCount) cap
    let unit := clampUnit randomUnit
    let millis : ℚ := match config.retryJitter with
      | .none => base
      | .full => base * unit
      | .equal => base / 2 + base / 2 * unit
    (round millis).toNat

/-- The deadline of one attempt, if any. -/
def timeout (config : TaskConfig) : Option Nat :=
  config.timeoutMs.filter fun ms => 0 < ms

end TaskConfig

structure BrokerPriorityRule where
  taskId : String
  priority : F64
deriving DecidableEq

/-- The part of the application configuration that orchestration reads. -/
structure AppConfig where
  appId : String := "rustvello"
  brokerQueues : List String := ["default"]
  runnerQueues : List String := []
  queueSelectionStrategy : QueueSelectionStrategy := .roundRobin
  priorityRules : List BrokerPriorityRule := []
  maxPendingSeconds : Nat := 300
  runnerDeadAfterSeconds : Nat := 300
  maxInvocationRecoveries : Nat := 3
  cancellationCheckIntervalSeconds : F64 := .finite 1
deriving DecidableEq

/-! ## Concurrency keys -/

/-- The arguments that make two invocations of a task compete for a slot. -/
def concurrencyArguments (mode : ConcurrencyControlType) (keyArguments : List String)
    (args : SerializedArguments) : Option SerializedArguments :=
  match mode with
  | .unlimited => none
  | .task => some .empty
  | .argument =>
      if keyArguments.isEmpty then some args
      else some <| keyArguments.foldl (fun filtered key =>
        match args.get? key with
        | some value => filtered.insert key value
        | none => filtered) .empty
  | .none => some args

/-! ## Layers of configuration -/

/-- Partial overrides: a field that is set replaces the configured value. -/
structure TaskConfigOverride where
  queue : Option String := none
  priority : Option F64 := none
  maxRetries : Option Nat := none
  concurrencyControl : Option ConcurrencyControlType := none
  runningConcurrency : Option (Option Nat) := none
  registrationConcurrency : Option ConcurrencyControlType := none
  cacheResults : Option Bool := none
  keyArguments : Option (List String) := none
  retryForErrors : Option (List String) := none
  isWorkflowTask : Option Bool := none
  rerouteOnCc : Option Bool := none
  retryDelayMs : Option Nat := none
  retryMaxDelayMs : Option Nat := none
  retryBackoff : Option F64 := none
  retryJitter : Option RetryJitter := none
  timeoutMs : Option (Option Nat) := none
  retryOnTimeout : Option Bool := none

def TaskConfigOverride.applyTo (o : TaskConfigOverride) (config : TaskConfig) : TaskConfig where
  queue := o.queue.getD config.queue
  priority := o.priority.getD config.priority
  maxRetries := o.maxRetries.getD config.maxRetries
  retryForErrors := o.retryForErrors.getD config.retryForErrors
  concurrencyControl := o.concurrencyControl.getD config.concurrencyControl
  runningConcurrency := o.runningConcurrency.getD config.runningConcurrency
  registrationConcurrency := o.registrationConcurrency.getD config.registrationConcurrency
  cacheResults := o.cacheResults.getD config.cacheResults
  keyArguments := o.keyArguments.getD config.keyArguments
  isWorkflowTask := o.isWorkflowTask.getD config.isWorkflowTask
  rerouteOnCc := o.rerouteOnCc.getD config.rerouteOnCc
  retryDelayMs := o.retryDelayMs.getD config.retryDelayMs
  retryMaxDelayMs := o.retryMaxDelayMs.getD config.retryMaxDelayMs
  retryBackoff := o.retryBackoff.getD config.retryBackoff
  retryJitter := o.retryJitter.getD config.retryJitter
  timeoutMs := o.timeoutMs.getD config.timeoutMs
  retryOnTimeout := o.retryOnTimeout.getD config.retryOnTimeout

/-- Task definitions and the overrides over them.  `envOverride` is what the
environment variables of a task name give, and `globMatches` the pattern test of
the priority rules; both come from outside the repository. -/
structure TaskCatalog where
  registry : TaskId → Option TaskConfig
  taskConfigOverrides : String → Option TaskConfigOverride := fun _ => none
  taskDefaultsOverride : TaskConfigOverride := {}
  envOverride : String → TaskConfigOverride := fun _ => {}
  globMatches : String → String → Bool := fun _ _ => false

namespace TaskCatalog

/-- `max_by(total_cmp)`: the last of the greatest values. -/
def maxPriority : List F64 → Option F64
  | [] => none
  | p :: rest =>
      match maxPriority rest with
      | none => some p
      | some best => if p.totalLe best then some best else some p

/-- The effective configuration of a task. -/
def resolveConfig (catalog : TaskCatalog) (app : AppConfig) (taskId : TaskId)
    (base : TaskConfig) : TaskConfig :=
  let config := catalog.taskDefaultsOverride.applyTo base
  let config := match catalog.taskConfigOverrides taskId.name with
    | some perTask => perTask.applyTo config
    | none => config
  let config := (catalog.envOverride taskId.name).applyTo config
  let matching := app.priorityRules.filter fun rule =>
    catalog.globMatches rule.taskId taskId.toText
  { config with
    priority := (maxPriority (matching.map BrokerPriorityRule.priority)).getD config.priority }

def routingFor (catalog : TaskCatalog) (app : AppConfig) (taskId : TaskId) :
    Option (String × F64) :=
  (catalog.registry taskId).map fun base =>
    let config := catalog.resolveConfig app taskId base
    (config.queue, config.priority)

end TaskCatalog

end Rustvello.Proto
