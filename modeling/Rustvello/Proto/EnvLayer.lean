import Rustvello.Proto.Config
import Mathlib.Data.List.AList

/-!
# Configuration from environment variables

The highest layer under the priority rules: the variables
`RUSTVELLO__TASK__<NAME>__<FIELD>` of one task (`apply_task_env_overrides` of
`task_config.rs`, `get_or_load_env_override` of `task_catalog.rs`).  The variables are applied
to a default configuration, and a field of the result counts as set where it differs from the
default.

* `applyTaskEnvOverrides`, `loadEnvOverride`, `getOrLoadEnvOverride` — reading the variables,
  and the cache of what was read;
* `parsed`, `layered` — the values that the variables themselves give, and the layers over them;
* `NothingMistaken` — no variable gives the default of its field where a lower layer gives
  something else;
* `layering_iff` — exactly then the configuration is the one of the layers.
-/

namespace Rustvello.Proto

/-! ## Reading values -/

/-- What the standard library knows about text and numbers beyond ASCII digits. -/
structure TextRules where
  toUppercase : String → String
  toLowercase : String → String
  /-- `parse::<f64>` -/
  parseF64 : String → Option F64

/-- `parse::<u32>` and `parse::<u64>`: digits, perhaps after a plus sign. -/
def parseUnsigned (bits : Nat) (text : String) : Option Nat :=
  let digits := match text.toList with
    | '+' :: rest => rest
    | chars => chars
  if digits ≠ [] ∧ digits.all Char.isDigit = true then
    let n := Nat.ofDigitChars 10 digits 0
    if n < 2 ^ bits then some n else none
  else none

def parseBool : String → Option Bool
  | "true" => some true
  | "false" => some false
  | _ => none

def parseConcurrencyControlType (rules : TextRules) (text : String) :
    Option ConcurrencyControlType :=
  match rules.toLowercase text with
  | "unlimited" => some .unlimited
  | "task" => some .task
  | "argument" => some .argument
  | "none" => some .none
  | _ => none

/-- `RetryJitter::from_str`; upper case letters of ASCII count as lower case ones. -/
def parseRetryJitter (text : String) : Option RetryJitter :=
  match text.toLower with
  | "none" => some .none
  | "full" => some .full
  | "equal" => some .equal
  | _ => none

/-- `==` of floats: the zeros are equal, and NaN is equal to nothing. -/
def F64.eqIeee (a b : F64) : Bool :=
  decide (a ≠ .nan ∧ b ≠ .nan ∧ a.unsigned = b.unsigned)

/-! ## The variables of a task -/

/-- The variables that are set, with values that are text. -/
abbrev EnvVars := String → Option String

section Variables

variable (rules : TextRules) (env : EnvVars) (envPrefix : String)

/-- `env(prefix, key)` -/
def envValue (key : String) : Option String :=
  env (envPrefix ++ key)

/-- Overwrite what a variable gives; the two optional numbers are also overwritten by a value
that cannot be read. -/
def applyTaskEnvOverrides (config : TaskConfig) : TaskConfig :=
  let value := envValue env envPrefix
  { config with
    maxRetries := ((value "MAX_RETRIES").bind (parseUnsigned 32)).getD config.maxRetries
    queue := (value "QUEUE").getD config.queue
    priority := ((value "PRIORITY").bind rules.parseF64).getD config.priority
    concurrencyControl := ((value "CONCURRENCY_CONTROL").bind
      (parseConcurrencyControlType rules)).getD config.concurrencyControl
    runningConcurrency := ((value "RUNNING_CONCURRENCY").map (parseUnsigned 32)).getD
      config.runningConcurrency
    cacheResults := ((value "CACHE_RESULTS").bind parseBool).getD config.cacheResults
    isWorkflowTask := ((value "IS_WORKFLOW_TASK").bind parseBool).getD config.isWorkflowTask
    rerouteOnCc := ((value "REROUTE_ON_CC").bind parseBool).getD config.rerouteOnCc
    retryDelayMs := ((value "RETRY_DELAY_MS").bind (parseUnsigned 64)).getD config.retryDelayMs
    retryMaxDelayMs := ((value "RETRY_MAX_DELAY_MS").bind (parseUnsigned 64)).getD
      config.retryMaxDelayMs
    retryBackoff := ((value "RETRY_BACKOFF").bind rules.parseF64).getD config.retryBackoff
    retryJitter := ((value "RETRY_JITTER").bind parseRetryJitter).getD config.retryJitter
    -- 0 or an empty value clears the deadline
    timeoutMs := ((value "TIMEOUT_MS").map fun text =>
      (parseUnsigned 64 text).filter fun ms => 0 < ms).getD config.timeoutMs
    retryOnTimeout := ((value "RETRY_ON_TIMEOUT").bind parseBool).getD config.retryOnTimeout }

/-- `(value != base).then_some(value)` -/
def differing {α : Type} (eq : α → α → Bool) (base value : α) : Option α :=
  if eq value base then none else some value

/-- The override of one task: what its variables change in a default configuration. -/
def loadEnvOverride (taskName : String) : TaskConfigOverride :=
  let base : TaskConfig := {}
  let config := applyTaskEnvOverrides rules env
    ("RUSTVELLO__TASK__" ++ rules.toUppercase taskName ++ "__") {}
  { queue := differing (· == ·) base.queue config.queue
    priority := differing F64.eqIeee base.priority config.priority
    maxRetries := differing (· == ·) base.maxRetries config.maxRetries
    concurrencyControl := differing (fun a b => decide (a = b)) base.concurrencyControl
      config.concurrencyControl
    runningConcurrency := differing (· == ·) base.runningConcurrency config.runningConcurrency
    cacheResults := differing (· == ·) base.cacheResults config.cacheResults
    isWorkflowTask := differing (· == ·) base.isWorkflowTask config.isWorkflowTask
    rerouteOnCc := differing (· == ·) base.rerouteOnCc config.rerouteOnCc
    retryDelayMs := differing (· == ·) base.retryDelayMs config.retryDelayMs
    retryMaxDelayMs := differing (· == ·) base.retryMaxDelayMs config.retryMaxDelayMs
    retryBackoff := differing F64.eqIeee base.retryBackoff config.retryBackoff
    retryJitter := differing (fun a b => decide (a = b)) base.retryJitter config.retryJitter
    timeoutMs := differing (· == ·) base.timeoutMs config.timeoutMs
    retryOnTimeout := differing (· == ·) base.retryOnTimeout config.retryOnTimeout }

/-! ## The cache -/

/-- `env_override_cache`: what was read from the variables of the process, by task name. -/
structure EnvCache where
  entries : AList (fun _ : String => TaskConfigOverride)
  loaded : ∀ name override, entries.lookup name = some override →
    override = loadEnvOverride rules env name

/-- A cache in which nothing was looked up. -/
def EnvCache.empty : EnvCache rules env where
  entries := ∅
  loaded := by
    intro name override h
    simp at h

variable {rules env}

/-- Read the variables of a task at the first lookup only. -/
def getOrLoadEnvOverride (cache : EnvCache rules env) (taskName : String) :
    TaskConfigOverride × EnvCache rules env :=
  match cache.entries.lookup taskName with
  | some cached => (cached, cache)
  | none =>
      let override := loadEnvOverride rules env taskName
      (override,
        { entries := cache.entries.insert taskName override
          loaded := by
            intro name found h
            by_cases hname : name = taskName
            · subst hname
              rw [AList.lookup_insert] at h
              exact (Option.some.inj h).symm
            · rw [AList.lookup_insert_ne hname] at h
              exact cache.loaded name found h })

/-- A lookup gives what the variables say, in whatever order tasks were looked up before. -/
theorem getOrLoadEnvOverride_fst (cache : EnvCache rules env) (taskName : String) :
    (getOrLoadEnvOverride cache taskName).1 = loadEnvOverride rules env taskName := by
  unfold getOrLoadEnvOverride
  split
  · rename_i cached hcached
    exact cache.loaded taskName cached hcached
  · rfl

/-- The catalog of a process with its cache. -/
structure CachedCatalog (rules : TextRules) (env : EnvVars) where
  catalog : TaskCatalog
  cache : EnvCache rules env

namespace CachedCatalog

/-- `resolve_config` over the cache. -/
def resolveConfig (c : CachedCatalog rules env) (app : AppConfig) (taskId : TaskId)
    (base : TaskConfig) : TaskConfig × CachedCatalog rules env :=
  let (override, cache) := getOrLoadEnvOverride c.cache taskId.name
  let catalog := { c.catalog with envOverride := fun _ => override }
  (catalog.resolveConfig app taskId base, { c with cache := cache })

end CachedCatalog

end Variables

/-! ## What the variables give -/

/-- The values of the variables that are present and can be read; a deadline of 0 is none. -/
def parsed (rules : TextRules) (env : EnvVars) (taskName : String) : TaskConfigOverride :=
  let value := envValue env ("RUSTVELLO__TASK__" ++ rules.toUppercase taskName ++ "__")
  { maxRetries := (value "MAX_RETRIES").bind (parseUnsigned 32)
    queue := value "QUEUE"
    priority := (value "PRIORITY").bind rules.parseF64
    concurrencyControl := (value "CONCURRENCY_CONTROL").bind (parseConcurrencyControlType rules)
    runningConcurrency := ((value "RUNNING_CONCURRENCY").bind (parseUnsigned 32)).map some
    cacheResults := (value "CACHE_RESULTS").bind parseBool
    isWorkflowTask := (value "IS_WORKFLOW_TASK").bind parseBool
    rerouteOnCc := (value "REROUTE_ON_CC").bind parseBool
    retryDelayMs := (value "RETRY_DELAY_MS").bind (parseUnsigned 64)
    retryMaxDelayMs := (value "RETRY_MAX_DELAY_MS").bind (parseUnsigned 64)
    retryBackoff := (value "RETRY_BACKOFF").bind rules.parseF64
    retryJitter := (value "RETRY_JITTER").bind parseRetryJitter
    timeoutMs := ((value "TIMEOUT_MS").bind (parseUnsigned 64)).map fun ms =>
      if ms = 0 then none else some ms
    retryOnTimeout := (value "RETRY_ON_TIMEOUT").bind parseBool }

/-! ## Which variables take effect -/

/-- The value of a variable is not a default that a lower layer has replaced. -/
def Unmistakable {α : Type} (eq : α → α → Bool) (default lower : α) (value : Option α) : Prop :=
  ∀ v ∈ value, eq v default = true → lower = v

/-- A variable takes effect exactly if its value is not mistaken for an absent one. -/
theorem differing_getD_iff {α : Type} {eq : α → α → Bool} {default : α}
    (hdefault : eq default default = true) (value : Option α) (lower : α) :
    (differing eq default (value.getD default)).getD lower = value.getD lower ↔
      Unmistakable eq default lower value := by
  cases value with
  | none => simp [differing, hdefault, Unmistakable]
  | some v => by_cases h : eq v default = true <;> simp [differing, h, Unmistakable]

/-- A number of slots is never mistaken: the default is no number, and a value that cannot be
read is none either. -/
theorem running_takes_effect (value : Option String) (lower : Option Nat) :
    (differing (· == ·) none ((value.map (parseUnsigned 32)).getD none)).getD lower =
      ((value.bind (parseUnsigned 32)).map some).getD lower := by
  cases value with
  | none => rfl
  | some text => cases h : parseUnsigned 32 text <;> simp [differing, h]

/-- A deadline that cannot be read is no deadline, and so is a zero. -/
theorem timeout_iff (value : Option String) (lower : Option Nat) :
    (differing (· == ·) none ((value.map fun text =>
        (parseUnsigned 64 text).filter fun ms => 0 < ms).getD none)).getD lower =
      ((value.bind (parseUnsigned 64)).map fun ms =>
        if ms = 0 then none else some ms).getD lower ↔
      Unmistakable (· == ·) none lower ((value.bind (parseUnsigned 64)).map fun ms =>
        if ms = 0 then none else some ms) := by
  have hread : (value.map fun text => (parseUnsigned 64 text).filter fun ms => 0 < ms).getD none =
      ((value.bind (parseUnsigned 64)).map fun ms =>
        if ms = 0 then none else some ms).getD none := by
    cases value with
    | none => rfl
    | some text =>
        cases h : parseUnsigned 64 text with
        | none => simp [h]
        | some ms => by_cases hms : ms = 0 <;> simp [h, hms, Nat.pos_iff_ne_zero, Option.filter]
  rw [hread]
  exact differing_getD_iff rfl _ _

/-- No variable of the task is mistaken for an absent one.  The priority is of no account if a
rule sets it. -/
structure NothingMistaken (env : TaskConfigOverride) (lower : TaskConfig) (ruled : Prop) :
    Prop where
  queue : Unmistakable (· == ·) "default" lower.queue env.queue
  priority : ¬ruled → Unmistakable F64.eqIeee (.finite 0) lower.priority env.priority
  maxRetries : Unmistakable (· == ·) 0 lower.maxRetries env.maxRetries
  concurrencyControl : Unmistakable (fun a b => decide (a = b)) .unlimited
    lower.concurrencyControl env.concurrencyControl
  cacheResults : Unmistakable (· == ·) false lower.cacheResults env.cacheResults
  isWorkflowTask : Unmistakable (· == ·) false lower.isWorkflowTask env.isWorkflowTask
  rerouteOnCc : Unmistakable (· == ·) false lower.rerouteOnCc env.rerouteOnCc
  retryDelayMs : Unmistakable (· == ·) 0 lower.retryDelayMs env.retryDelayMs
  retryMaxDelayMs : Unmistakable (· == ·) 300000 lower.retryMaxDelayMs env.retryMaxDelayMs
  retryBackoff : Unmistakable F64.eqIeee (.finite 2) lower.retryBackoff env.retryBackoff
  retryJitter : Unmistakable (fun a b => decide (a = b)) .equal lower.retryJitter env.retryJitter
  timeoutMs : Unmistakable (· == ·) none lower.timeoutMs env.timeoutMs
  retryOnTimeout : Unmistakable (· == ·) true lower.retryOnTimeout env.retryOnTimeout

/-- The priorities of the rules that match a task. -/
def matchingPriorities (catalog : TaskCatalog) (app : AppConfig) (taskId : TaskId) : List F64 :=
  (app.priorityRules.filter fun rule => catalog.globMatches rule.taskId taskId.toText).map
    BrokerPriorityRule.priority

/-- The base configuration under the defaults and under the overrides of the task. -/
def lowerLayers (catalog : TaskCatalog) (taskId : TaskId) (base : TaskConfig) : TaskConfig :=
  ((catalog.taskConfigOverrides taskId.name).getD {}).applyTo
    (catalog.taskDefaultsOverride.applyTo base)

/-- The layers in their order: the greatest priority of a matching rule, the variables of the
task, its overrides, the defaults, the base. -/
def layered (rules : TextRules) (env : EnvVars) (catalog : TaskCatalog) (app : AppConfig)
    (taskId : TaskId) (base : TaskConfig) : TaskConfig :=
  let config := (parsed rules env taskId.name).applyTo (lowerLayers catalog taskId base)
  { config with
    priority := (TaskCatalog.maxPriority (matchingPriorities catalog app taskId)).getD
      config.priority }

/-- The greatest priority is missing only among none. -/
theorem maxPriority_eq_none {priorities : List F64} :
    TaskCatalog.maxPriority priorities = none ↔ priorities = [] := by
  cases priorities with
  | nil => simp [TaskCatalog.maxPriority]
  | cons p rest =>
      simp only [TaskCatalog.maxPriority, reduceCtorEq, iff_false]
      split
      · simp
      · split <;> simp

/-- A rule decides the priority where one matches; elsewhere the layers below do. -/
theorem ruled_getD_iff {priorities : List F64} (a b : F64) :
    (TaskCatalog.maxPriority priorities).getD a = (TaskCatalog.maxPriority priorities).getD b ↔
      (¬priorities ≠ [] → a = b) := by
  cases h : TaskCatalog.maxPriority priorities with
  | none => simp [maxPriority_eq_none.mp h]
  | some best =>
      have hsome : priorities ≠ [] := by
        intro hnil
        rw [maxPriority_eq_none.mpr hnil] at h
        cases h
      simp [hsome]

/-- What the code resolves: the override of the variables over the lower layers. -/
theorem resolveConfig_eq {rules : TextRules} {env : EnvVars} (c : CachedCatalog rules env)
    (app : AppConfig) (taskId : TaskId) (base : TaskConfig) :
    (c.resolveConfig app taskId base).1 =
      let config := (loadEnvOverride rules env taskId.name).applyTo
        (lowerLayers c.catalog taskId base)
      { config with
        priority := (TaskCatalog.maxPriority (matchingPriorities c.catalog app taskId)).getD
          config.priority } := by
  simp only [CachedCatalog.resolveConfig, TaskCatalog.resolveConfig, getOrLoadEnvOverride_fst,
    matchingPriorities, lowerLayers]
  cases c.catalog.taskConfigOverrides taskId.name <;> rfl

/-- **The variables of a task take effect** in every field, whatever was resolved before,
exactly if none of them gives the default value of its field where a lower layer gives another
one. -/
theorem layering_iff {rules : TextRules} {env : EnvVars} (c : CachedCatalog rules env)
    (app : AppConfig) (taskId : TaskId) (base : TaskConfig) :
    (c.resolveConfig app taskId base).1 = layered rules env c.catalog app taskId base ↔
      NothingMistaken (parsed rules env taskId.name) (lowerLayers c.catalog taskId base)
        (matchingPriorities c.catalog app taskId ≠ []) := by
  rw [resolveConfig_eq]
  unfold layered
  generalize lowerLayers c.catalog taskId base = lower
  generalize matchingPriorities c.catalog app taskId = priorities
  simp only [TaskConfigOverride.applyTo, TaskConfig.mk.injEq]
  constructor
  · rintro ⟨hqueue, hpriority, hretries, -, hcontrol, -, -, hcache, -, hworkflow, hreroute,
      hdelay, hmax, hbackoff, hjitter, htimeout, htimed⟩
    exact
      { queue := (differing_getD_iff rfl _ _).mp hqueue
        priority := fun hruled =>
          (differing_getD_iff rfl _ _).mp ((ruled_getD_iff _ _).mp hpriority hruled)
        maxRetries := (differing_getD_iff rfl _ _).mp hretries
        concurrencyControl := (differing_getD_iff rfl _ _).mp hcontrol
        cacheResults := (differing_getD_iff rfl _ _).mp hcache
        isWorkflowTask := (differing_getD_iff rfl _ _).mp hworkflow
        rerouteOnCc := (differing_getD_iff rfl _ _).mp hreroute
        retryDelayMs := (differing_getD_iff rfl _ _).mp hdelay
        retryMaxDelayMs := (differing_getD_iff rfl _ _).mp hmax
        retryBackoff := (differing_getD_iff rfl _ _).mp hbackoff
        retryJitter := (differing_getD_iff rfl _ _).mp hjitter
        timeoutMs := (timeout_iff _ _).mp htimeout
        retryOnTimeout := (differing_getD_iff rfl _ _).mp htimed }
  · intro h
    refine ⟨(differing_getD_iff rfl _ _).mpr h.queue, ?_,
      (differing_getD_iff rfl _ _).mpr h.maxRetries, rfl,
      (differing_getD_iff rfl _ _).mpr h.concurrencyControl, running_takes_effect _ _, rfl,
      (differing_getD_iff rfl _ _).mpr h.cacheResults, rfl,
      (differing_getD_iff rfl _ _).mpr h.isWorkflowTask,
      (differing_getD_iff rfl _ _).mpr h.rerouteOnCc,
      (differing_getD_iff rfl _ _).mpr h.retryDelayMs,
      (differing_getD_iff rfl _ _).mpr h.retryMaxDelayMs,
      (differing_getD_iff rfl _ _).mpr h.retryBackoff,
      (differing_getD_iff rfl _ _).mpr h.retryJitter, (timeout_iff _ _).mpr h.timeoutMs,
      (differing_getD_iff rfl _ _).mpr h.retryOnTimeout⟩
    exact (ruled_getD_iff _ _).mpr fun hruled =>
      (differing_getD_iff rfl _ _).mpr (h.priority hruled)

/-- Case tables for ASCII names; no variable is read as a float here. -/
def asciiRules : TextRules where
  toUppercase := String.toUpper
  toLowercase := String.toLower
  parseF64 := fun _ => none

/-- A catalog whose defaults send every task to the queue `bulk`, with a deadline. -/
def bulkCatalog (env : EnvVars) : CachedCatalog asciiRules env where
  catalog :=
    { registry := fun _ => none
      taskDefaultsOverride := { queue := some "bulk", timeoutMs := some (some 5000) } }
  cache := .empty asciiRules env

/-- `RUSTVELLO__TASK__IMPORT__QUEUE=default` and `RUSTVELLO__TASK__IMPORT__TIMEOUT_MS=0`. -/
def importEnv : EnvVars := fun name =>
  if name = "RUSTVELLO__TASK__IMPORT__QUEUE" then some "default"
  else if name = "RUSTVELLO__TASK__IMPORT__TIMEOUT_MS" then some "0"
  else none

/-- The variables put the task back on the default queue and clear its deadline; the code keeps
the queue and the deadline of the defaults. -/
theorem default_values_ignored :
    let code := ((bulkCatalog importEnv).resolveConfig {} ⟨.rust, "jobs", "import"⟩ {}).1
    let spoken := layered asciiRules importEnv (bulkCatalog importEnv).catalog {}
      ⟨.rust, "jobs", "import"⟩ {}
    (code.queue, code.timeoutMs) = ("bulk", some 5000) ∧
      (spoken.queue, spoken.timeoutMs) = ("default", none) := by
  decide +kernel

end Rustvello.Proto
