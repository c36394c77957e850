import Rustvello.Concurrency.Alike
import Rustvello.Orchestration.Operations
import Rustvello.Orchestration.Retrieval
import Rustvello.Sqlite.Runtime

/-!
# Registered and resolved configurations

Overrides and priority rules change the configuration of a task after it is registered
(`TaskCatalog::resolve_config`).  Submission, retrieval, recovery, the deadline and the route of
a retry follow the resolved configuration; admission, the decision to retry and the workflow
root follow the registered one.

* `Deployment.resolved` — the deployment whose tasks are registered with their resolved
  configurations;
* `LeftAlone` — what the overrides of a task must not change;
* `WorkerCall` — the operations that run, `claim_next` and `execute_invocation_common` among
  them;
* `lifecycle_follows_resolved` — if the overrides leave this alone, every run is a run of the
  resolved deployment.
-/

namespace Rustvello.Orchestration

open Concurrency Proto Rustvello.Core

/-! ## Resolving twice -/

/-- A value that was layered over is not changed by the same layers. -/
theorem getD_layers {α : Type} (rule env perTask defaults : Option α) (value : α) :
    rule.getD (env.getD (perTask.getD (defaults.getD
      (rule.getD (env.getD (perTask.getD (defaults.getD value))))))) =
      rule.getD (env.getD (perTask.getD (defaults.getD value))) := by
  cases rule <;> cases env <;> cases perTask <;> cases defaults <;> rfl

/-- A resolved configuration resolves to itself. -/
theorem resolveConfig_idem (catalog : TaskCatalog) (app : AppConfig) (taskId : TaskId)
    (base : TaskConfig) :
    catalog.resolveConfig app taskId (catalog.resolveConfig app taskId base) =
      catalog.resolveConfig app taskId base := by
  have hfield : ∀ {α : Type} (env perTask defaults : Option α) (value : α),
      env.getD (perTask.getD (defaults.getD (env.getD (perTask.getD (defaults.getD value))))) =
        env.getD (perTask.getD (defaults.getD value)) := fun env perTask defaults value =>
    getD_layers none env perTask defaults value
  unfold TaskCatalog.resolveConfig
  cases catalog.taskConfigOverrides taskId.name with
  | none =>
      have hlayers : ∀ {α : Type} (env defaults : Option α) (value : α),
          env.getD (defaults.getD (env.getD (defaults.getD value))) =
            env.getD (defaults.getD value) := fun env defaults value =>
        hfield env none defaults value
      simp only [TaskConfigOverride.applyTo, hlayers, TaskConfig.mk.injEq, and_self, and_true,
        true_and]
      exact getD_layers _ _ none _ _
  | some perTask =>
      simp only [TaskConfigOverride.applyTo, hfield, TaskConfig.mk.injEq, and_self, and_true,
        true_and]
      exact getD_layers _ _ _ _ _

/-- Every task registered with its resolved configuration. -/
def Deployment.resolved (d : Deployment) : Deployment :=
  { d with catalog := { d.catalog with registry := d.configForTask } }

@[simp] theorem resolved_registry (d : Deployment) (taskId : TaskId) :
    d.resolved.catalog.registry taskId = d.configForTask taskId := rfl

@[simp] theorem resolved_resolveConfig (d : Deployment) (taskId : TaskId) (base : TaskConfig) :
    d.resolved.catalog.resolveConfig d.resolved.appConfig taskId base =
      d.catalog.resolveConfig d.appConfig taskId base := rfl

theorem configForTask_of_registry {d : Deployment} {taskId : TaskId} {base : TaskConfig}
    (h : d.catalog.registry taskId = some base) :
    d.configForTask taskId = some (d.catalog.resolveConfig d.appConfig taskId base) := by
  simp [Deployment.configForTask, h]

theorem configForTask_of_unregistered {d : Deployment} {taskId : TaskId}
    (h : d.catalog.registry taskId = none) : d.configForTask taskId = none := by
  simp [Deployment.configForTask, h]

theorem resolved_routingFor (d : Deployment) (taskId : TaskId) :
    d.resolved.catalog.routingFor d.resolved.appConfig taskId =
      d.catalog.routingFor d.appConfig taskId := by
  unfold TaskCatalog.routingFor
  rw [resolved_registry]
  cases hbase : d.catalog.registry taskId with
  | none => rw [configForTask_of_unregistered hbase]; rfl
  | some base =>
      rw [configForTask_of_registry hbase]
      simp only [Option.map_some, resolved_resolveConfig, resolveConfig_idem]

/-! ## What overrides must leave alone -/

/-- An error of this type is worth a retry. -/
def retriesError (config : TaskConfig) (errorType : String) : Bool :=
  config.retryForErrors.isEmpty || config.retryForErrors.any (containsText errorType)

/-- Admission, retries and workflow roots come out alike under both configurations. -/
structure LeftAlone (base resolved : TaskConfig) : Prop where
  workflow : base.isWorkflowTask = resolved.isWorkflowTask
  retries : base.maxRetries = resolved.maxRetries
  errors : 0 < resolved.maxRetries → ∀ errorType,
    retriesError base errorType = retriesError resolved errorType
  limited : base.concurrencyControl = .unlimited ↔ resolved.concurrencyControl = .unlimited
  slots : resolved.concurrencyControl ≠ .unlimited → base.limit = resolved.limit
  keys : resolved.concurrencyControl ≠ .unlimited → ∀ arguments,
    concurrencyArguments base.concurrencyControl base.keyArguments arguments =
      concurrencyArguments resolved.concurrencyControl resolved.keyArguments arguments
  reroutes : resolved.concurrencyControl ≠ .unlimited → base.rerouteOnCc = resolved.rerouteOnCc
  route : resolved.concurrencyControl ≠ .unlimited → resolved.rerouteOnCc = true →
    base.queue = resolved.queue ∧ base.priority = resolved.priority

/-- The overrides and rules of a deployment leave every registered task alone. -/
def OverridesLeaveAlone (d : Deployment) : Prop :=
  ∀ taskId base, d.catalog.registry taskId = some base →
    LeftAlone base (d.catalog.resolveConfig d.appConfig taskId base)

/-- The same decisions to retry. -/
theorem LeftAlone.shouldRetry {base resolved : TaskConfig} (h : LeftAlone base resolved)
    (retryCount : Nat) (timedOut : Bool) (error : TaskError) :
    Orchestration.shouldRetry base resolved retryCount timedOut error =
      Orchestration.shouldRetry resolved resolved retryCount timedOut error := by
  have herror : ∀ config, Orchestration.shouldRetry config resolved retryCount timedOut error =
      (decide (retryCount < config.maxRetries) && (!timedOut || resolved.retryOnTimeout) &&
        retriesError config error.errorType) := fun _ => rfl
  rw [herror, herror, h.retries]
  by_cases hcount : retryCount < resolved.maxRetries
  · rw [h.errors (by omega) error.errorType]
  · simp [hcount]

section Programs

variable {d : Deployment}

/-! ### Parts that do not read the catalog -/

theorem setInvocationStatusWithContext_resolved :
    setInvocationStatusWithContext d.resolved = setInvocationStatusWithContext d := by
  funext id status runnerId taskId arguments
  unfold setInvocationStatusWithContext
  by_cases hpublication : d.publication = true
  · have hresolved : d.resolved.publication = true := hpublication
    rw [if_pos hpublication, if_pos hresolved]
    refine congrArg (Bind.bind (port (.publicationChange id runnerId (.status status)
      (decide (0 < d.autoPurgeDelaySecs))))) ?_
    funext record
    cases record with
    | none => rfl
    | some record => rfl
  · have hresolved : ¬d.resolved.publication = true := hpublication
    rw [if_neg hpublication, if_neg hresolved]
    rfl

theorem setInvocationStatus_resolved : setInvocationStatus d.resolved = setInvocationStatus d := by
  funext id status runnerId
  unfold setInvocationStatus
  rw [setInvocationStatusWithContext_resolved]
  rfl

theorem setInvocationException_resolved :
    setInvocationExceptionWithContext d.resolved = setInvocationExceptionWithContext d := by
  funext id errorType errorMessage runnerId taskId arguments
  unfold setInvocationExceptionWithContext commitException
  rw [setInvocationStatusWithContext_resolved]
  rfl

theorem failUnregistered_resolved : failUnregistered d.resolved = failUnregistered d := by
  funext id worker taskId arguments
  unfold failUnregistered
  rw [setInvocationException_resolved]
  rfl

theorem finishFailure_resolved : finishFailure d.resolved = finishFailure d := by
  funext id worker taskId arguments error
  unfold finishFailure
  rw [setInvocationException_resolved]
  rfl

theorem finishSuccess_resolved : finishSuccess d.resolved = finishSuccess d := by
  funext id worker taskId arguments result
  unfold finishSuccess setInvocationResultWithContext commitResult
  rw [setInvocationStatusWithContext_resolved]
  rfl

theorem finishRetry_resolved : finishRetry d.resolved = finishRetry d := by
  funext id worker taskId arguments resolved retryCount attemptNumber
  unfold finishRetry setInvocationRetryAfterWithContext setInvocationRetryWithContext
  rw [setInvocationStatusWithContext_resolved]
  rfl

theorem cancelInvocation_resolved : cancelInvocation d.resolved = cancelInvocation d := by
  funext id runnerId
  unfold cancelInvocation
  rw [setInvocationStatus_resolved]
  rfl

theorem recoverOrdered_resolved : recoverOrdered d.resolved = recoverOrdered d := by
  funext id runnerId taskId recoveryStatus resuming route
  unfold recoverOrdered takeOver
  rw [setInvocationStatus_resolved]

theorem failRecoveryLimit_resolved : failRecoveryLimit d.resolved = failRecoveryLimit d := by
  funext id runnerId recoveryStatus resuming previous
  unfold failRecoveryLimit takeOver
  rw [setInvocationStatus_resolved]

theorem recoverPublished_resolved : recoverPublished d.resolved = recoverPublished d := by
  have hreport : ∀ id taskId statuses arguments,
      reportRecovered d.resolved id taskId statuses arguments =
        reportRecovered d id taskId statuses arguments := by
    intro id taskId statuses arguments
    induction statuses with
    | nil => rfl
    | cons status rest ih =>
        unfold reportRecovered
        rw [ih]
        rfl
  funext id runnerId taskId recoveryStatus resuming route
  unfold recoverPublished
  simp only [hreport]
  refine congrArg (Bind.bind _) ?_
  funext record
  cases record with
  | none => rfl
  | some record => rfl

/-! ### The attempt -/

/-- The same attempt. -/
theorem runAttempt_resolved {id : InvocationId} {worker : RunnerId} {invocation : InvocationDTO}
    {call : CallDTO} {base : TaskConfig}
    (h : LeftAlone base (d.catalog.resolveConfig d.appConfig invocation.taskId base)) :
    runAttempt d.resolved id worker invocation call
        (d.catalog.resolveConfig d.appConfig invocation.taskId base) =
      runAttempt d id worker invocation call base := by
  have hcontext : ∀ numRetries identity,
      invocationContext id invocation (d.catalog.resolveConfig d.appConfig invocation.taskId base)
        numRetries identity = invocationContext id invocation base numRetries identity := by
    intro numRetries identity
    unfold invocationContext
    rw [h.workflow]
  have hfinish : ∀ retryCount attemptNumber outcome,
      finishAttempt d.resolved id worker invocation.taskId call.serializedArguments
          (d.catalog.resolveConfig d.appConfig invocation.taskId base)
          (d.catalog.resolveConfig d.appConfig invocation.taskId base) retryCount attemptNumber
          outcome =
        finishAttempt d id worker invocation.taskId call.serializedArguments base
          (d.catalog.resolveConfig d.appConfig invocation.taskId base) retryCount attemptNumber
          outcome := by
    intro retryCount attemptNumber outcome
    unfold finishAttempt
    rw [finishSuccess_resolved, finishRetry_resolved, finishFailure_resolved]
    simp only [h.shouldRetry]
    rfl
  unfold runAttempt
  refine congrArg (Bind.bind _) (funext fun history => ?_)
  refine congrArg (Bind.bind _) (funext fun identity => ?_)
  refine congrArg (Bind.bind _) (funext fun _ => ?_)
  rw [resolved_resolveConfig, resolveConfig_idem, hcontext]
  refine congrArg (Bind.bind _) (funext fun outcome => ?_)
  exact hfinish _ _ outcome

theorem executeClaimed_resolved (h : OverridesLeaveAlone d) (id : InvocationId)
    (worker : RunnerId) : executeClaimed d.resolved id worker = executeClaimed d id worker := by
  unfold executeClaimed
  rw [setInvocationStatus_resolved]
  refine congrArg (Bind.bind _) (funext fun _ => ?_)
  refine congrArg (Bind.bind _) (funext fun invocation => ?_)
  refine congrArg (Bind.bind _) (funext fun call => ?_)
  rw [resolved_registry]
  cases hbase : d.catalog.registry invocation.taskId with
  | none => rw [configForTask_of_unregistered hbase, failUnregistered_resolved]
  | some base =>
      rw [configForTask_of_registry hbase]
      exact runAttempt_resolved (h invocation.taskId base hbase)

theorem executeInvocation_resolved (h : OverridesLeaveAlone d) (id : InvocationId)
    (worker : RunnerId) :
    executeInvocation d.resolved id worker = executeInvocation d id worker := by
  unfold executeInvocation
  rw [executeClaimed_resolved h, setInvocationStatus_resolved]
  rfl

/-! ## Operations that follow the resolved configuration -/

theorem submitWithId_resolved (submission : Submission) :
    submitWithId d.resolved submission = submitWithId d submission := by
  unfold submitWithId
  rw [resolved_registry]
  cases hbase : d.catalog.registry submission.call.taskId with
  | none => rw [configForTask_of_unregistered hbase]
  | some base =>
      rw [configForTask_of_registry hbase]
      dsimp only
      rw [resolved_resolveConfig, resolveConfig_idem]
      rfl

theorem recoverOne_resolved (runnerId : RunnerId) (id : InvocationId)
    (recoveryStatus : InvocationStatus) :
    recoverOne d.resolved runnerId id recoveryStatus = recoverOne d runnerId id recoveryStatus := by
  unfold recoverOne
  rw [failRecoveryLimit_resolved, recoverPublished_resolved, recoverOrdered_resolved]
  simp only [resolved_routingFor]
  rfl

theorem triggerLoopIteration_resolved (runnerId : RunnerId) :
    triggerLoopIteration d.resolved runnerId = triggerLoopIteration d runnerId := by
  have hpending : ∀ runs, publishPending d.resolved runnerId runs =
      publishPending d runnerId runs := by
    intro runs
    induction runs with
    | nil => rfl
    | cons run rest ih =>
        unfold publishPending
        rw [resolved_routingFor, ih]
        rfl
  unfold triggerLoopIteration
  simp only [hpending]
  rfl

end Programs

/-! ## Admission

A slot is asked for with the whole configuration, of which backends read the limit. -/

section Admission

variable {d : Deployment} {σ ε : Type} {exec : ε → (c : PortCall) → σ → RustvelloResult c.Ans × σ}
  {base resolved : TaskConfig}

/-- A limited task gets its slots by the limit alone. -/
def SlotsByLimit (exec : ε → (c : PortCall) → σ → RustvelloResult c.Ans × σ) : Prop :=
  ∀ env id taskId (config config' : TaskConfig) ccArgs s,
    config.concurrencyControl ≠ .unlimited → config'.concurrencyControl ≠ .unlimited →
    config.limit = config'.limit →
    exec env (.tryAcquireConcurrencySlot id taskId config ccArgs) s =
      exec env (.tryAcquireConcurrencySlot id taskId config' ccArgs) s

theorem memRuntime_slotsByLimit : SlotsByLimit Mem.MemRuntime.exec := by
  intro env id taskId config config' ccArgs s hlimited hlimited' hlimit
  simp only [Mem.MemRuntime.exec, Mem.OrchestratorState.tryAcquireConcurrencySlot, hlimited,
    hlimited', hlimit, if_false]

theorem sqlite_slotsByLimit (leaseMs : Nat) : SlotsByLimit (Sqlite.exec leaseMs) := by
  intro env id taskId config config' ccArgs db hlimited hlimited' hlimit
  simp only [Sqlite.exec, Sqlite.Database.tryAcquireConcurrencySlot, hlimited,
    hlimited', hlimit, if_false]

/-- A call and its answer, without the configuration that a slot was asked for with. -/
def withoutConfig : Event ports → Event ports
  | ⟨.tryAcquireConcurrencySlot id taskId _ ccArgs, r⟩ =>
      ⟨.tryAcquireConcurrencySlot id taskId {} ccArgs, r⟩
  | e => e

/-- A denied candidate goes back by the same route. -/
theorem denyByReroute_resolved (hqueue : base.queue = resolved.queue)
    (hpriority : base.priority = resolved.priority) (id : InvocationId) (taskId : TaskId)
    (runnerId : RunnerId) :
    denyByReroute d.resolved id taskId resolved runnerId =
      denyByReroute d id taskId base runnerId := by
  unfold denyByReroute
  rw [hqueue, hpriority]
  by_cases hpublication : d.publication = true
  · have hresolved : d.resolved.publication = true := hpublication
    rw [if_pos hpublication, if_pos hresolved]
    refine congrArg (Bind.bind _) (funext fun written => ?_)
    cases written with
    | ok record => rfl
    | error e => rfl
  · have hresolved : ¬d.resolved.publication = true := hpublication
    rw [if_neg hpublication, if_neg hresolved]

theorem denyCandidate_resolved (h : LeftAlone base resolved)
    (hlimited : resolved.concurrencyControl ≠ .unlimited) (id : InvocationId) (taskId : TaskId)
    (runnerId : RunnerId) :
    denyCandidate d.resolved id taskId resolved runnerId =
      denyCandidate d id taskId base runnerId := by
  unfold denyCandidate
  rw [h.reroutes hlimited]
  by_cases hreroute : resolved.rerouteOnCc = true
  · obtain ⟨hqueue, hpriority⟩ := h.route hlimited hreroute
    rw [if_pos hreroute, if_pos hreroute]
    exact denyByReroute_resolved hqueue hpriority id taskId runnerId
  · rw [if_neg hreroute, if_neg hreroute]

theorem admitLimited_alike (hslots : SlotsByLimit exec) (h : LeftAlone base resolved)
    (hlimited : resolved.concurrencyControl ≠ .unlimited) (id : InvocationId) (taskId : TaskId)
    (call : CallDTO) (runnerId : RunnerId) :
    Prog.AlikeE exec withoutConfig (admitLimited d id taskId base call runnerId)
      (admitLimited d.resolved id taskId resolved call runnerId) := by
  have hbase : base.concurrencyControl ≠ .unlimited := fun hbase => hlimited (h.limited.mp hbase)
  unfold admitLimited
  rw [h.keys hlimited, denyCandidate_resolved h hlimited]
  refine Prog.alikeE_bind ?_ fun admitted => Prog.alikeE_refl _
  intro env s
  have hanswer := hslots env id taskId base resolved
    (concurrencyArguments resolved.concurrencyControl resolved.keyArguments
      call.serializedArguments) s hbase hlimited (h.slots hlimited)
  refine ⟨?_, congrArg Prod.snd hanswer, ?_⟩
  · show (⟨_, _⟩ : Event ports) = ⟨_, _⟩
    rw [hanswer]
  · show Prog.Alike exec withoutConfig (.done _) (.done _)
    exact congrArg Prod.fst hanswer

theorem admitCandidate_alike (hslots : SlotsByLimit exec) (h : OverridesLeaveAlone d)
    (id : InvocationId) (runnerId : RunnerId) :
    Prog.AlikeE exec withoutConfig (admitCandidate d id runnerId)
      (admitCandidate d.resolved id runnerId) := by
  refine Prog.alikeE_bind_right _ ?_
  rintro (e | invocation)
  · exact Prog.alikeE_refl _
  · dsimp only
    rw [resolved_registry]
    cases hbase : d.catalog.registry invocation.taskId with
    | none =>
        rw [configForTask_of_unregistered hbase]
        exact Prog.alikeE_refl _
    | some base =>
        rw [configForTask_of_registry hbase]
        dsimp only
        have halone := h invocation.taskId base hbase
        by_cases hunlimited : base.concurrencyControl = .unlimited
        · rw [if_pos hunlimited, if_pos (halone.limited.mp hunlimited)]
          exact Prog.alikeE_refl _
        · have hlimited := mt halone.limited.mpr hunlimited
          rw [if_neg hunlimited, if_neg hlimited]
          refine Prog.alikeE_bind_right _ ?_
          rintro (e | call)
          · exact Prog.alikeE_refl _
          · exact admitLimited_alike hslots halone hlimited id invocation.taskId call runnerId

theorem claimFromBroker_alike (hslots : SlotsByLimit exec) (h : OverridesLeaveAlone d)
    (language : TaskLanguage) (runnerId : RunnerId) (n : Nat) :
    Prog.AlikeE exec withoutConfig (claimFromBroker d language runnerId n)
      (claimFromBroker d.resolved language runnerId n) := by
  induction n with
  | zero => exact Prog.alikeE_refl _
  | succ n ih =>
      refine Prog.alikeE_bind_right _ fun queues => ?_
      refine Prog.alikeE_bind_right _ ?_
      rintro (_ | id)
      · exact Prog.alikeE_refl _
      · refine Prog.alikeE_bind (admitCandidate_alike hslots h id runnerId) fun admitted => ?_
        cases admitted with
        | true => exact Prog.alikeE_refl _
        | false => exact ih

theorem claimNext_alike (hslots : SlotsByLimit exec) (h : OverridesLeaveAlone d)
    (language : TaskLanguage) (runnerId : RunnerId) :
    Prog.AlikeE exec withoutConfig (claimNext d language runnerId)
      (claimNext d.resolved language runnerId) := by
  have hblocking : ∀ ids, Prog.AlikeE exec withoutConfig (admitBlocking d language runnerId ids)
      (admitBlocking d.resolved language runnerId ids) := by
    intro ids
    induction ids with
    | nil => exact Prog.alikeE_refl _
    | cons id rest ih =>
        refine Prog.alikeE_bind_right _ fun isMatch => ?_
        cases isMatch with
        | false => exact ih
        | true =>
            refine Prog.alikeE_bind (admitCandidate_alike hslots h id runnerId) fun admitted => ?_
            cases admitted with
            | true => exact Prog.alikeE_refl _
            | false => exact ih
  have hbroker := claimFromBroker_alike hslots h language runnerId maxCcRetries
  refine Prog.alikeE_bind_right _ ?_
  rintro (e | blocking)
  · exact hbroker
  · refine Prog.alikeE_bind (hblocking blocking) ?_
    rintro (_ | id)
    · exact hbroker
    · exact Prog.alikeE_refl _

end Admission

/-! ## Runs -/

/-- The operations that run: claiming and executing by themselves, and all others. -/
inductive WorkerCall where
  | claimNext (language : TaskLanguage) (runnerId : RunnerId)
  | execute (id : InvocationId) (worker : RunnerId)
  | operation (op : Operation)

def WorkerCall.program (d : Deployment) : WorkerCall → Prog ports Unit
  | claimNext language runnerId => (Orchestration.claimNext d language runnerId).run.toUnit
  | execute id worker => (executeInvocation d id worker).run.toUnit
  | operation op => op.program d

section Runs

variable {d : Deployment} {σ ε : Type}
  {exec : ε → (c : PortCall) → σ → RustvelloResult c.Ans × σ}

/-- Any number of these operations over one set of backends. -/
def workerMachine (exec : ε → (c : PortCall) → σ → RustvelloResult c.Ans × σ) (d : Deployment) :
    Machine ports σ ε WorkerCall where
  exec := exec
  program := WorkerCall.program d

theorem toUnit_alike {α : Type} {p q : Orch α} (h : Prog.AlikeE exec withoutConfig p q) :
    p.run.toUnit.Alike exec withoutConfig q.run.toUnit :=
  Prog.alike_bind h fun _ => Prog.alike_refl _

theorem program_alike (hslots : SlotsByLimit exec) (h : OverridesLeaveAlone d)
    (call : WorkerCall) :
    (call.program d).Alike exec withoutConfig (call.program d.resolved) := by
  cases call with
  | claimNext language runnerId => exact toUnit_alike (claimNext_alike hslots h language runnerId)
  | execute id worker =>
      exact toUnit_alike (Prog.alikeE_of_eq (executeInvocation_resolved h id worker).symm)
  | operation op =>
      cases op with
      | submit submission =>
          exact toUnit_alike (Prog.alikeE_of_eq (submitWithId_resolved submission).symm)
      | work language worker =>
          refine toUnit_alike (Prog.alikeE_bind (claimNext_alike hslots h language worker) ?_)
          rintro (_ | id)
          · exact Prog.alikeE_refl _
          · exact Prog.alikeE_of_eq (executeInvocation_resolved h id worker).symm
      | recover runnerId id recoveryStatus =>
          exact toUnit_alike (Prog.alikeE_of_eq
            (recoverOne_resolved runnerId id recoveryStatus).symm)
      | cancel id runnerId =>
          exact toUnit_alike (Prog.alikeE_of_eq
            (congrFun (congrFun cancelInvocation_resolved id) runnerId).symm)
      | waitFor waiter waitedOn => exact Prog.alike_refl _
      | evaluateTriggers runnerId =>
          exact toUnit_alike (Prog.alikeE_of_eq (triggerLoopIteration_resolved runnerId).symm)

/-- **The worker lifecycle follows the resolved configuration** where the overrides leave
admission, retries and workflow roots alone: over every set of backends that grant slots by the
limit, every schedule leads to the same state, through the same calls with the same answers, as
if every task were registered with its resolved configuration. -/
theorem lifecycle_follows_resolved (hslots : SlotsByLimit exec) (h : OverridesLeaveAlone d)
    (init : σ) (schedule : List (Label ε WorkerCall)) :
    (System.run (workerMachine exec d) ⟨init, []⟩ schedule).map (System.view withoutConfig) =
      (System.run (workerMachine exec d.resolved) ⟨init, []⟩ schedule).map
        (System.view withoutConfig) := by
  have hexec : (workerMachine exec d.resolved).exec = (workerMachine exec d).exec := rfl
  exact run_view hexec (program_alike hslots h) ⟨rfl, .nil⟩ schedule

end Runs

/-! ### Overrides that are ignored -/

/-- One task with its registered configuration, and an override for it. -/
def overriddenDeployment (override : TaskConfigOverride) : Deployment :=
  { serialDeployment with
    catalog :=
      { registry := fun taskId => if taskId = serialTask then some {} else none
        taskConfigOverrides := fun name => if name = "serial" then some override else none } }

/-- Submit `a`, and let a worker take and execute it, up to a number of calls. -/
def firstAttempt (calls : Nat) (env : Env) : List (Label Env WorkerCall) :=
  .start (.operation (submitSerial "a")) :: Label.steps 0 6 idleEnv ++
    .start (.operation (.work .rust ⟨"w1"⟩)) :: Label.steps 1 calls env

/-- The status of an invocation after a schedule over the in-memory backends. -/
def statusAfter (d : Deployment) (schedule : List (Label Env WorkerCall)) (id : String) :
    Option InvocationStatus :=
  (System.run (workerMachine Mem.MemRuntime.exec d) ⟨{}, []⟩ schedule).bind fun s =>
    s.shared.orchestrator.statusOf ⟨id⟩

/-- An override of the deadline alone. -/
theorem lifecycle_follows_resolved_deadline :
    (System.run (workerMachine Mem.MemRuntime.exec
        (overriddenDeployment { timeoutMs := some (some 5000) })) ⟨{}, []⟩
        (firstAttempt 21 idleEnv)).map (System.view withoutConfig) =
      (System.run (workerMachine Mem.MemRuntime.exec
        (overriddenDeployment { timeoutMs := some (some 5000) }).resolved) ⟨{}, []⟩
        (firstAttempt 21 idleEnv)).map (System.view withoutConfig) ∧
    statusAfter (overriddenDeployment { timeoutMs := some (some 5000) }) (firstAttempt 21 idleEnv)
      "a" = some .success := by
  refine ⟨lifecycle_follows_resolved memRuntime_slotsByLimit ?_ {} _, by decide +kernel⟩
  intro taskId base hbase
  obtain ⟨rfl, rfl⟩ : taskId = serialTask ∧ base = {} := by
    simp only [overriddenDeployment] at hbase
    split at hbase
    · rename_i htask
      exact ⟨htask, (Option.some.inj hbase).symm⟩
    · cases hbase
  constructor
  case errors =>
    intro _ errorType
    rfl
  all_goals first | rfl | (intro hlimited; exact absurd rfl hlimited)

/-- **A retry that is not made.**  The resolved configuration of the task allows one retry, for
every error; a first attempt that fails is not retried, as the registered configuration allows
none.  Registered with its resolved configuration, the task is retried. -/
theorem overridden_retries_ignored :
    ((overriddenDeployment { maxRetries := some 1 }).configForTask serialTask).map
        (fun config => (config.maxRetries, config.retryForErrors)) = some (1, []) ∧
      statusAfter (overriddenDeployment { maxRetries := some 1 }) (firstAttempt 21 failingEnv)
        "a" = some .failed ∧
      statusAfter (overriddenDeployment { maxRetries := some 1 }).resolved
        (firstAttempt 21 failingEnv) "a" = some .retry := by
  decide +kernel

/-- Two workers, one after the other, each take an invocation and begin to run it. -/
def twoAttempts : List (Label Env WorkerCall) :=
  .start (.operation (submitSerial "a")) :: Label.steps 0 6 idleEnv ++
    .start (.operation (submitSerial "b")) :: Label.steps 1 6 idleEnv ++
    .start (.operation (.work .rust ⟨"w1"⟩)) :: Label.steps 2 8 idleEnv ++
    .start (.operation (.work .rust ⟨"w2"⟩)) :: Label.steps 3 8 idleEnv

/-- The resolved configuration lets one invocation run at a time; two are running. -/
theorem overridden_limit_ignored :
    statusAfter (overriddenDeployment { concurrencyControl := some .task }) twoAttempts "a" =
        some .running ∧
      statusAfter (overriddenDeployment { concurrencyControl := some .task }) twoAttempts "b" =
        some .running := by
  decide +kernel

end Rustvello.Orchestration
