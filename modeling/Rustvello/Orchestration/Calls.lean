import Rustvello.Orchestration.Operations

/-!
# Which calls the helpers make

Many steps of an operation only look something up or notify someone.  For each of
these helpers one lemma lists the calls it can make, for an arbitrary property `P`
of calls; a discipline that treats those calls as quiet passes over the helper in
one step (`Discipline.ObeysE.bind_of_uses`).
-/

namespace Rustvello.Orchestration

open Concurrency Proto Rustvello.Core

section Uses

variable {A : (c : PortCall) → RustvelloResult c.Ans → Prop} {P : PortCall → Prop} {α : Type}

theorem usesE_port {c : PortCall} (h : P c) : Prog.UsesE A P (port c) :=
  ⟨h, fun r _ => by cases r <;> trivial⟩

theorem usesE_pure (a : α) : Prog.UsesE A P (pure a : Orch α) :=
  trivial

theorem usesE_throw (e : RustvelloError) : Prog.UsesE A P (throw e : Orch α) :=
  trivial

theorem usesE_attempt {p : Orch α} (h : Prog.UsesE A P p) : Prog.UsesE A P (attempt p) :=
  Prog.uses_bind (p := p.run) h fun _ => trivial

/-- One port call, then the rest: only answers in `A` have to be followed. -/
theorem usesE_port_bind {β : Type} {c : PortCall} {f : c.Ans → Orch β} (hc : P c)
    (hf : ∀ a, A c (.ok a) → Prog.UsesE A P (f a)) : Prog.UsesE A P (port c >>= f) := by
  refine ⟨hc, ?_⟩
  rintro (e | a) hr
  · trivial
  · exact hf a hr

/-- The calls that look up what is stored about an invocation. -/
structure Lookups (P : PortCall → Prop) : Prop where
  invocation (id : InvocationId) : P (.getInvocation id)
  call (callId : CallId) : P (.getCall callId)

theorem Lookups.getInvocationArguments (h : Lookups P) (id : InvocationId) :
    Prog.UsesE A P (getInvocationArguments id) := by
  refine Prog.usesE_bind (usesE_attempt (usesE_port (h.invocation id))) ?_
  rintro (_ | invocation)
  · exact usesE_pure _
  · refine Prog.usesE_bind (usesE_attempt (usesE_port (h.call _))) ?_
    rintro (_ | call) <;> exact usesE_pure _

theorem Lookups.triggerContextFor (h : Lookups P) (d : Deployment) (id : InvocationId) :
    Prog.UsesE A P (triggerContextFor d id) := by
  unfold Orchestration.triggerContextFor
  split
  · refine Prog.usesE_bind (usesE_attempt (usesE_port (h.invocation id))) ?_
    rintro (_ | invocation)
    · exact usesE_pure _
    · refine Prog.usesE_bind (usesE_attempt (usesE_port (h.call _))) ?_
      rintro (_ | call) <;> exact usesE_pure _
  · exact usesE_pure _

theorem Lookups.candidateMatchesLanguage (h : Lookups P) (id : InvocationId)
    (language : TaskLanguage) : Prog.UsesE A P (candidateMatchesLanguage id language) := by
  refine Prog.usesE_bind (usesE_attempt (usesE_port (h.invocation id))) ?_
  rintro (_ | invocation) <;> exact usesE_pure _

theorem usesE_currentStatus (h : ∀ id, P (.getInvocationStatus id)) (id : InvocationId) :
    Prog.UsesE A P (currentStatus id) := by
  refine Prog.usesE_bind (usesE_attempt (usesE_port (h id))) ?_
  rintro (_ | record) <;> exact usesE_pure _

theorem usesE_discardedOutcome (h : ∀ id, P (.getInvocationStatus id)) (id : InvocationId)
    (worker : RunnerId) (written : RustvelloResult Unit) :
    Prog.UsesE A P (discardedOutcome id worker written) := by
  cases written with
  | ok _ => exact usesE_pure _
  | error error =>
      simp only [discardedOutcome]
      split
      · have hcancelled : Prog.UsesE A P (isCancelled id) := by
          refine Prog.usesE_bind (usesE_currentStatus h id) ?_
          rintro (_ | record) <;> exact usesE_pure _
        refine Prog.usesE_bind hcancelled ?_
        intro cancelled
        split
        · exact usesE_pure _
        · refine Prog.usesE_bind (usesE_currentStatus h id) fun record => ?_
          split
          · exact usesE_throw _
          · exact usesE_pure _
      · exact usesE_throw _

/-- The calls that notify triggers. -/
structure Reports (P : PortCall → Prop) : Prop where
  statusChange (id : InvocationId) (taskId : TaskId) (status : InvocationStatus)
    (arguments : SerializedArguments) : P (.reportStatusChange id taskId status arguments)
  result (id : InvocationId) (taskId : TaskId) (result : String)
    (arguments : SerializedArguments) : P (.reportResult id taskId result arguments)
  failure (id : InvocationId) (taskId : TaskId) (errorType errorMessage : String)
    (arguments : SerializedArguments) :
    P (.reportFailure id taskId errorType errorMessage arguments)

theorem Reports.reportPublishedStatus (h : Reports P) (d : Deployment) (id : InvocationId)
    (status : InvocationStatus) (taskId : TaskId) (arguments : SerializedArguments) :
    Prog.UsesE A P (reportPublishedStatus d id status taskId arguments) := by
  unfold Orchestration.reportPublishedStatus
  split
  · exact usesE_port (h.statusChange _ _ _ _)
  · exact usesE_pure _

/-- What follows a status write: waiters, history and triggers. -/
theorem usesE_afterStatus {id : InvocationId} {record : InvocationStatusRecord}
    {runner : RunnerId} (hrelease : P (.releaseWaiters id)) (hpurge : P (.scheduleAutoPurge id))
    (hhistory : P (.addHistory ((InvocationHistory.new id record none).withRunner runner)))
    (hreports : Reports P) (d : Deployment) (status : InvocationStatus) (taskId : TaskId)
    (arguments : SerializedArguments) :
    Prog.UsesE A P (do
      terminalEffects d id status
      port (.addHistory ((InvocationHistory.new id record none).withRunner runner))
      reportPublishedStatus d id status taskId arguments
      pure record) := by
  have hterminal : Prog.UsesE A P (terminalEffects d id status) := by
    unfold terminalEffects
    split
    · refine Prog.usesE_bind (usesE_port hrelease) fun _ => ?_
      split
      · exact usesE_port hpurge
      · exact usesE_pure _
    · exact usesE_pure _
  refine Prog.usesE_bind hterminal fun _ => ?_
  refine Prog.usesE_bind (usesE_port hhistory) fun _ => ?_
  exact Prog.usesE_bind (hreports.reportPublishedStatus d id status taskId arguments)
    fun _ => usesE_pure _

theorem usesE_recoveryCount (h : ∀ id, P (.getHistory id)) (id : InvocationId) :
    Prog.UsesE A P (recoveryCount id) := by
  refine Prog.usesE_bind (usesE_attempt (usesE_port (h id))) ?_
  rintro (_ | history) <;> exact usesE_pure _

/-- The calls that persist an execution identity. -/
structure Identities (P : PortCall → Prop) : Prop where
  get (id : InvocationId) : P (.getExecutionIdentity id)
  set (id : InvocationId) (identity : ExecutionAttemptIdentity) :
    P (.setExecutionIdentity id identity)
  allocate (parent : TraceContextCarrier) : P (.allocateTraceContext parent)

theorem Identities.beginExecution (h : Identities P) {d : Deployment}
    (hd : d.publication = false) (id : InvocationId) (runnerId : RunnerId) (retries : Nat)
    (incoming : TraceContextCarrier) :
    Prog.UsesE A P (beginExecution d id runnerId retries incoming) := by
  unfold Orchestration.beginExecution
  rw [if_neg (by simp [hd])]
  refine Prog.usesE_bind (usesE_port (h.get id)) fun previous => ?_
  dsimp only
  split
  · exact usesE_throw _
  · refine Prog.usesE_bind (usesE_port (h.allocate _)) fun trace => ?_
    exact Prog.usesE_bind (usesE_port (h.set id _)) fun _ => usesE_pure _

end Uses

/-! ## Dispatch and submission -/

/-- The calls by which a worker finds a candidate, and denies those it cannot admit. -/
def Dispatches : PortCall → Prop
  | .setInvocationStatus _ status runnerId => runnerId = none ∧
      (status = .concurrencyControlled ∨ status = .concurrencyControlledFinal ∨
        status = .rerouted)
  | .getBlockingInvocations _ | .getInvocation _ | .getCall _
  | .tryAcquireConcurrencySlot _ _ _ _ | .routeInvocationWithOptions _ _ _ _
  | .queueNamesForRetrieval _ | .retrieveInvocationForLanguageFromQueue _ _ => True
  | _ => False

section Dispatch

variable {A : (c : PortCall) → RustvelloResult c.Ans → Prop} {d : Deployment}
  (hd : d.publication = false) (language : TaskLanguage) (runner : RunnerId)

theorem lookups_dispatches : Lookups Dispatches :=
  ⟨fun _ => trivial, fun _ => trivial⟩

include hd

theorem denyCandidate_dispatches (id : InvocationId) (taskId : TaskId) (config : TaskConfig) :
    Prog.UsesE A Dispatches (denyCandidate d id taskId config runner) := by
  unfold denyCandidate
  split
  · unfold denyByReroute
    rw [if_neg (by simp [hd])]
    refine Prog.usesE_bind (usesE_attempt (usesE_port ⟨rfl, .inl rfl⟩)) ?_
    rintro (error | record)
    · dsimp only
      split
      · exact usesE_pure _
      · exact usesE_throw _
    · exact Prog.usesE_bind (usesE_port ⟨rfl, .inr (.inr rfl)⟩) fun _ => usesE_port trivial
  · refine Prog.usesE_bind (usesE_attempt (usesE_port ⟨rfl, .inr (.inl rfl)⟩)) ?_
    rintro (error | record)
    · dsimp only
      split
      · exact usesE_pure _
      · exact usesE_throw _
    · exact usesE_pure _

theorem admitCandidate_dispatches (id : InvocationId) :
    Prog.UsesE A Dispatches (admitCandidate d id runner) := by
  refine Prog.usesE_bind (usesE_attempt (usesE_port trivial)) ?_
  rintro (error | invocation)
  · exact usesE_pure _
  · dsimp only
    split
    · exact usesE_pure _
    · split
      · exact usesE_pure _
      · refine Prog.usesE_bind (usesE_attempt (usesE_port trivial)) ?_
        rintro (error | call)
        · exact usesE_pure _
        · refine Prog.usesE_bind (usesE_port trivial) fun admitted => ?_
          split
          · exact usesE_pure _
          · exact Prog.usesE_bind (denyCandidate_dispatches hd runner id _ _) fun _ =>
              usesE_pure _

theorem claimFromBroker_dispatches (n : Nat) :
    Prog.UsesE A Dispatches (claimFromBroker d language runner n) := by
  have hretrieve : ∀ queues, Prog.UsesE A Dispatches (retrieveFromQueues language queues) := by
    intro queues
    induction queues with
    | nil => exact usesE_pure _
    | cons queue rest ih =>
        refine Prog.usesE_bind (usesE_port trivial) ?_
        rintro (_ | id)
        · exact ih
        · exact usesE_pure _
  induction n with
  | zero => exact usesE_pure _
  | succ n ih =>
      refine Prog.usesE_bind (usesE_port trivial) fun queues => ?_
      refine Prog.usesE_bind (hretrieve queues) ?_
      rintro (_ | id)
      · exact usesE_pure _
      · refine Prog.usesE_bind (admitCandidate_dispatches hd runner id) fun admitted => ?_
        split
        · exact usesE_pure _
        · exact ih

theorem claimNext_dispatches : Prog.UsesE A Dispatches (claimNext d language runner) := by
  have hblocking : ∀ ids, Prog.UsesE A Dispatches (admitBlocking d language runner ids) := by
    intro ids
    induction ids with
    | nil => exact usesE_pure _
    | cons id rest ih =>
        refine Prog.usesE_bind (lookups_dispatches.candidateMatchesLanguage id language)
          fun isMatch => ?_
        split
        · refine Prog.usesE_bind (admitCandidate_dispatches hd runner id) fun admitted => ?_
          split
          · exact usesE_pure _
          · exact ih
        · exact ih
  unfold claimNext
  refine Prog.usesE_bind (usesE_attempt (usesE_port trivial)) ?_
  rintro (error | blocking)
  · exact claimFromBroker_dispatches hd language runner _
  · refine Prog.usesE_bind (hblocking blocking) ?_
    rintro (_ | id)
    · exact claimFromBroker_dispatches hd language runner _
    · exact usesE_pure _

end Dispatch

/-- The calls of one submission. -/
def Submits (s : Submission) : PortCall → Prop
  | .registerInvocationWithId id call runnerId =>
      id = s.invocationId ∧ call = s.call ∧ runnerId = some s.callerRunnerId
  | .upsertInvocation invocation call => invocation.invocationId = s.invocationId ∧ call = s.call
  | .addHistory history => history.invocationId = s.invocationId
  | .routeInvocationWithOptions id _ _ _ => id = s.invocationId
  | .utcNow => True
  | _ => False

theorem submitWithId_submits {A : (c : PortCall) → RustvelloResult c.Ans → Prop}
    {d : Deployment} (hd : d.publication = false) (s : Submission) :
    Prog.UsesE A (Submits s) (submitWithId d s) := by
  unfold submitWithId
  split
  · exact usesE_throw _
  · refine Prog.usesE_bind (usesE_port trivial) fun now => ?_
    rw [if_neg (by simp [hd])]
    refine Prog.usesE_bind ?_ fun _ => usesE_pure _
    refine Prog.usesE_bind (usesE_port ⟨rfl, rfl, rfl⟩) fun _ => ?_
    refine Prog.usesE_bind (usesE_port ⟨rfl, rfl⟩) fun _ => ?_
    refine Prog.usesE_bind (usesE_port trivial) fun now => ?_
    exact Prog.usesE_bind (usesE_port rfl) fun _ => usesE_port rfl

/-! ## Operations on one invocation -/

/-- A status write that was accepted answers the new status. -/
def Truthful : (c : PortCall) → RustvelloResult c.Ans → Prop
  | .setInvocationStatus _ status _, .ok record => record.status = status
  | _, _ => True

theorem exec_truthful (env : Env) (c : PortCall) (s : Mem.MemRuntime) :
    Truthful c (Mem.MemRuntime.exec env c s).1 := by
  cases c <;> first | trivial | skip
  case setInvocationStatus id status runnerId =>
      obtain ⟨current, record, ccIndex, ccReverse, -, htrans, heq⟩ | ⟨_, _, -, -, heq⟩ |
        ⟨-, heq⟩ := s.orchestrator.setInvocationStatus_cases env.clock id status runnerId
      · simp only [Mem.MemRuntime.exec, heq]
        obtain ⟨-, -, rfl⟩ := (statusRecordTransition_ok_iff _ _ _ _ _).mp htrans
        rfl
      · simp only [Mem.MemRuntime.exec, heq]
        trivial
      · simp only [Mem.MemRuntime.exec, heq]
        trivial

/-- The calls by which `runner` reads and changes what is stored about `id`, where it
writes only statuses in `targets`. -/
def Updates (targets : InvocationStatus → Prop) (id : InvocationId) (runner : RunnerId) :
    PortCall → Prop
  | .setInvocationStatus x status runnerId => x = id ∧ targets status ∧ runnerId = some runner
  | .addHistory history => history.invocationId = id ∧ targets history.statusRecord.status
  | .storeResult x _ => x = id ∧ targets .success
  | .storeError x _ => x = id ∧ targets .failed
  | .incrementInvocationRetries x | .scheduleAutoPurge x | .releaseWaiters x
  | .removeFromConcurrencyIndex x => x = id
  | .getInvocationStatus _ | .getInvocation _ | .getCall _ | .getHistory _
  | .getExecutionIdentity _ | .setExecutionIdentity _ _
  | .reportStatusChange _ _ _ _ | .reportResult _ _ _ _ | .reportFailure _ _ _ _ _
  | .utcNow | .randomUnit | .allocateTraceContext _ | .middlewareBefore _ _
  | .superviseAttempt _ _ _ => True
  | _ => False

/-- The same, and routing `id`. -/
def ActsOn (targets : InvocationStatus → Prop) (id : InvocationId) (runner : RunnerId)
    (c : PortCall) : Prop :=
  Updates targets id runner c ∨ c.routed? = some id

/-- The call reads or writes the identity of an execution. -/
def namesExecution : PortCall → Bool
  | .getExecutionIdentity _ | .setExecutionIdentity _ _ => true
  | _ => false

/-- Calls of `P` that leave the identities of executions alone. -/
def Nameless (P : PortCall → Prop) (c : PortCall) : Prop :=
  P c ∧ namesExecution c = false

/-- What an attempt may write once it is claimed. -/
structure AttemptTargets (targets : InvocationStatus → Prop) : Prop where
  running : targets .running
  success : targets .success
  failed : targets .failed
  retry : targets .retry

/-- Less is said about a program. -/
theorem usesE_forget {A : (c : PortCall) → RustvelloResult c.Ans → Prop} {P : PortCall → Prop}
    {α : Type} {p : Orch α} (h : Prog.UsesE A (Nameless P) p) : Prog.UsesE A P p :=
  Prog.Uses.mono h (fun _ _ h => h) fun _ h => h.1

section ActsOn

variable {targets : InvocationStatus → Prop} {d : Deployment} (hd : d.publication = false)
  (id : InvocationId) (runner : RunnerId) (taskId : TaskId) (arguments : SerializedArguments)
  {recoveryStatus : InvocationStatus} (errorType errorMessage : String) {status : InvocationStatus}

theorem lookups_updates : Lookups (Nameless (Updates targets id runner)) :=
  ⟨fun _ => ⟨trivial, rfl⟩, fun _ => ⟨trivial, rfl⟩⟩

theorem reports_updates : Reports (Nameless (Updates targets id runner)) :=
  ⟨fun _ _ _ _ => ⟨trivial, rfl⟩, fun _ _ _ _ => ⟨trivial, rfl⟩,
    fun _ _ _ _ _ => ⟨trivial, rfl⟩⟩

theorem identities_updates : Identities (Updates targets id runner) :=
  ⟨fun _ => trivial, fun _ _ => trivial, fun _ => trivial⟩

theorem nameless_actsOn {α : Type} {p : Orch α}
    (h : Prog.UsesE Truthful (Nameless (Updates targets id runner)) p) :
    Prog.UsesE Truthful (Nameless (ActsOn targets id runner)) p :=
  Prog.Uses.mono h (fun _ _ h => h) fun _ h => ⟨.inl h.1, h.2⟩

theorem usesE_actsOn {α : Type} {p : Orch α}
    (h : Prog.UsesE Truthful (Updates targets id runner) p) :
    Prog.UsesE Truthful (ActsOn targets id runner) p :=
  Prog.Uses.mono h (fun _ _ h => h) fun _ => .inl

include hd

theorem setInvocationStatusWithContext_nameless (h : targets status) :
    Prog.UsesE Truthful (Nameless (Updates targets id runner))
      (setInvocationStatusWithContext d id status runner taskId arguments) := by
  unfold setInvocationStatusWithContext
  rw [if_neg (by simp [hd])]
  refine usesE_port_bind ⟨⟨rfl, h, rfl⟩, rfl⟩ fun record hrecord => ?_
  have hstatus : record.status = status := hrecord
  have hhistory : targets record.status := by
    rw [hstatus]
    exact h
  exact usesE_afterStatus (P := Nameless (Updates targets id runner)) ⟨rfl, rfl⟩ ⟨rfl, rfl⟩
    ⟨⟨rfl, hhistory⟩, rfl⟩ (reports_updates id runner) d status taskId arguments

theorem setInvocationStatus_nameless (h : targets status) :
    Prog.UsesE Truthful (Nameless (Updates targets id runner)) (setInvocationStatus d id status runner) :=
  Prog.usesE_bind ((lookups_updates id runner).triggerContextFor d id) fun context =>
    setInvocationStatusWithContext_nameless hd id runner context.1 context.2 h

theorem setInvocationResultWithContext_nameless (result : String) (taskId : TaskId)
    (arguments : SerializedArguments) (h : targets .success) :
    Prog.UsesE Truthful (Nameless (Updates targets id runner))
      (setInvocationResultWithContext d id result runner taskId arguments) := by
  unfold setInvocationResultWithContext commitResult
  rw [if_neg (by simp [hd])]
  refine Prog.usesE_bind (Prog.usesE_bind (usesE_port ⟨⟨rfl, h⟩, rfl⟩) fun _ => Prog.usesE_bind
    (setInvocationStatusWithContext_nameless hd id runner _ _ h) fun _ => usesE_pure _)
    fun _ => ?_
  split
  · exact usesE_port ⟨trivial, rfl⟩
  · exact usesE_pure _

theorem setInvocationExceptionWithContext_nameless (taskId : TaskId)
    (arguments : SerializedArguments) (h : targets .failed) :
    Prog.UsesE Truthful (Nameless (Updates targets id runner))
      (setInvocationExceptionWithContext d id errorType errorMessage runner taskId arguments) := by
  unfold setInvocationExceptionWithContext commitException
  rw [if_neg (by simp [hd])]
  refine Prog.usesE_bind (Prog.usesE_bind (usesE_port ⟨⟨rfl, h⟩, rfl⟩) fun _ => Prog.usesE_bind
    (setInvocationStatusWithContext_nameless hd id runner _ _ h) fun _ => usesE_pure _)
    fun _ => ?_
  split
  · exact usesE_port ⟨trivial, rfl⟩
  · exact usesE_pure _

theorem setInvocationRetryAfterWithContext_nameless (queueName : String) (priority : F64)
    (delayMs : Nat) (h : targets .retry) :
    Prog.UsesE Truthful (Nameless (ActsOn targets id runner)) (setInvocationRetryAfterWithContext d id runner
      taskId arguments queueName priority delayMs) := by
  unfold setInvocationRetryAfterWithContext setInvocationRetryWithContext
  rw [if_neg (c := d.publication = true) (by simp [hd]),
    if_neg (c := d.publication = true) (by simp [hd])]
  have hstatus : Prog.UsesE Truthful (Nameless (ActsOn targets id runner))
      (setInvocationStatusWithContext d id .retry runner taskId arguments) :=
    nameless_actsOn id runner (setInvocationStatusWithContext_nameless hd id runner taskId arguments h)
  split <;>
    exact Prog.usesE_bind hstatus fun _ =>
      Prog.usesE_bind (usesE_port ⟨.inl rfl, rfl⟩) fun _ => usesE_port ⟨.inr rfl, rfl⟩

theorem releaseSlot_nameless : Prog.UsesE Truthful (Nameless (Updates targets id runner))
    (releaseNontransactionalConcurrencySlot d id) := by
  unfold releaseNontransactionalConcurrencySlot
  rw [if_neg (by simp [hd])]
  exact usesE_port ⟨rfl, rfl⟩

theorem releaseFinished_nameless :
    Prog.UsesE Truthful (Nameless (Updates targets id runner)) (releaseFinished d id) :=
  Prog.usesE_bind (usesE_attempt (releaseSlot_nameless hd id runner)) fun _ => usesE_pure _

theorem settleOutcome_nameless (written : RustvelloResult Unit) {accepted : Orch Unit}
    (h : Prog.UsesE Truthful (Nameless (Updates targets id runner)) accepted) :
    Prog.UsesE Truthful (Nameless (Updates targets id runner))
      (settleOutcome d id runner written accepted) := by
  refine Prog.usesE_bind (usesE_discardedOutcome (fun _ => ⟨trivial, rfl⟩) id runner written) ?_
  rintro (_ | reason)
  · exact h
  · dsimp only
    unfold finishDiscarded
    split
    · exact usesE_pure _
    · exact releaseFinished_nameless hd id runner

/-- An error outcome: store it, write `failed`, give the slot back. -/
theorem fail_nameless (taskId : TaskId) (arguments : SerializedArguments) (h : targets .failed) :
    Prog.UsesE Truthful (Nameless (Updates targets id runner)) (do
      let written ← attempt (setInvocationExceptionWithContext d id errorType errorMessage runner
        taskId arguments)
      settleOutcome d id runner written (releaseFinished d id)) :=
  Prog.usesE_bind (usesE_attempt (setInvocationExceptionWithContext_nameless hd id runner
    errorType errorMessage taskId arguments h)) fun written =>
    settleOutcome_nameless hd id runner written (releaseFinished_nameless hd id runner)

theorem finishSuccess_nameless (result : String) (h : targets .success) :
    Prog.UsesE Truthful (Nameless (Updates targets id runner))
      (finishSuccess d id runner taskId arguments result) :=
  Prog.usesE_bind (usesE_attempt (setInvocationResultWithContext_nameless hd id runner result
    taskId arguments h)) fun written =>
    settleOutcome_nameless hd id runner written (releaseFinished_nameless hd id runner)

theorem finishRetry_nameless (resolved : TaskConfig) (retryCount attemptNumber : Nat)
    (h : targets .retry) :
    Prog.UsesE Truthful (Nameless (ActsOn targets id runner))
      (finishRetry d id runner taskId arguments resolved retryCount attemptNumber) := by
  unfold finishRetry
  split
  · exact usesE_throw _
  · refine Prog.usesE_bind (nameless_actsOn id runner (releaseSlot_nameless hd id runner))
      fun _ => ?_
    refine Prog.usesE_bind (usesE_port ⟨.inl trivial, rfl⟩) fun unit => ?_
    refine Prog.usesE_bind (usesE_attempt (setInvocationRetryAfterWithContext_nameless hd id
      runner _ _ _ _ _ h)) fun written => ?_
    exact nameless_actsOn id runner (settleOutcome_nameless hd id runner written (usesE_pure _))

theorem finishAttempt_nameless (base resolved : TaskConfig) (retryCount attemptNumber : Nat)
    (outcome : AttemptOutcome) (h : AttemptTargets targets) :
    Prog.UsesE Truthful (Nameless (ActsOn targets id runner)) (finishAttempt d id runner taskId arguments
      base resolved retryCount attemptNumber outcome) := by
  unfold finishAttempt
  split
  · exact nameless_actsOn id runner (releaseFinished_nameless hd id runner)
  · split
    · exact nameless_actsOn id runner (finishSuccess_nameless hd id runner _ _ _ h.success)
    · dsimp only
      split
      · exact finishRetry_nameless hd id runner _ _ _ _ _ h.retry
      · exact nameless_actsOn id runner (fail_nameless hd id runner _ _ _ _ h.failed)

/-- Everything after the claim of an attempt acts on the claimed invocation. -/
theorem executeClaimed_actsOn (h : AttemptTargets targets) :
    Prog.UsesE Truthful (ActsOn targets id runner) (executeClaimed d id runner) := by
  refine Prog.usesE_bind (usesE_forget (nameless_actsOn id runner
    (setInvocationStatus_nameless hd id runner h.running))) fun _ => ?_
  refine Prog.usesE_bind (usesE_port (.inl trivial)) fun invocation => ?_
  refine Prog.usesE_bind (usesE_port (.inl trivial)) fun call => ?_
  split
  · exact usesE_forget (nameless_actsOn id runner (fail_nameless hd id runner _ _ _ _ h.failed))
  · refine Prog.usesE_bind (usesE_port (.inl trivial)) fun history => ?_
    refine Prog.usesE_bind (Prog.Uses.mono
      ((identities_updates id runner).beginExecution hd id runner _ _) (fun _ _ h => h)
      fun _ => .inl) fun identity => ?_
    refine Prog.usesE_bind (usesE_port (.inl trivial)) fun _ => ?_
    refine Prog.usesE_bind (usesE_port (.inl trivial)) fun outcome => ?_
    exact usesE_forget (finishAttempt_nameless hd id runner _ _ _ _ _ _ outcome h)

theorem cancelInvocation_nameless (h : targets .cancelled) :
    Prog.UsesE Truthful (Nameless (Updates targets id runner)) (cancelInvocation d id runner) := by
  unfold cancelInvocation
  refine Prog.usesE_bind (usesE_port ⟨trivial, rfl⟩) fun current => ?_
  split
  · exact usesE_pure _
  · refine Prog.usesE_bind (usesE_attempt (setInvocationStatus_nameless hd id runner h)) ?_
    rintro (error | record)
    · dsimp only
      split
      · refine Prog.usesE_bind (usesE_port ⟨trivial, rfl⟩) fun now => ?_
        split <;> exact usesE_pure _
      · exact usesE_throw _
    · exact Prog.usesE_bind (usesE_attempt (releaseSlot_nameless hd id runner)) fun _ => usesE_pure _

theorem takeOver_nameless (resuming : Bool) (h : targets recoveryStatus) :
    Prog.UsesE Truthful (Nameless (Updates targets id runner))
      (takeOver d id runner recoveryStatus resuming) := by
  unfold takeOver
  split
  · exact usesE_pure _
  · refine Prog.usesE_bind (usesE_attempt (setInvocationStatus_nameless hd id runner h)) ?_
    rintro (error | record)
    · dsimp only
      split
      · exact usesE_pure _
      · exact usesE_throw _
    · exact usesE_pure _

theorem recoverOne_nameless (hrecovery : targets recoveryStatus) (hfailed : targets .failed)
    (hrerouted : targets .rerouted) :
    Prog.UsesE Truthful (Nameless (ActsOn targets id runner)) (recoverOne d runner id recoveryStatus) := by
  unfold recoverOne
  refine Prog.usesE_bind (usesE_port ⟨.inl trivial, rfl⟩) fun invocation => ?_
  refine Prog.usesE_bind (usesE_port ⟨.inl trivial, rfl⟩) fun current => ?_
  refine Prog.usesE_bind (usesE_recoveryCount (fun _ => ⟨.inl trivial, rfl⟩) id) fun previous => ?_
  dsimp only
  generalize (if isRecoveryStatus current.status = true then previous else previous + 1)
    = attempts
  split
  · refine nameless_actsOn id runner
      (Prog.usesE_bind (takeOver_nameless hd id runner _ hrecovery) fun taken => ?_)
    split
    · exact Prog.usesE_bind (usesE_port ⟨⟨rfl, hfailed⟩, rfl⟩) fun _ => Prog.usesE_bind
        (setInvocationStatus_nameless hd id runner hfailed) fun _ => usesE_pure _
    · exact usesE_pure _
  · split
    · exact usesE_throw _
    · rw [if_neg (by simp [hd])]
      refine Prog.usesE_bind (nameless_actsOn id runner
        (takeOver_nameless hd id runner _ hrecovery)) fun taken => ?_
      split
      · exact Prog.usesE_bind (nameless_actsOn id runner
            (setInvocationStatus_nameless hd id runner hrerouted))
          fun _ => Prog.usesE_bind (usesE_port ⟨.inr rfl, rfl⟩) fun _ => usesE_pure _
      · exact usesE_pure _

/-! The same, with the identities of executions not spoken of. -/

theorem setInvocationStatus_updates (h : targets status) :
    Prog.UsesE Truthful (Updates targets id runner) (setInvocationStatus d id status runner) :=
  usesE_forget (setInvocationStatus_nameless hd id runner h)

theorem releaseSlot_updates : Prog.UsesE Truthful (Updates targets id runner)
    (releaseNontransactionalConcurrencySlot d id) :=
  usesE_forget (releaseSlot_nameless hd id runner)

theorem releaseFinished_updates :
    Prog.UsesE Truthful (Updates targets id runner) (releaseFinished d id) :=
  usesE_forget (releaseFinished_nameless hd id runner)

theorem finishRetry_actsOn (resolved : TaskConfig) (retryCount attemptNumber : Nat)
    (h : targets .retry) :
    Prog.UsesE Truthful (ActsOn targets id runner)
      (finishRetry d id runner taskId arguments resolved retryCount attemptNumber) :=
  usesE_forget (finishRetry_nameless hd id runner taskId arguments resolved retryCount
    attemptNumber h)

theorem fail_updates (taskId : TaskId) (arguments : SerializedArguments) (h : targets .failed) :
    Prog.UsesE Truthful (Updates targets id runner) (do
      let written ← attempt (setInvocationExceptionWithContext d id errorType errorMessage runner
        taskId arguments)
      settleOutcome d id runner written (releaseFinished d id)) :=
  usesE_forget (fail_nameless hd id runner errorType errorMessage taskId arguments h)

theorem cancelInvocation_updates (h : targets .cancelled) :
    Prog.UsesE Truthful (Updates targets id runner) (cancelInvocation d id runner) :=
  usesE_forget (cancelInvocation_nameless hd id runner h)

theorem recoverOne_actsOn (hrecovery : targets recoveryStatus) (hfailed : targets .failed)
    (hrerouted : targets .rerouted) :
    Prog.UsesE Truthful (ActsOn targets id runner) (recoverOne d runner id recoveryStatus) :=
  usesE_forget (recoverOne_nameless hd id runner hrecovery hfailed hrerouted)

end ActsOn

/-! ## A status write among quiet calls -/

/-- A discipline that looks at no call that `setInvocationStatus` makes beside the write. -/
structure WritesAlone {Ω γ : Type} (D : Discipline ports Ω γ) : Prop where
  lookups : Lookups D.Quiet
  reports : Reports D.Quiet
  release (id : InvocationId) : D.Quiet (.releaseWaiters id)
  purge (id : InvocationId) : D.Quiet (.scheduleAutoPurge id)
  history (entry : InvocationHistory) : D.Quiet (.addHistory entry)

/-- Only the write changes the book. -/
theorem WritesAlone.setInvocationStatus_obeys {Ω γ : Type} {D : Discipline ports Ω γ}
    (h : WritesAlone D) {d : Deployment} (hd : d.publication = false) (id : InvocationId)
    (status : InvocationStatus) (runner : RunnerId) {g : γ}
    (hpre : D.pre (.setInvocationStatus id status (some runner)) g) :
    D.ObeysE (setInvocationStatus d id status runner)
      (fun _ g' => ∃ record,
        g' = D.next (.setInvocationStatus id status (some runner)) (.ok record) g)
      (fun _ g' => g' = g ∨ ∃ r, g' = D.next (.setInvocationStatus id status (some runner)) r g)
      g := by
  unfold setInvocationStatus
  refine Discipline.ObeysE.bind_of_uses (h.lookups.triggerContextFor d id) (fun _ => .inl rfl) ?_
  intro context
  unfold setInvocationStatusWithContext
  rw [if_neg (by simp [hd])]
  refine obeysE_port_bind.mpr ⟨hpre, ?_, fun e _ => .inr ⟨.error e, rfl⟩⟩
  intro record _
  have hafter := usesE_afterStatus (A := D.Answers) (P := D.Quiet) (h.release id)
    (h.purge id) (h.history ((InvocationHistory.new id record none).withRunner runner)) h.reports d
    status context.1 context.2
  refine (Discipline.ObeysE.of_uses hafter _).mono ?_ ?_
  · intro _ g' hg'
    exact ⟨record, hg'⟩
  · intro _ g' hg'
    exact .inr ⟨.ok record, hg'⟩

/-! ## Refusals -/

/-- A refusal by the status machine, as opposed to a failure of the backend. -/
def isRefusal (e : RustvelloError) : Bool :=
  e.isInvalidStatusTransition || e.isOwnershipViolation || e.isStatusRaceCondition

section Keeping

variable {Ω γ α β : Type}

/-- A call that leaves every book as it is, and whose errors are of one kind. -/
structure Plain (E : RustvelloError → Prop) (D : Discipline ports Ω γ) (c : PortCall) : Prop where
  quiet : D.Quiet c
  errors (g : γ) (e : RustvelloError) : D.resp c g (.error e) → E e

/-- The same of a part of an operation. -/
def Keeping (E : RustvelloError → Prop) (D : Discipline ports Ω γ) (p : Orch α) : Prop :=
  ∀ g, D.ObeysE p (fun _ g' => g' = g) (fun e g' => g' = g ∧ E e) g

variable {E : RustvelloError → Prop} {D : Discipline ports Ω γ}

theorem keeping_pure (a : α) : Keeping E D (pure a : Orch α) :=
  fun _ => rfl

theorem Keeping.bind {p : Orch α} {f : α → Orch β} (hp : Keeping E D p)
    (hf : ∀ a, Keeping E D (f a)) : Keeping E D (p >>= f) := by
  intro g
  refine Discipline.ObeysE.bind (hp g) ?_
  rintro a g' rfl
  exact hf a g'

theorem Plain.keeping {c : PortCall} (h : Plain E D c) : Keeping E D (port c) := by
  intro g
  refine obeysE_port.mpr ⟨(h.quiet g).1, ?_⟩
  rintro (e | a) hr
  · exact ⟨(h.quiet g).2 _, h.errors g e hr⟩
  · exact (h.quiet g).2 _

theorem Keeping.attempt {E' : RustvelloError → Prop} {p : Orch α} (hp : Keeping E D p) :
    Keeping E' D (attempt p) := by
  intro g
  refine Discipline.obeysE_lift.mpr (Discipline.Obeys.mono (hp g) ?_)
  rintro (e | a) g' hg'
  · exact hg'.1
  · exact hg'

theorem keeping_getTriggerContext (h : Lookups (Plain E D)) (id : InvocationId) :
    Keeping E D (getTriggerContext id) := by
  refine (h.invocation id).keeping.attempt.bind ?_
  rintro (_ | invocation)
  · exact keeping_pure _
  · refine (h.call _).keeping.attempt.bind ?_
    rintro (_ | call) <;> exact keeping_pure _

theorem keeping_triggerContextFor (h : Lookups (Plain E D)) (d : Deployment)
    (id : InvocationId) : Keeping E D (triggerContextFor d id) := by
  unfold triggerContextFor
  split
  · exact keeping_getTriggerContext h id
  · exact keeping_pure _

/-- What follows a status write. -/
theorem keeping_afterStatus {id : InvocationId} {entry : InvocationHistory}
    (hrelease : Plain E D (.releaseWaiters id)) (hpurge : Plain E D (.scheduleAutoPurge id))
    (hhistory : Plain E D (.addHistory entry)) (hreports : Reports (Plain E D)) (d : Deployment)
    (status : InvocationStatus) (taskId : TaskId) (arguments : SerializedArguments)
    (record : InvocationStatusRecord) :
    Keeping E D (do
      terminalEffects d id status
      port (.addHistory entry)
      reportPublishedStatus d id status taskId arguments
      pure record) := by
  have hterminal : Keeping E D (terminalEffects d id status) := by
    unfold terminalEffects
    split
    · refine hrelease.keeping.bind fun _ => ?_
      split
      · exact hpurge.keeping
      · exact keeping_pure _
    · exact keeping_pure _
  have hreport : Keeping E D (reportPublishedStatus d id status taskId arguments) := by
    unfold reportPublishedStatus
    split
    · exact (hreports.statusChange _ _ _ _).keeping
    · exact keeping_pure _
  refine hterminal.bind fun _ => ?_
  refine hhistory.keeping.bind fun _ => ?_
  exact hreport.bind fun _ => keeping_pure _

/-- The calls of a status change beside the write are plain. -/
structure PlainAside (E : RustvelloError → Prop) (D : Discipline ports Ω γ) : Prop where
  lookups : Lookups (Plain E D)
  reports : Reports (Plain E D)
  release (id : InvocationId) : Plain E D (.releaseWaiters id)
  purge (id : InvocationId) : Plain E D (.scheduleAutoPurge id)
  history (entry : InvocationHistory) : Plain E D (.addHistory entry)

/-- A status change: what it leaves is left by the write, and an error of another kind is the
answer to the write. -/
theorem PlainAside.setInvocationStatusWithContext_obeys (h : PlainAside E D) {d : Deployment}
    (hd : d.publication = false) (id : InvocationId) {status : InvocationStatus}
    (runner : RunnerId) (taskId : TaskId) (arguments : SerializedArguments) {g : γ}
    {Q : γ → Prop} {E' : RustvelloError → γ → Prop}
    (hpre : D.pre (.setInvocationStatus id status (some runner)) g)
    (hok : ∀ record, Q (D.next (.setInvocationStatus id status (some runner)) (.ok record) g))
    (hlate : ∀ e record, E e →
      E' e (D.next (.setInvocationStatus id status (some runner)) (.ok record) g))
    (herror : ∀ e, D.resp (.setInvocationStatus id status (some runner)) g (.error e) →
      E' e (D.next (.setInvocationStatus id status (some runner)) (.error e) g)) :
    D.ObeysE (setInvocationStatusWithContext d id status runner taskId arguments)
      (fun _ => Q) E' g := by
  unfold setInvocationStatusWithContext
  rw [if_neg (by simp [hd])]
  refine obeysE_port_bind.mpr ⟨hpre, fun record _ => ?_, herror⟩
  refine (keeping_afterStatus (h.release id) (h.purge id) (h.history _) h.reports d status taskId
    arguments record _).mono ?_ ?_
  · rintro _ _ rfl
    exact hok record
  · rintro e _ ⟨rfl, he⟩
    exact hlate e record he

end Keeping

section Steady

variable {Ω γ α β : Type}

/-- A call that leaves every book as it is, and whose errors are no refusals. -/
structure Calm (D : Discipline ports Ω γ) (c : PortCall) : Prop where
  quiet : D.Quiet c
  unrefused (g : γ) (e : RustvelloError) : D.resp c g (.error e) → isRefusal e = false

/-- The same of a part of an operation. -/
def Steady (D : Discipline ports Ω γ) (p : Orch α) : Prop :=
  ∀ g, D.ObeysE p (fun _ g' => g' = g) (fun e g' => g' = g ∧ isRefusal e = false) g

variable {D : Discipline ports Ω γ}

theorem steady_iff {p : Orch α} : Steady D p ↔ Keeping (fun e => isRefusal e = false) D p :=
  Iff.rfl

theorem Calm.plain {c : PortCall} (h : Calm D c) : Plain (fun e => isRefusal e = false) D c :=
  ⟨h.quiet, h.unrefused⟩

theorem steady_pure (a : α) : Steady D (pure a : Orch α) :=
  steady_iff.mpr (keeping_pure a)

theorem Steady.bind {p : Orch α} {f : α → Orch β} (hp : Steady D p)
    (hf : ∀ a, Steady D (f a)) : Steady D (p >>= f) :=
  steady_iff.mpr (Keeping.bind hp hf)

theorem Calm.steady {c : PortCall} (h : Calm D c) : Steady D (port c) :=
  steady_iff.mpr h.plain.keeping

theorem lookups_plain (h : Lookups (Calm D)) :
    Lookups (Plain (fun e => isRefusal e = false) D) :=
  ⟨fun id => (h.invocation id).plain, fun callId => (h.call callId).plain⟩

theorem steady_triggerContextFor (h : Lookups (Calm D)) (d : Deployment) (id : InvocationId) :
    Steady D (triggerContextFor d id) :=
  steady_iff.mpr (keeping_triggerContextFor (lookups_plain h) d id)

/-- The calls of a status change beside the write are calm. -/
structure CalmAside (D : Discipline ports Ω γ) : Prop where
  lookups : Lookups (Calm D)
  reports : Reports (Calm D)
  release (id : InvocationId) : Calm D (.releaseWaiters id)
  purge (id : InvocationId) : Calm D (.scheduleAutoPurge id)
  history (entry : InvocationHistory) : Calm D (.addHistory entry)

theorem CalmAside.plainAside (h : CalmAside D) :
    PlainAside (fun e => isRefusal e = false) D where
  lookups := lookups_plain h.lookups
  reports := ⟨fun _ _ _ _ => (h.reports.statusChange _ _ _ _).plain,
    fun _ _ _ _ => (h.reports.result _ _ _ _).plain,
    fun _ _ _ _ _ => (h.reports.failure _ _ _ _ _).plain⟩
  release id := (h.release id).plain
  purge id := (h.purge id).plain
  history entry := (h.history entry).plain

/-- A status change: what it leaves is left by the write, and an error that is a refusal is the
answer to the write. -/
theorem CalmAside.setInvocationStatusWithContext_obeys (h : CalmAside D) {d : Deployment}
    (hd : d.publication = false) (id : InvocationId) {status : InvocationStatus}
    (runner : RunnerId) (taskId : TaskId) (arguments : SerializedArguments) {g : γ}
    {Q : γ → Prop} {E : RustvelloError → γ → Prop}
    (hpre : D.pre (.setInvocationStatus id status (some runner)) g)
    (hok : ∀ record, Q (D.next (.setInvocationStatus id status (some runner)) (.ok record) g))
    (hlate : ∀ e record, isRefusal e = false →
      E e (D.next (.setInvocationStatus id status (some runner)) (.ok record) g))
    (herror : ∀ e, D.resp (.setInvocationStatus id status (some runner)) g (.error e) →
      E e (D.next (.setInvocationStatus id status (some runner)) (.error e) g)) :
    D.ObeysE (setInvocationStatusWithContext d id status runner taskId arguments)
      (fun _ => Q) E g := by
  exact h.plainAside.setInvocationStatusWithContext_obeys hd id runner taskId arguments hpre hok
    hlate herror

end Steady

end Rustvello.Orchestration
