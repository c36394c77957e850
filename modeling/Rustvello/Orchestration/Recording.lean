import Rustvello.Orchestration.RunnerCalls

/-!
# Status writes and their side effects

A status write has two side effects: an entry in the history of the invocation and, where the
status is terminal, the release of those who wait for it.  Each is a call of its own, so
between the write and its effects an operation owes them.

* `LifecycleCall` — the calls by which runners and clients change statuses;
* `Unsettled`, `recording` — what an operation owes, and the discipline by which it pays
  before it writes again or ends;
* `LifecycleCall.program_settles` — every operation keeps to it, as long as no denial of a
  candidate is accepted: a denial is written without any effect.
-/

namespace Rustvello.Orchestration

open Concurrency Proto Rustvello.Core

/-- The calls that change the status of an invocation, and waiting for one. -/
inductive LifecycleCall where
  | submit (submission : Submission)
  | claimNext (language : TaskLanguage) (runnerId : RunnerId)
  | execute (id : InvocationId) (worker : RunnerId)
  | retrieve (maxNum : Nat) (runnerId : RunnerId) (queues : List String)
  | cancel (id : InvocationId) (runnerId : RunnerId)
  | reroute (ids : List InvocationId) (runnerId : RunnerId)
      (routes : List (InvocationId × String × F64))
  | recover (runnerId : RunnerId) (id : InvocationId) (recoveryStatus : InvocationStatus)
  | waitFor (waiter waitedOn : InvocationId)
deriving DecidableEq

def LifecycleCall.program (d : Deployment) : LifecycleCall → Prog runnerPorts Unit
  | submit submission => (lift (submitWithId d submission)).run.toUnit
  | claimNext language runnerId => (lift (Orchestration.claimNext d language runnerId)).run.toUnit
  | execute id worker => (lift (executeInvocation d id worker)).run.toUnit
  | retrieve maxNum runnerId queues =>
      (getInvocationsToRun d maxNum runnerId queues).run.toUnit
  | cancel id runnerId => (lift (cancelInvocation d id runnerId)).run.toUnit
  | reroute ids runnerId routes => (lift (rerouteInvocations d runnerId routes ids)).run.toUnit
  | recover runnerId id recoveryStatus =>
      (lift (recoverOne d runnerId id recoveryStatus)).run.toUnit
  | waitFor waiter waitedOn => (lift (setWaitingFor waiter waitedOn)).run.toUnit

/-! ## The discipline -/

/-- What an operation owes: the history entry of the status it wrote last, and the release of
the waiters of an invocation it finished. -/
structure Unsettled where
  owed : Option (InvocationId × InvocationStatus) := none
  releasing : Option InvocationId := none
deriving DecidableEq

/-- Right after an accepted write. -/
def Unsettled.written (id : InvocationId) (status : InvocationStatus) : Unsettled where
  owed := some (id, status)
  releasing := if status.isTerminal then some id else none

def Unsettled.next : (c : runnerPorts.Op) → runnerPorts.Ret c → Unsettled → Unsettled
  | .inl (.registerInvocationWithId id _ _), .ok _, _ => .written id .registered
  | .inl (.setInvocationStatus id status _), .ok _, _ => .written id status
  | .inl (.addHistory _), _, g => { g with owed := none }
  | .inl (.releaseWaiters _), _, g => { g with releasing := none }
  | _, _, g => g

/-- What a denied candidate is moved to. -/
def isDenial (status : InvocationStatus) : Bool :=
  decide (status = .concurrencyControlled ∨ status = .concurrencyControlledFinal)

/-- The answers of the in-memory backends: a write answers the status it wrote, and nothing
between a write and its effects fails.  Denials are refused. -/
def Expected : (c : runnerPorts.Op) → runnerPorts.Ret c → Prop
  | .inl (.setInvocationStatus _ status _), .ok record =>
      record.status = status ∧ isDenial status = false
  | .inl (.upsertInvocation _ _), .error _ => False
  | .inl .utcNow, .error _ => False
  | .inl (.addHistory _), .error _ => False
  | .inl (.releaseWaiters _), .error _ => False
  | .inl (.scheduleAutoPurge _), .error _ => False
  | _, _ => True

/-- A status is written with everything settled, an entry records the status that was
written, and the waiters of the finished invocation are released. -/
def recording : Discipline runnerPorts LifecycleCall Unsettled where
  start _ := {}
  next := Unsettled.next
  pre
    | .inl (.registerInvocationWithId _ _ _), g => g = {}
    | .inl (.setInvocationStatus _ _ _), g => g = {}
    | .inl (.addHistory history), g =>
        g.owed = some (history.invocationId, history.statusRecord.status)
    | .inl (.releaseWaiters completed), g => g.releasing = some completed
    | _, _ => True
  resp c _ r := Expected c r

section Settles

variable {d : Deployment} {α β : Type} (id : InvocationId)
  {f : RustvelloResult InvocationStatusRecord → Orch α} {runnerId : RunnerId}
  {record : InvocationStatusRecord}

/-- A part of the orchestrator that begins and ends with everything settled. -/
abbrev Settles (p : Orch α) : Prop :=
  recording.left.Returns {} p

/-- Calls that owe nothing and pay nothing. -/
def Effectless : PortCall → Prop
  | .registerInvocationWithId _ _ _ | .setInvocationStatus _ _ _ | .addHistory _
  | .releaseWaiters _ => False
  | _ => True

theorem quiet_of_effectless {c : PortCall} (h : Effectless c) : recording.left.Quiet c := by
  intro g
  cases c <;> first | exact h.elim | exact ⟨trivial, fun _ => rfl⟩

theorem settles_of_effectless {p : Orch α} (h : Prog.UsesE (fun _ _ => True) Effectless p) :
    Settles p :=
  .of_uses (Prog.Uses.mono h (fun _ _ _ => trivial) fun _ => quiet_of_effectless)

theorem settles_port {c : PortCall} (h : Effectless c) : Settles (port c) :=
  settles_of_effectless (usesE_port h)

theorem lookups_effectless : Lookups Effectless :=
  ⟨fun _ => trivial, fun _ => trivial⟩

theorem reports_effectless : Reports Effectless :=
  ⟨fun _ _ _ _ => trivial, fun _ _ _ _ => trivial, fun _ _ _ _ _ => trivial⟩

/-! ## The write with all its effects -/

/-- The entry of a write, then the rest: the entry settles what was written. -/
theorem addHistory_settles {id : InvocationId} {rest : Unit → Orch α} {g : Unsettled}
    (hg : g = { owed := some (id, record.status) }) (hrest : Settles (rest ())) :
    recording.left.ObeysE
      (port (.addHistory ((InvocationHistory.new id record none).withRunner runnerId)) >>= rest)
      (fun _ g' => g' = {}) (fun _ g' => g' = {}) g := by
  subst hg
  refine obeysE_port_bind.mpr ⟨rfl, fun _ _ => hrest, ?_⟩
  intro _ hfail
  exact hfail.elim

/-- Terminal or not, what follows a write leaves only its entry owed. -/
theorem terminalEffects_releases (status : InvocationStatus) :
    recording.left.ObeysE (terminalEffects d id status)
      (fun _ g' => g' = { owed := some (id, status) }) (fun _ _ => False)
      (.written id status) := by
  unfold terminalEffects Unsettled.written
  split
  · refine obeysE_port_bind.mpr ⟨rfl, fun _ _ => ?_, fun _ hfail => hfail.elim⟩
    split
    · refine obeysE_port.mpr ⟨trivial, ?_⟩
      rintro (e | u) hr
      · exact hr.elim
      · rfl
    · exact Discipline.obeysE_pure.mpr rfl
  · exact Discipline.obeysE_pure.mpr rfl

theorem setInvocationStatusWithContext_settles (hd : d.publication = false) (id : InvocationId)
    (status : InvocationStatus) (runnerId : RunnerId) (taskId : TaskId)
    (arguments : SerializedArguments) :
    Settles (setInvocationStatusWithContext d id status runnerId taskId arguments) := by
  unfold setInvocationStatusWithContext
  rw [if_neg (by simp [hd])]
  refine obeysE_port_bind.mpr ⟨rfl, ?_, fun _ _ => rfl⟩
  intro record hrecord
  have hstatus : record.status = status := hrecord.1
  refine Discipline.ObeysE.bind_of_total (terminalEffects_releases id status) ?_
  intro _ g hg
  refine addHistory_settles (by rw [hg, hstatus]) ?_
  refine Discipline.Returns.bind (settles_of_effectless ?_) fun _ => Discipline.returns_pure _ _
  exact reports_effectless.reportPublishedStatus d id status taskId arguments

theorem setInvocationStatus_settles (hd : d.publication = false) (id : InvocationId)
    (status : InvocationStatus) (runnerId : RunnerId) :
    Settles (setInvocationStatus d id status runnerId) := by
  refine Discipline.Returns.bind (settles_of_effectless (lookups_effectless.triggerContextFor d id)) ?_
  intro context
  exact setInvocationStatusWithContext_settles hd id status runnerId context.1 context.2

/-! ## The outcomes of an attempt -/

theorem releaseSlot_settles :
    Settles (releaseNontransactionalConcurrencySlot d id) := by
  unfold releaseNontransactionalConcurrencySlot
  split
  · exact Discipline.returns_pure _ _
  · exact settles_port trivial

theorem releaseFinished_settles : Settles (releaseFinished d id) :=
  Discipline.Returns.bind (returns_attempt (releaseSlot_settles id)) fun _ =>
    Discipline.returns_pure _ _

theorem finishDiscarded_settles (reason : Discarded) :
    Settles (finishDiscarded d id reason) := by
  unfold finishDiscarded
  split
  · exact Discipline.returns_pure _ _
  · exact releaseFinished_settles id

theorem settleOutcome_settles (worker : RunnerId) (written : RustvelloResult Unit)
    {accepted : Orch Unit} (haccepted : Settles accepted) :
    Settles (settleOutcome d id worker written accepted) := by
  have hread : ∀ id, Effectless (.getInvocationStatus id) := fun _ => trivial
  refine Discipline.Returns.bind
    (settles_of_effectless (usesE_discardedOutcome hread id worker written)) ?_
  rintro (_ | reason)
  · exact haccepted
  · exact finishDiscarded_settles id reason

/-- An error is stored, and then the invocation fails. -/
theorem setInvocationException_settles (hd : d.publication = false) (id : InvocationId)
    (errorType errorMessage : String) (runnerId : RunnerId) (taskId : TaskId)
    (arguments : SerializedArguments) :
    Settles (setInvocationExceptionWithContext d id errorType errorMessage runnerId taskId
      arguments) := by
  unfold setInvocationExceptionWithContext commitException
  rw [if_neg (c := d.publication = true) (by simp [hd])]
  refine Discipline.Returns.bind ?_ fun _ => ?_
  · refine Discipline.Returns.bind (settles_port trivial) fun _ => ?_
    exact Discipline.Returns.bind
      (setInvocationStatusWithContext_settles hd id .failed runnerId taskId arguments)
      fun _ => Discipline.returns_pure _ _
  · split
    · exact settles_port trivial
    · exact Discipline.returns_pure _ _

theorem setInvocationResult_settles (hd : d.publication = false) (id : InvocationId)
    (result : String) (runnerId : RunnerId) (taskId : TaskId) (arguments : SerializedArguments) :
    Settles (setInvocationResultWithContext d id result runnerId taskId arguments) := by
  unfold setInvocationResultWithContext commitResult
  rw [if_neg (c := d.publication = true) (by simp [hd])]
  refine Discipline.Returns.bind ?_ fun _ => ?_
  · refine Discipline.Returns.bind (settles_port trivial) fun _ => ?_
    exact Discipline.Returns.bind
      (setInvocationStatusWithContext_settles hd id .success runnerId taskId arguments)
      fun _ => Discipline.returns_pure _ _
  · split
    · exact settles_port trivial
    · exact Discipline.returns_pure _ _

theorem setInvocationRetryAfter_settles (hd : d.publication = false) (id : InvocationId)
    (runnerId : RunnerId) (taskId : TaskId) (arguments : SerializedArguments) (queueName : String)
    (priority : F64) (delayMs : Nat) :
    Settles (setInvocationRetryAfterWithContext d id runnerId taskId arguments queueName priority
      delayMs) := by
  -- both ways differ only in the call that routes at the end
  have hretry : ∀ c : PortCall, Effectless c → Settles (do
      let _ ← setInvocationStatusWithContext d id .retry runnerId taskId arguments
      let _ ← port (.incrementInvocationRetries id)
      port c) := by
    intro c hc
    refine Discipline.Returns.bind
      (setInvocationStatusWithContext_settles hd id .retry runnerId taskId arguments) fun _ => ?_
    exact Discipline.Returns.bind (settles_port trivial) fun _ => settles_port hc
  unfold setInvocationRetryAfterWithContext setInvocationRetryWithContext
  rw [if_neg (c := d.publication = true) (by simp [hd]),
    if_neg (c := d.publication = true) (by simp [hd])]
  split
  · exact hretry (.routeInvocationWithOptions id (some taskId) queueName priority) trivial
  · exact hretry (.routeInvocationAfter id (some taskId) queueName priority delayMs) trivial

/-- Every way in which an attempt ends. -/
theorem finishAttempt_settles (hd : d.publication = false) (id : InvocationId)
    (worker : RunnerId) (taskId : TaskId) (arguments : SerializedArguments)
    (base resolved : TaskConfig) (retryCount attemptNumber : Nat) (outcome : AttemptOutcome) :
    Settles (finishAttempt d id worker taskId arguments base resolved retryCount attemptNumber
      outcome) := by
  unfold finishAttempt
  split
  · exact finishDiscarded_settles id .cancelled
  · split
    case h_1 result _ =>
      refine Discipline.Returns.bind (returns_attempt
        (setInvocationResult_settles hd id result worker taskId arguments)) fun written => ?_
      exact settleOutcome_settles id worker written (releaseFinished_settles id)
    case h_2 err _ =>
      dsimp only
      split
      · unfold finishRetry
        split
        · exact Discipline.returns_throw _ _
        · refine Discipline.Returns.bind (releaseSlot_settles id) fun _ => ?_
          refine Discipline.Returns.bind (settles_port trivial) fun unit => ?_
          refine Discipline.Returns.bind (returns_attempt
            (setInvocationRetryAfter_settles hd id worker taskId arguments _ _ _)) fun written => ?_
          exact settleOutcome_settles id worker written (Discipline.returns_pure _ _)
      · refine Discipline.Returns.bind (returns_attempt
          (setInvocationException_settles hd id _ _ worker taskId arguments)) fun written => ?_
        exact settleOutcome_settles id worker written (releaseFinished_settles id)

theorem executeClaimed_settles (hd : d.publication = false) (id : InvocationId)
    (worker : RunnerId) : Settles (executeClaimed d id worker) := by
  refine Discipline.Returns.bind (setInvocationStatus_settles hd id .running worker) fun _ => ?_
  refine Discipline.Returns.bind (settles_port trivial) fun invocation => ?_
  refine Discipline.Returns.bind (settles_port trivial) fun call => ?_
  cases d.catalog.registry invocation.taskId with
  | none =>
      refine Discipline.Returns.bind (returns_attempt
        (setInvocationException_settles hd id _ _ worker _ _)) fun written => ?_
      exact settleOutcome_settles id worker written (releaseFinished_settles id)
  | some base =>
      have hidentities : Identities Effectless :=
        ⟨fun _ => trivial, fun _ _ => trivial, fun _ => trivial⟩
      refine Discipline.Returns.bind (settles_port trivial) fun history => ?_
      refine Discipline.Returns.bind
        (settles_of_effectless (hidentities.beginExecution hd id worker _ _)) fun identity => ?_
      refine Discipline.Returns.bind (settles_port trivial) fun _ => ?_
      refine Discipline.Returns.bind (settles_port trivial) fun outcome => ?_
      exact finishAttempt_settles hd id worker _ _ base _ _ _ outcome

theorem executeInvocation_settles (hd : d.publication = false) (id : InvocationId)
    (worker : RunnerId) : Settles (executeInvocation d id worker) := by
  refine Discipline.Returns.bind
    (returns_attempt (setInvocationStatus_settles hd id .pending worker)) ?_
  rintro (e | record)
  · dsimp only
    split
    · exact releaseSlot_settles id
    · exact Discipline.Returns.bind (returns_attempt (releaseSlot_settles id)) fun _ =>
        Discipline.returns_throw _ _
  · exact executeClaimed_settles hd id worker

/-! ## Cancellation and recovery -/

theorem cancelInvocation_settles (hd : d.publication = false) (id : InvocationId)
    (runnerId : RunnerId) : Settles (cancelInvocation d id runnerId) := by
  refine Discipline.Returns.bind (settles_port trivial) fun current => ?_
  split
  · exact Discipline.returns_pure _ _
  · refine Discipline.Returns.bind
      (returns_attempt (setInvocationStatus_settles hd id .cancelled runnerId)) ?_
    rintro (e | record)
    · dsimp only
      split
      · refine Discipline.Returns.bind (settles_port trivial) fun now => ?_
        split
        · exact Discipline.returns_pure _ _
        · exact Discipline.returns_pure _ _
      · exact Discipline.returns_throw _ _
    · exact Discipline.Returns.bind (returns_attempt (releaseSlot_settles id)) fun _ =>
        Discipline.returns_pure _ _

theorem takeOver_settles (hd : d.publication = false) (id : InvocationId) (runnerId : RunnerId)
    (recoveryStatus : InvocationStatus) (resuming : Bool) :
    Settles (takeOver d id runnerId recoveryStatus resuming) := by
  unfold takeOver
  split
  · exact Discipline.returns_pure _ _
  · refine Discipline.Returns.bind
      (returns_attempt (setInvocationStatus_settles hd id recoveryStatus runnerId)) ?_
    rintro (e | record)
    · dsimp only
      split
      · exact Discipline.returns_pure _ _
      · exact Discipline.returns_throw _ _
    · exact Discipline.returns_pure _ _

theorem failRecoveryLimit_settles (hd : d.publication = false) (id : InvocationId)
    (runnerId : RunnerId) (recoveryStatus : InvocationStatus) (resuming : Bool) (previous : Nat) :
    Settles (failRecoveryLimit d id runnerId recoveryStatus resuming previous) := by
  refine Discipline.Returns.bind
    (takeOver_settles hd id runnerId recoveryStatus resuming) fun taken => ?_
  split
  · refine Discipline.Returns.bind (settles_port trivial) fun _ => ?_
    exact Discipline.Returns.bind (setInvocationStatus_settles hd id .failed runnerId) fun _ =>
      Discipline.returns_pure _ _
  · exact Discipline.returns_pure _ _

theorem recoverOrdered_settles (hd : d.publication = false) (id : InvocationId)
    (runnerId : RunnerId) (taskId : TaskId) (recoveryStatus : InvocationStatus) (resuming : Bool)
    (route : PublicationRoute) :
    Settles (recoverOrdered d id runnerId taskId recoveryStatus resuming route) := by
  refine Discipline.Returns.bind
    (takeOver_settles hd id runnerId recoveryStatus resuming) fun taken => ?_
  split
  · refine Discipline.Returns.bind
      (setInvocationStatus_settles hd id .rerouted runnerId) fun _ => ?_
    exact Discipline.Returns.bind (settles_port trivial) fun _ => Discipline.returns_pure _ _
  · exact Discipline.returns_pure _ _

theorem recoverOne_settles (hd : d.publication = false) (runnerId : RunnerId) (id : InvocationId)
    (recoveryStatus : InvocationStatus) : Settles (recoverOne d runnerId id recoveryStatus) := by
  refine Discipline.Returns.bind (settles_port trivial) fun invocation => ?_
  refine Discipline.Returns.bind (settles_port trivial) fun current => ?_
  refine Discipline.Returns.bind
    (settles_of_effectless (usesE_recoveryCount (fun _ => trivial) id)) fun previous => ?_
  refine Discipline.Returns.ite
    (failRecoveryLimit_settles hd id runnerId recoveryStatus _ previous) ?_
  split
  · exact Discipline.returns_throw _ _
  · rw [if_neg (by simp [hd])]
    exact recoverOrdered_settles hd id runnerId _ recoveryStatus _ _

/-! ## Submission, dispatch and rerouting -/

theorem submitWithId_settles (hd : d.publication = false) (submission : Submission) :
    Settles (submitWithId d submission) := by
  unfold submitWithId
  split
  · exact Discipline.returns_throw _ _
  · refine Discipline.Returns.bind (settles_port trivial) fun now => ?_
    rw [if_neg (by simp [hd])]
    refine Discipline.Returns.bind ?_ fun _ => Discipline.returns_pure _ _
    -- the invocation is stored between its registration and the entry
    refine obeysE_port_bind.mpr ⟨rfl, fun _ _ => ?_, fun _ _ => rfl⟩
    refine obeysE_port_bind.mpr ⟨trivial, fun _ _ => ?_, fun _ hfail => hfail.elim⟩
    refine obeysE_port_bind.mpr ⟨trivial, fun now _ => ?_, fun _ hfail => hfail.elim⟩
    exact addHistory_settles rfl (settles_port trivial)

/-- A denial that is refused leaves nothing to do. -/
theorem refused_settles {id : InvocationId} {status : InvocationStatus} {runnerId : Option RunnerId}
    (hdenial : isDenial status = true) (hf : ∀ e, Settles (f (.error e))) :
    Settles (attempt (port (.setInvocationStatus id status runnerId)) >>= f) := by
  refine obeysE_attempt_bind.mpr (obeysE_port.mpr ⟨rfl, ?_⟩)
  rintro (e | record) hr
  · exact hf e
  · have haccepted : isDenial status = false := hr.2
    rw [hdenial] at haccepted
    cases haccepted

theorem denyCandidate_settles (hd : d.publication = false) (id : InvocationId) (taskId : TaskId)
    (config : TaskConfig) (runnerId : RunnerId) :
    Settles (denyCandidate d id taskId config runnerId) := by
  unfold denyCandidate denyByReroute
  rw [if_neg (c := d.publication = true) (by simp [hd])]
  refine Discipline.Returns.ite (refused_settles rfl fun e => ?_) (refused_settles rfl fun e => ?_)
  all_goals exact Discipline.Returns.ite (Discipline.returns_pure _ _) (Discipline.returns_throw _ _)

theorem admitCandidate_settles (hd : d.publication = false) (id : InvocationId)
    (runnerId : RunnerId) : Settles (admitCandidate d id runnerId) := by
  refine Discipline.Returns.bind (returns_attempt (settles_port trivial)) ?_
  rintro (e | invocation)
  · exact Discipline.returns_pure _ _
  · dsimp only
    split
    · exact Discipline.returns_pure _ _
    · refine Discipline.Returns.ite (Discipline.returns_pure _ _) ?_
      refine Discipline.Returns.bind (returns_attempt (settles_port trivial)) ?_
      rintro (e | call)
      · exact Discipline.returns_pure _ _
      · refine Discipline.Returns.bind (settles_port trivial) fun admitted => ?_
        refine Discipline.Returns.ite (Discipline.returns_pure _ _) ?_
        exact Discipline.Returns.bind (denyCandidate_settles hd id _ _ runnerId) fun _ =>
          Discipline.returns_pure _ _

theorem claimFromBroker_settles (hd : d.publication = false) (language : TaskLanguage)
    (runnerId : RunnerId) (n : Nat) : Settles (claimFromBroker d language runnerId n) := by
  have hretrieve : ∀ queues, Settles (retrieveFromQueues language queues) := by
    intro queues
    induction queues with
    | nil => exact Discipline.returns_pure _ _
    | cons queue rest ih =>
        refine Discipline.Returns.bind (settles_port trivial) ?_
        rintro (_ | id)
        · exact ih
        · exact Discipline.returns_pure _ _
  induction n with
  | zero => exact Discipline.returns_pure _ _
  | succ n ih =>
      refine Discipline.Returns.bind (settles_port trivial) fun queues => ?_
      refine Discipline.Returns.bind (hretrieve queues) ?_
      rintro (_ | id)
      · exact Discipline.returns_pure _ _
      · refine Discipline.Returns.bind (admitCandidate_settles hd id runnerId) fun admitted => ?_
        exact Discipline.Returns.ite (Discipline.returns_pure _ _) ih

theorem claimNext_settles (hd : d.publication = false) (language : TaskLanguage)
    (runnerId : RunnerId) : Settles (claimNext d language runnerId) := by
  have hblocking : ∀ ids, Settles (admitBlocking d language runnerId ids) := by
    intro ids
    induction ids with
    | nil => exact Discipline.returns_pure _ _
    | cons id rest ih =>
        refine Discipline.Returns.bind (settles_of_effectless
          (lookups_effectless.candidateMatchesLanguage id language)) fun isMatch => ?_
        refine Discipline.Returns.ite ?_ ih
        refine Discipline.Returns.bind (admitCandidate_settles hd id runnerId) fun admitted => ?_
        exact Discipline.Returns.ite (Discipline.returns_pure _ _) ih
  refine Discipline.Returns.bind (returns_attempt (settles_port trivial)) ?_
  rintro (e | blocking)
  · exact claimFromBroker_settles hd language runnerId _
  · refine Discipline.Returns.bind (hblocking blocking) ?_
    rintro (_ | id)
    · exact claimFromBroker_settles hd language runnerId _
    · exact Discipline.returns_pure _ _

/-- An inspected write of a status that is not terminal: if it is accepted, its entry is owed. -/
theorem written_settles {id : InvocationId} {status : InvocationStatus}
    (hstatus : status.isTerminal = false)
    (hok : ∀ record : InvocationStatusRecord, record.status = status →
      recording.left.ObeysE (f (.ok record)) (fun _ g => g = {}) (fun _ g => g = {})
        { owed := some (id, status) }) (herror : ∀ e, Settles (f (.error e))) :
    Settles (attempt (port (.setInvocationStatus id status (some runnerId))) >>= f) := by
  refine obeysE_attempt_bind.mpr (obeysE_port.mpr ⟨rfl, ?_⟩)
  rintro (e | record) hr
  · exact herror e
  · have hwritten : Unsettled.written id status = { owed := some (id, status) } := by
      simp [Unsettled.written, hstatus]
    show recording.left.ObeysE (f (.ok record)) _ _ (Unsettled.written id status)
    rw [hwritten]
    exact hok record hr.1

/-- The attempted entry of a write, then the rest. -/
theorem attemptHistory_settles {id : InvocationId} {rest : RustvelloResult Unit → Orch α}
    (hrest : ∀ r, Settles (rest r)) :
    recording.left.ObeysE
      (attempt (port (.addHistory ((InvocationHistory.new id record none).withRunner runnerId))) >>=
        rest)
      (fun _ g => g = {}) (fun _ g => g = {}) { owed := some (id, record.status) } := by
  refine obeysE_attempt_bind.mpr (obeysE_port.mpr ⟨rfl, ?_⟩)
  rintro (e | u) hr
  · exact hr.elim
  · exact hrest _

theorem rerouteInvocations_settles (hd : d.publication = false) (runnerId : RunnerId)
    (routes : List (InvocationId × String × F64)) (ids : List InvocationId) :
    Settles (rerouteInvocations d runnerId routes ids) := by
  have hone : ∀ id, Settles (rerouteOrdered d runnerId routes id) := by
    intro id
    refine written_settles rfl ?_ ?_
    · intro record hstatus
      rw [← hstatus]
      have hrecord : recording.left.ObeysE (recordReroute d id runnerId record)
          (fun _ g => g = {}) (fun _ g => g = {}) { owed := some (id, record.status) } := by
        refine attemptHistory_settles fun _ => ?_
        refine Discipline.Returns.ite ?_ (Discipline.returns_pure _ _)
        have hcontext : Prog.UsesE (fun _ _ => True) Effectless (getTriggerContext id) := by
          have h := lookups_effectless.triggerContextFor (A := fun _ _ => True)
            { d with triggerManager := true } id
          simpa [triggerContextFor] using h
        refine Discipline.Returns.bind (settles_of_effectless hcontext) fun context => ?_
        exact Discipline.Returns.bind (returns_attempt (settles_port trivial)) fun _ =>
          Discipline.returns_pure _ _
      refine Discipline.ObeysE.bind hrecord ?_
      intro _ g hg
      rw [hg]
      refine Discipline.Returns.bind (settles_port trivial) fun invocation => ?_
      refine Discipline.Returns.bind ?_ fun route => settles_port trivial
      unfold routeFor
      split
      · exact Discipline.returns_pure _ _
      · exact Discipline.returns_throw _ _
    · intro e
      exact Discipline.Returns.ite (Discipline.returns_pure _ _) (Discipline.returns_throw _ _)
  induction ids with
  | nil => exact Discipline.returns_pure _ _
  | cons id rest ih =>
      unfold rerouteInvocations
      rw [if_neg (by simp [hd])]
      exact Discipline.Returns.bind (hone id) fun _ => ih

/-! ## Batch retrieval -/

/-- An operation of a runner that begins and ends with everything settled. -/
abbrev RunnerSettles (p : Runner α) : Prop :=
  recording.Returns {} p

theorem RunnerSettles.lift_bind {p : Orch α} {f : α → Runner β} (h : Settles p)
    (hf : ∀ a, RunnerSettles (f a)) : RunnerSettles (lift p >>= f) :=
  Discipline.Returns.bind (returns_lift h) hf

/-- The calls that only runners make owe nothing. -/
theorem RunnerSettles.call (c : RunnerCall) : RunnerSettles (runnerPort c) := by
  refine ⟨trivial, ?_⟩
  rintro (e | a) _
  · rfl
  · rfl

theorem checkCcForInvocation_settles :
    RunnerSettles (checkCcForInvocation d id) := by
  refine RunnerSettles.lift_bind (returns_attempt (settles_port trivial)) ?_
  rintro (e | invocation)
  · exact Discipline.returns_pure _ _
  · dsimp only
    split
    · exact Discipline.returns_pure _ _
    · refine Discipline.Returns.ite (Discipline.returns_pure _ _) ?_
      refine RunnerSettles.lift_bind (returns_attempt (settles_port trivial)) ?_
      rintro (e | call)
      · exact Discipline.returns_pure _ _
      · exact RunnerSettles.call _

theorem tryTransitionToPending_settles (runnerId : RunnerId)
    (result : List InvocationId) : Settles (tryTransitionToPending d id runnerId result) := by
  refine written_settles rfl ?_ ?_
  · intro record hstatus
    rw [← hstatus]
    have hclaim : recording.left.ObeysE (recordClaim d id runnerId record) (fun _ g => g = {})
        (fun _ g => g = {}) { owed := some (id, record.status) } := by
      refine obeysE_attempt_bind.mpr (obeysE_port.mpr ⟨trivial, ?_⟩)
      rintro (e | invocation) _
      · refine attemptHistory_settles fun _ => ?_
        cases d.triggerManager <;> exact Discipline.returns_pure _ _
      · refine attemptHistory_settles fun _ => ?_
        cases d.triggerManager with
        | false => exact Discipline.returns_pure _ _
        | true =>
            refine Discipline.Returns.bind
              (settles_of_effectless (lookups_effectless.getInvocationArguments id)) fun _ => ?_
            exact Discipline.Returns.bind (returns_attempt (settles_port trivial)) fun _ =>
              Discipline.returns_pure _ _
    refine Discipline.ObeysE.bind hclaim ?_
    intro _ g hg
    rw [hg]
    exact Discipline.returns_pure _ _
  · intro e
    exact Discipline.Returns.ite (Discipline.returns_pure _ _) (Discipline.returns_throw _ _)

theorem retrieveBlocking_settles (maxNum : Nat) (runnerId : RunnerId)
    (result ids : List InvocationId) :
    RunnerSettles (retrieveBlocking d maxNum runnerId result ids) := by
  induction ids generalizing result with
  | nil => exact Discipline.returns_pure _ _
  | cons id rest ih =>
      refine Discipline.Returns.ite (Discipline.returns_pure _ _) ?_
      refine RunnerSettles.lift_bind (returns_attempt (settles_port trivial)) ?_
      rintro (e | record)
      · exact ih result
      · refine Discipline.Returns.ite (ih result) ?_
        refine Discipline.Returns.bind (checkCcForInvocation_settles id) fun cleared => ?_
        refine Discipline.Returns.ite ?_ (ih result)
        exact RunnerSettles.lift_bind (tryTransitionToPending_settles id runnerId result) fun
          result => ih result

/-- A denied candidate stays where it is, and nothing is left to reroute. -/
theorem denyRetrieved_settles (hd : d.publication = false) (id : InvocationId)
    (runnerId : RunnerId) (rerouteIds : List InvocationId) :
    recording.left.ObeysE (denyRetrieved d id runnerId rerouteIds)
      (fun ids g => ids = rerouteIds ∧ g = {}) (fun _ g => g = {}) {} := by
  have hrefused : ∀ (status : InvocationStatus) (reroute : List InvocationId),
      isDenial status = true →
      recording.left.ObeysE
        (attempt (port (.setInvocationStatus id status (some runnerId))) >>= fun written =>
          denied rerouteIds written reroute)
        (fun ids g => ids = rerouteIds ∧ g = {}) (fun _ g => g = {}) {} := by
    intro status reroute hdenial
    refine obeysE_attempt_bind.mpr (obeysE_port.mpr ⟨rfl, ?_⟩)
    rintro (e | record) hr
    · show recording.left.ObeysE (if _ then _ else _) _ _ _
      split
      · exact ⟨rfl, rfl⟩
      · exact Discipline.obeysE_throw.mpr rfl
    · have haccepted : isDenial status = false := hr.2
      rw [hdenial] at haccepted
      cases haccepted
  refine obeysE_attempt_bind.mpr (obeysE_port.mpr ⟨trivial, ?_⟩)
  rintro (e | invocation) _
  · exact ⟨rfl, rfl⟩
  · rw [Discipline.outcome_ok]
    dsimp only
    split
    · rw [if_neg (by simp [hd])]
      exact hrefused _ _ rfl
    · exact hrefused _ _ rfl

theorem retrieveFromBroker_settles (hd : d.publication = false) (maxNum : Nat)
    (runnerId : RunnerId) (queues : List String) (n : Nat) (result rerouteIds : List InvocationId) :
    recording.ObeysE (retrieveFromBroker d maxNum runnerId queues n result rerouteIds)
      (fun retrieved g => retrieved.2 = rerouteIds ∧ g = {}) (fun _ g => g = {}) {} := by
  have hdequeue : ∀ queues, RunnerSettles (dequeueFirst queues) := by
    intro queues
    induction queues with
    | nil => exact Discipline.returns_pure _ _
    | cons queue rest ih =>
        refine Discipline.Returns.bind (RunnerSettles.call _) ?_
        rintro (_ | id)
        · exact ih
        · exact Discipline.returns_pure _ _
  induction n generalizing result with
  | zero => exact ⟨rfl, rfl⟩
  | succ n ih =>
      unfold retrieveFromBroker
      split
      · exact ⟨rfl, rfl⟩
      · refine Discipline.ObeysE.bind (hdequeue queues) ?_
        rintro (_ | id) _ rfl
        · exact ⟨rfl, rfl⟩
        · dsimp only
          split
          · exact ih result
          · refine obeysE_liftAttempt_bind.mpr ⟨trivial, ?_⟩
            rintro (e | record) _
            · exact ih result
            · dsimp only
              split
              · refine Discipline.ObeysE.bind (checkCcForInvocation_settles id) ?_
                rintro cleared _ rfl
                split
                · refine Discipline.ObeysE.bind
                    (returns_lift (tryTransitionToPending_settles id runnerId result)) ?_
                  rintro result _ rfl
                  exact ih result
                · refine Discipline.ObeysE.bind
                    (obeysE_lift.mpr (denyRetrieved_settles hd id runnerId rerouteIds)) ?_
                  rintro ids _ ⟨rfl, rfl⟩
                  exact ih result
              · exact ih result

theorem getInvocationsToRun_settles (hd : d.publication = false) (maxNum : Nat)
    (runnerId : RunnerId) (queues : List String) :
    RunnerSettles (getInvocationsToRun d maxNum runnerId queues) := by
  have hrest : ∀ result, RunnerSettles (do
      let retrieved ← retrieveFromBroker d maxNum runnerId queues (maxNum * 2 + 8) result []
      lift (rerouteDenied d runnerId retrieved.2)
      pure retrieved.1) := by
    intro result
    refine Discipline.ObeysE.bind
      (retrieveFromBroker_settles hd maxNum runnerId queues _ result []) ?_
    rintro retrieved _ ⟨hnone, rfl⟩
    -- no denial was accepted, so there is nothing to reroute
    rw [hnone]
    exact Discipline.returns_pure _ _
  refine RunnerSettles.lift_bind (returns_attempt (settles_port trivial)) ?_
  rintro (e | blocking)
  · exact hrest []
  · exact Discipline.Returns.bind (retrieveBlocking_settles maxNum runnerId [] blocking) hrest

/-- **Side effects are paid.**  Every operation writes a status only with everything settled,
and ends with everything settled, as long as denials are refused. -/
theorem LifecycleCall.program_settles (hd : d.publication = false) (call : LifecycleCall) :
    recording.Obeys (call.program d) (fun _ g => g = {}) (recording.start call) := by
  have hunit : ∀ {α : Type} {p : Runner α}, RunnerSettles p →
      recording.Obeys p.run.toUnit (fun _ g => g = {}) {} := by
    intro α p hp
    refine Discipline.Obeys.toUnit (Discipline.Obeys.mono hp ?_)
    intro r g hr
    cases r with
    | ok a => exact hr
    | error e => exact hr
  cases call with
  | submit submission => exact hunit (returns_lift (submitWithId_settles hd submission))
  | claimNext language runnerId =>
      exact hunit (returns_lift (claimNext_settles hd language runnerId))
  | execute id worker => exact hunit (returns_lift (executeInvocation_settles hd id worker))
  | retrieve maxNum runnerId queues =>
      exact hunit (getInvocationsToRun_settles hd maxNum runnerId queues)
  | cancel id runnerId => exact hunit (returns_lift (cancelInvocation_settles hd id runnerId))
  | reroute ids runnerId routes =>
      exact hunit (returns_lift (rerouteInvocations_settles hd runnerId routes ids))
  | recover runnerId id recoveryStatus =>
      exact hunit (returns_lift (recoverOne_settles hd runnerId id recoveryStatus))
  | waitFor waiter waitedOn => exact hunit (returns_lift (settles_port trivial))

end Settles

end Rustvello.Orchestration
