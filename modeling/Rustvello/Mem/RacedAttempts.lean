import Rustvello.Mem.Outcomes
import Rustvello.Mem.Runners
import Rustvello.Orchestration.Recording

/-!
# Attempts under races

Between any two calls of `execute_invocation_common` a client may cancel the invocation, a
recovery pass may take it over, and other workers may claim it.  The status machine then refuses
what the attempt writes.  A refused claim gives the invocation up, and a refused outcome is
discarded; a refused `running` write is an error, and the worker is retired.

* `RaceTask`, `raceMachine` — everything that runners and clients start, over the in-memory
  backends and middleware that does not refuse;
* `attempting` — the book of an attempt: its `running` write was accepted, an outcome was
  refused;
* `executeInvocation_returns` — an attempt whose `running` write is accepted does not fail, if
  what refused an outcome is not its own record;
* `runnerId_of_owned` — only who writes `pending` or `running` gets to own the record;
* `backendsAnswer`, `namesApart` — the runs of the claim; `claimsUndisturbed`,
  `attemptsCounted` — those in which attempts succeed;
* `attempts_return` — in these runs every attempt returns without an error;
* `cancelled_claim_fails` — a cancellation between the two writes of a claim fails the worker.
-/

namespace Rustvello.Mem

open Concurrency Proto Rustvello.Core Orchestration

/-! ## The book of an attempt -/

/-- How far an attempt is. -/
inductive AttemptStage where
  | claiming
  /-- The `running` write was accepted. -/
  | holding
  /-- An outcome was refused. -/
  | refused
deriving DecidableEq

namespace AttemptStage

/-- The statuses that the attempt writes. -/
def Writes : AttemptStage → InvocationStatus → Prop
  | claiming, status => status = .pending ∨ status = .running
  | holding, status => status = .success ∨ status = .failed ∨ status = .retry
  | refused, _ => False

/-- The statuses that the record does not have while the worker of the attempt owns it. -/
def Bars : AttemptStage → InvocationStatus → Prop
  | claiming, _ => False
  | holding, status => status = .pending
  | refused, status => status = .pending ∨ status = .running

theorem owned_of_bars {stage : AttemptStage} {status : InvocationStatus}
    (h : stage.Bars status) : status = .pending ∨ status = .running := by
  cases stage with
  | claiming => exact h.elim
  | holding => exact .inl h
  | refused => exact h

end AttemptStage

/-- The invocation and the worker of an attempt, and how far it is. -/
structure AttemptBook where
  attempt : Option (InvocationId × RunnerId)
  stage : AttemptStage := .claiming

/-- What the book says of a record of the invocation `id`. -/
def AttemptBook.Allows (g : AttemptBook) (id : InvocationId) (record : InvocationStatusRecord) :
    Prop :=
  ∀ worker, g.attempt = some (id, worker) → record.runnerId = some worker →
    ¬g.stage.Bars record.status

/-- Operations of the runs: all that change statuses, and whole recovery passes. -/
inductive RaceTask where
  | lifecycle (call : LifecycleCall)
  | recoverStale (runnerId : RunnerId)
deriving DecidableEq

def RaceTask.program (d : Deployment) : RaceTask → Prog runnerPorts Unit
  | lifecycle call => call.program d
  | recoverStale runnerId => (recoverStaleInvocations d runnerId).run.toUnit

/-- What the attempt executes, and as whom. -/
def RaceTask.attempt? : RaceTask → Option (InvocationId × RunnerId)
  | lifecycle (.execute id worker) => some (id, worker)
  | _ => none

/-- The call writes a status. -/
def writesStatus : PortCall → Bool
  | .setInvocationStatus _ _ _ => true
  | _ => false

/-- The answers that an attempt relies on: only status writes are refused, and no `running`
write; a record that is read after a refused outcome does not belong to the worker; attempts can
be counted on. -/
def AttemptBook.Expects (g : AttemptBook) : (c : PortCall) → RustvelloResult c.Ans → Prop
  | .setInvocationStatus _ status runner, r =>
      ∀ e, r = .error e → IsRefusal e ∧ (status = .running → runner = none)
  | .getInvocationStatus id, r => ∃ record, r = .ok record ∧ g.Allows id record
  | .getExecutionIdentity _, r =>
      ∃ previous, r = .ok previous ∧ ∀ identity ∈ previous, identity.attempt ≠ u32Max
  | .setExecutionIdentity _ identity, r => r = .ok () ∧ identity.attempt ≠ u32Max
  | _, r => ∃ a, r = .ok a

/-- The discipline of attempts; other operations are free. -/
def attempting : Discipline runnerPorts RaceTask AttemptBook where
  start task := { attempt := task.attempt? }
  next
    | .inl (.setInvocationStatus _ .running _), .ok _, g => { g with stage := .holding }
    | .inl (.setInvocationStatus _ _ _), .error _, g =>
        if g.stage = .holding then { g with stage := .refused } else g
    | _, _, g => g
  pre
    | .inl (.setInvocationStatus x status runner), g => ∀ id worker,
        g.attempt = some (id, worker) → x = id ∧ runner = some worker ∧ g.stage.Writes status
    | _, _ => True
  resp
    | .inl c, g, r => g.Expects c r
    | .inr _, _, _ => True

/-! ## Attempts keep to it -/

section Programs

variable {d : Deployment} {α β : Type} {id : InvocationId} {worker : RunnerId}

/-- A part of an attempt that does not fail and leaves the book as it is. -/
abbrev Assured (p : Orch α) : Prop :=
  Keeping (fun _ => False) attempting.left p

/-- A call that is not a status write is answered. -/
theorem plain_of_unwritten {c : PortCall} (h : writesStatus c = false) :
    Orchestration.Plain (fun _ => False) attempting.left c where
  quiet g := by
    cases c <;> first
      | exact ⟨trivial, fun _ => rfl⟩
      | cases h
  errors g e hresp := by
    cases c <;> first
      | (obtain ⟨_, hr⟩ := hresp; cases hr; done)
      | (obtain ⟨hr, _⟩ := hresp; cases hr; done)
      | (obtain ⟨_, hr, _⟩ := hresp; cases hr)
      | cases h

theorem attempting_plainAside : PlainAside (fun _ => False) attempting.left where
  lookups := ⟨fun _ => plain_of_unwritten rfl, fun _ => plain_of_unwritten rfl⟩
  reports := ⟨fun _ _ _ _ => plain_of_unwritten rfl, fun _ _ _ _ => plain_of_unwritten rfl,
    fun _ _ _ _ _ => plain_of_unwritten rfl⟩
  release _ := plain_of_unwritten rfl
  purge _ := plain_of_unwritten rfl
  history _ := plain_of_unwritten rfl

/-- The book of an attempt at a stage. -/
abbrev attemptAt (id : InvocationId) (worker : RunnerId) (stage : AttemptStage) : AttemptBook :=
  ⟨some (id, worker), stage⟩

/-- An attempt, from a stage on, does not fail. -/
abbrev Returning (id : InvocationId) (worker : RunnerId) (stage : AttemptStage) (p : Orch Unit) :
    Prop :=
  attempting.left.ObeysE p (fun _ _ => True) (fun _ _ => False) (attemptAt id worker stage)

/-- An assured part, then the rest. -/
theorem Assured.then {p : Orch α} {f : α → Orch β} {Q : β → AttemptBook → Prop}
    {E : RustvelloError → AttemptBook → Prop} {g : AttemptBook} (hp : Assured p)
    (hf : ∀ a, attempting.left.ObeysE (f a) Q E g) : attempting.left.ObeysE (p >>= f) Q E g := by
  refine Discipline.obeysE_bind.mpr (Discipline.ObeysE.mono (hp g) ?_ ?_)
  · rintro a _ rfl
    exact hf a
  · rintro e _ ⟨-, h⟩
    exact h.elim

theorem Assured.returning {p : Orch Unit} (hp : Assured p) (stage : AttemptStage) :
    Returning id worker stage p :=
  Discipline.ObeysE.mono (hp _) (fun _ _ _ => trivial) fun _ _ h => h.2

theorem assured_release (hd : d.publication = false) :
    Assured (releaseNontransactionalConcurrencySlot d id) := by
  unfold releaseNontransactionalConcurrencySlot
  rw [if_neg (by simp [hd])]
  exact (plain_of_unwritten rfl).keeping

theorem assured_releaseFinished (hd : d.publication = false) :
    Assured (releaseFinished d id) :=
  (assured_release hd).attempt.bind fun _ => keeping_pure _

theorem assured_finishDiscarded (hd : d.publication = false) (reason : Discarded) :
    Assured (finishDiscarded d id reason) := by
  unfold finishDiscarded
  split
  · exact keeping_pure _
  · exact (assured_release hd).attempt.bind fun _ => keeping_pure _

/-- The `pending` write of a claim is accepted, or refused by the status machine. -/
theorem claim_obeys_attempting (hd : d.publication = false) :
    attempting.left.ObeysE (setInvocationStatus d id .pending worker)
      (fun _ g => g = attemptAt id worker .claiming)
      (fun e g => IsRefusal e ∧ g = attemptAt id worker .claiming)
      (attemptAt id worker .claiming) := by
  unfold setInvocationStatus
  refine Assured.then (keeping_triggerContextFor attempting_plainAside.lookups d id) ?_
  intro context
  refine attempting_plainAside.setInvocationStatusWithContext_obeys hd id worker _ _ ?_ ?_ ?_ ?_
  · rintro _ _ ⟨⟩
    exact ⟨rfl, rfl, .inl rfl⟩
  · intro record
    rfl
  · intro e record h
    exact h.elim
  · intro e hresp
    exact ⟨(hresp e rfl).1, rfl⟩

/-- The `running` write is accepted. -/
theorem start_obeys (hd : d.publication = false) :
    attempting.left.ObeysE (setInvocationStatus d id .running worker)
      (fun _ g => g = attemptAt id worker .holding) (fun _ _ => False)
      (attemptAt id worker .claiming) := by
  unfold setInvocationStatus
  refine Assured.then (keeping_triggerContextFor attempting_plainAside.lookups d id) ?_
  intro context
  refine attempting_plainAside.setInvocationStatusWithContext_obeys hd id worker _ _ ?_ ?_ ?_ ?_
  · rintro _ _ ⟨⟩
    exact ⟨rfl, rfl, .inr rfl⟩
  · intro record
    rfl
  · intro e record h
    exact h.elim
  · intro e hresp
    cases (hresp e rfl).2 rfl

/-- The status write of an outcome is accepted, or refused by the status machine. -/
theorem outcome_obeys (hd : d.publication = false) {status : InvocationStatus}
    (hstatus : AttemptStage.holding.Writes status) (taskId : TaskId)
    (arguments : SerializedArguments) :
    attempting.left.ObeysE (setInvocationStatusWithContext d id status worker taskId arguments)
      (fun _ g => g = attemptAt id worker .holding)
      (fun e g => IsRefusal e ∧ g = attemptAt id worker .refused)
      (attemptAt id worker .holding) := by
  refine attempting_plainAside.setInvocationStatusWithContext_obeys hd id worker _ _ ?_ ?_ ?_ ?_
  · rintro _ _ ⟨⟩
    exact ⟨rfl, rfl, hstatus⟩
  · intro record
    change attempting.next _ _ _ = _
    cases status <;> rfl
  · intro e record h
    exact h.elim
  · intro e hresp
    refine ⟨(hresp e rfl).1, ?_⟩
    change attempting.next _ _ _ = _
    cases status <;> rfl

/-- The stored record can be read. -/
theorem currentStatus_obeys (g : AttemptBook) :
    attempting.left.ObeysE (currentStatus id)
      (fun current g' => g' = g ∧ ∃ record, current = some record ∧ g.Allows id record)
      (fun _ _ => False) g := by
  refine obeysE_attempt_bind.mpr (obeysE_port.mpr ⟨trivial, ?_⟩)
  rintro r ⟨record, rfl, hallows⟩
  exact ⟨rfl, record, rfl, hallows⟩

/-- After a refused outcome the record is not the worker's, so the outcome is discarded. -/
theorem discardedOutcome_obeys {e : RustvelloError} (he : IsRefusal e) :
    attempting.left.ObeysE (discardedOutcome id worker (.error e)) (fun _ _ => True)
      (fun _ _ => False) (attemptAt id worker .refused) := by
  have hrefusal : e.isInvalidStatusTransition ∨ e.isOwnershipViolation ∨
      e.isStatusRaceCondition := he.imp_right .inl
  simp only [discardedOutcome]
  rw [if_pos hrefusal]
  have hcancelled : attempting.left.ObeysE (isCancelled id)
      (fun _ g => g = attemptAt id worker .refused) (fun _ _ => False)
      (attemptAt id worker .refused) := by
    refine Discipline.ObeysE.bind (currentStatus_obeys _) ?_
    rintro _ _ ⟨rfl, record, rfl, -⟩
    rfl
  refine Discipline.ObeysE.bind hcancelled ?_
  rintro cancelled _ rfl
  split
  · trivial
  · refine Discipline.ObeysE.bind (currentStatus_obeys _) ?_
    rintro _ _ ⟨rfl, record, rfl, hallows⟩
    rw [if_neg]
    · trivial
    · rintro ⟨hholder, howner⟩
      have hheld : record.status = .pending ∨ record.status = .running :=
        of_decide_eq_true hholder
      exact hallows worker rfl howner hheld

/-- An outcome that the status machine refuses at most is settled without an error. -/
theorem settled_returns (hd : d.publication = false) {p accepted : Orch Unit}
    (hp : attempting.left.ObeysE p (fun _ g => g = attemptAt id worker .holding)
      (fun e g => IsRefusal e ∧ g = attemptAt id worker .refused)
      (attemptAt id worker .holding))
    (haccepted : Assured accepted) :
    Returning id worker .holding
      (attempt p >>= fun written => settleOutcome d id worker written accepted) := by
  refine obeysE_attempt_bind.mpr (Discipline.ObeysE.mono hp ?_ ?_)
  · rintro _ _ rfl
    exact haccepted.returning .holding
  · rintro e _ ⟨he, rfl⟩
    refine Discipline.ObeysE.bind (discardedOutcome_obeys he) ?_
    rintro (_ | reason) g -
    · exact Discipline.ObeysE.mono (haccepted g) (fun _ _ _ => trivial) fun _ _ h => h.2
    · exact Discipline.ObeysE.mono (assured_finishDiscarded hd reason g) (fun _ _ _ => trivial)
        fun _ _ h => h.2

/-- An outcome: what comes before its status write and after it is answered. -/
theorem outcome_between (hd : d.publication = false) {before after : Orch Unit}
    {status : InvocationStatus} (hstatus : AttemptStage.holding.Writes status) (taskId : TaskId)
    (arguments : SerializedArguments) (hbefore : Assured before) (hafter : Assured after) :
    attempting.left.ObeysE
      (before >>= fun _ =>
        setInvocationStatusWithContext d id status worker taskId arguments >>= fun _ => after)
      (fun _ g => g = attemptAt id worker .holding)
      (fun e g => IsRefusal e ∧ g = attemptAt id worker .refused)
      (attemptAt id worker .holding) := by
  refine hbefore.then fun _ => ?_
  refine Discipline.ObeysE.bind (outcome_obeys hd hstatus taskId arguments) ?_
  rintro _ _ rfl
  exact Discipline.ObeysE.mono (hafter _) (fun _ _ h => h) fun _ _ h => h.2.elim

theorem assured_port {c : PortCall} (h : writesStatus c = false) : Assured (port c) :=
  (plain_of_unwritten h).keeping

theorem finishSuccess_returns (hd : d.publication = false) (taskId : TaskId)
    (arguments : SerializedArguments) (result : String) :
    Returning id worker .holding (finishSuccess d id worker taskId arguments result) := by
  refine settled_returns hd ?_ (assured_releaseFinished hd)
  unfold setInvocationResultWithContext commitResult
  rw [if_neg (by simp [hd])]
  refine Discipline.ObeysE.bind
    (outcome_between hd (.inl rfl) taskId arguments (assured_port rfl) (keeping_pure _)) ?_
  rintro _ _ rfl
  have hreport : Assured (if d.triggerManager then port (.reportResult id taskId result arguments)
      else pure ()) := by
    split
    · exact assured_port rfl
    · exact keeping_pure _
  exact Discipline.ObeysE.mono (hreport _) (fun _ _ h => h) fun _ _ h => h.2.elim

/-- The outcome of an attempt that failed for good. -/
theorem failure_obeys (hd : d.publication = false) (errorType errorMessage : String)
    (taskId : TaskId) (arguments : SerializedArguments) :
    attempting.left.ObeysE
      (setInvocationExceptionWithContext d id errorType errorMessage worker taskId arguments)
      (fun _ g => g = attemptAt id worker .holding)
      (fun e g => IsRefusal e ∧ g = attemptAt id worker .refused)
      (attemptAt id worker .holding) := by
  unfold setInvocationExceptionWithContext commitException
  rw [if_neg (by simp [hd])]
  refine Discipline.ObeysE.bind
    (outcome_between hd (.inr (.inl rfl)) taskId arguments (assured_port rfl) (keeping_pure _)) ?_
  rintro _ _ rfl
  have hreport : Assured (if d.triggerManager then
      port (.reportFailure id taskId errorType errorMessage arguments) else pure ()) := by
    split
    · exact assured_port rfl
    · exact keeping_pure _
  exact Discipline.ObeysE.mono (hreport _) (fun _ _ h => h) fun _ _ h => h.2.elim

/-- The outcome of an attempt that is retried. -/
theorem retry_obeys (hd : d.publication = false) (taskId : TaskId)
    (arguments : SerializedArguments) (queueName : String) (priority : F64) (delayMs : Nat) :
    attempting.left.ObeysE
      (setInvocationRetryAfterWithContext d id worker taskId arguments queueName priority delayMs)
      (fun _ g => g = attemptAt id worker .holding)
      (fun e g => IsRefusal e ∧ g = attemptAt id worker .refused)
      (attemptAt id worker .holding) := by
  have hretry : ∀ c : PortCall, writesStatus c = false → ∀ f : c.Ans → Orch Unit,
      (∀ a, Assured (f a)) → attempting.left.ObeysE
        (setInvocationStatusWithContext d id .retry worker taskId arguments >>= fun _ =>
          port c >>= f)
        (fun _ g => g = attemptAt id worker .holding)
        (fun e g => IsRefusal e ∧ g = attemptAt id worker .refused)
        (attemptAt id worker .holding) := by
    intro c hc f hf
    refine Discipline.ObeysE.bind (outcome_obeys hd (.inr (.inr rfl)) taskId arguments) ?_
    rintro _ _ rfl
    exact Discipline.ObeysE.mono (((assured_port hc).bind hf) _) (fun _ _ h => h)
      fun _ _ h => h.2.elim
  unfold setInvocationRetryAfterWithContext setInvocationRetryWithContext
  split
  · rw [if_neg (by simp [hd])]
    exact hretry _ rfl _ fun _ => assured_port rfl
  · rw [if_neg (by simp [hd])]
    exact hretry _ rfl _ fun _ => assured_port rfl

theorem finishRetry_returns (hd : d.publication = false) (taskId : TaskId)
    (arguments : SerializedArguments) (resolved : TaskConfig) (retryCount : Nat)
    {attemptNumber : Nat} (hcount : attemptNumber ≠ u32Max) :
    Returning id worker .holding
      (finishRetry d id worker taskId arguments resolved retryCount attemptNumber) := by
  unfold finishRetry
  rw [if_neg hcount]
  refine (assured_release hd).then fun _ => ?_
  refine (assured_port rfl).then fun unit => ?_
  exact settled_returns hd (retry_obeys hd taskId arguments _ _ _) (keeping_pure _)

theorem finishAttempt_returns (hd : d.publication = false) (taskId : TaskId)
    (arguments : SerializedArguments) (base resolved : TaskConfig) (retryCount : Nat)
    {attemptNumber : Nat} (hcount : attemptNumber ≠ u32Max) (outcome : AttemptOutcome) :
    Returning id worker .holding
      (finishAttempt d id worker taskId arguments base resolved retryCount attemptNumber
        outcome) := by
  unfold finishAttempt
  split
  · exact (assured_finishDiscarded hd _).returning .holding
  · split
    · exact finishSuccess_returns hd taskId arguments _
    · dsimp only
      split
      · exact finishRetry_returns hd taskId arguments resolved retryCount hcount
      · exact settled_returns hd (failure_obeys hd _ _ taskId arguments)
          (assured_releaseFinished hd)

/-- An identity is allocated, and its number can still be counted on. -/
theorem beginExecution_obeys (hd : d.publication = false) (retries : Nat)
    (incoming : TraceContextCarrier) (g : AttemptBook) :
    attempting.left.ObeysE (beginExecution d id worker retries incoming)
      (fun identity g' => g' = g ∧ identity.attempt ≠ u32Max) (fun _ _ => False) g := by
  unfold beginExecution
  rw [if_neg (by simp [hd])]
  refine obeysE_port_bind.mpr ⟨trivial, ?_, ?_⟩
  · rintro previous ⟨_, ⟨⟩, hprevious⟩
    cases hnumber : nextAttemptNumber previous retries with
    | error e =>
        unfold nextAttemptNumber at hnumber
        split at hnumber
        · rename_i identity
          rw [if_neg (hprevious identity rfl)] at hnumber
          cases hnumber
        · cases hnumber
    | ok number =>
        refine (assured_port rfl).then fun trace => ?_
        refine obeysE_port_bind.mpr ⟨trivial, ?_, ?_⟩
        · rintro _ ⟨-, hcount⟩
          exact ⟨rfl, hcount⟩
        · rintro e ⟨h, -⟩
          cases h
  · rintro e ⟨_, h, -⟩
    cases h

theorem executeClaimed_returns (hd : d.publication = false) :
    Returning id worker .claiming (executeClaimed d id worker) := by
  unfold executeClaimed
  refine Discipline.ObeysE.bind (start_obeys hd) ?_
  rintro _ _ rfl
  refine (assured_port rfl).then fun invocation => ?_
  refine (assured_port rfl).then fun call => ?_
  split
  · exact settled_returns hd (failure_obeys hd _ _ _ _) (assured_releaseFinished hd)
  · unfold runAttempt
    refine (assured_port rfl).then fun history => ?_
    refine Discipline.ObeysE.bind (beginExecution_obeys hd _ _ _) ?_
    rintro identity _ ⟨rfl, hcount⟩
    refine (assured_port rfl).then fun _ => ?_
    refine (assured_port rfl).then fun outcome => ?_
    exact finishAttempt_returns hd _ _ _ _ _ hcount outcome

/-- **An attempt does not fail** where its `running` write is accepted and what refuses its
outcome is not its own record. -/
theorem executeInvocation_returns (hd : d.publication = false) :
    Returning id worker .claiming (executeInvocation d id worker) := by
  unfold executeInvocation
  refine obeysE_attempt_bind.mpr (Discipline.ObeysE.mono (claim_obeys_attempting hd) ?_ ?_)
  · rintro _ _ rfl
    exact executeClaimed_returns hd
  · rintro e _ ⟨he, rfl⟩
    have hlost : e.isInvalidStatusTransition = true ∨ e.isOwnershipViolation = true := he
    dsimp only
    rw [if_pos hlost]
    exact (assured_release hd).returning .claiming

/-- What an attempt executes does not change. -/
theorem attempting_next_attempt (c : runnerPorts.Op) (r : runnerPorts.Ret c) (g : AttemptBook) :
    (attempting.next c r g).attempt = g.attempt := by
  simp only [attempting]
  split
  · rfl
  · split <;> rfl
  · rfl

/-- Operations that are no attempts are free. -/
theorem free_obeys (p : Prog runnerPorts α) {g : AttemptBook} (hg : g.attempt = none) :
    attempting.Obeys p (fun _ _ => True) g := by
  induction p generalizing g with
  | done a => trivial
  | call c k ih =>
      refine ⟨?_, fun r _ => ih r ((attempting_next_attempt c r g).trans hg)⟩
      simp only [attempting]
      split
      · intro id worker hattempt
        rw [hg] at hattempt
        cases hattempt
      · trivial

/-- Every operation obeys. -/
theorem RaceTask.program_obeys (hd : d.publication = false) (task : RaceTask) :
    attempting.Obeys (task.program d) (fun _ _ => True) (attempting.start task) := by
  cases task with
  | recoverStale runnerId => exact free_obeys _ rfl
  | lifecycle call =>
      cases call with
      | execute id worker =>
          have hreturns : Returning id worker .claiming (executeInvocation d id worker) :=
            executeInvocation_returns hd
          exact Discipline.Obeys.toUnit
            (Discipline.Obeys.mono (obeysE_lift.mpr hreturns) fun _ _ _ => trivial)
      | _ => exact free_obeys _ rfl

end Programs

/-! ## Runs -/

/-- Surroundings in which middleware does not refuse. -/
structure RaceEnv where
  env : Env := {}
  middleware : env.middleware = .ok () := by rfl

def raceMachine (d : Deployment) : Machine runnerPorts MemRuntime RaceEnv RaceTask where
  exec e := MemRuntime.execRunner e.env
  program := RaceTask.program d

/-- The runtime before the first operation. -/
def raceStart : System runnerPorts MemRuntime RaceTask :=
  ⟨{}, []⟩

/-- It fails at most because the status machine refuses. -/
def RefusedAtMost {α : Type} : RustvelloResult α → Prop
  | .ok _ => True
  | .error e => IsRefusal e

/-- No backend call fails but with an error of the status machine.  What a call fails with does
not depend on the surroundings (`exec_error_surroundings`). -/
def backendsAnswer : Guard runnerPorts MemRuntime RaceTask where
  start _ _ := True
  call s _
    | .inl (.middlewareBefore _ _) => True
    | .inl c => RefusedAtMost (MemRuntime.exec {} c s.shared).1
    | .inr c => RefusedAtMost (MemRuntime.execRunner {} (.inr c) s.shared).1

/-- The worker of an attempt. -/
def RaceTask.worker? (task : RaceTask) : Option RunnerId :=
  task.attempt?.map Prod.snd

/-- While an attempt is under way, nobody else claims or runs anything in its worker's name. -/
def namesApart : Guard runnerPorts MemRuntime RaceTask where
  start _ _ := True
  call s i
    | .inl (.setInvocationStatus _ status (some worker)) =>
        (status = .pending ∨ status = .running) → ∀ j < s.threads.length, j ≠ i →
          ∀ t ∈ s.threads[j]?, t.next? ≠ none → t.task.worker? ≠ some worker
    | _ => True

/-- When an attempt writes `running`, its invocation is still its own. -/
def claimsUndisturbed : Guard runnerPorts MemRuntime RaceTask where
  start _ _ := True
  call s _
    | .inl (.setInvocationStatus id .running (some worker)) => Accepts s.shared id .running worker
    | _ => True

/-- The attempts of an invocation can be counted. -/
def attemptsCounted : Guard runnerPorts MemRuntime RaceTask where
  start _ _ := True
  call s _
    | .inl (.getExecutionIdentity id) => ∀ identity ∈ s.shared.backend.identities.lookup id,
        identity.attempt ≠ u32Max
    | .inl (.setExecutionIdentity _ identity) => identity.attempt ≠ u32Max
    | _ => True

/-! ## Answers -/

variable {status : InvocationStatus} {s : MemRuntime} {worker : RunnerId} {id : InvocationId}
  {now : Timestamp} {stage : AttemptStage} {c : PortCall}

/-- The clock has no part in a refusal. -/
theorem statusRecordTransition_error_at (now' : Timestamp) {current : Option InvocationStatusRecord}
    {runner : Option RunnerId} {e : StatusMachineError}
    (h : statusRecordTransition now current status runner = .error e) :
    statusRecordTransition now' current status runner = .error e := by
  unfold statusRecordTransition at h ⊢
  cases hstep : (validateTransition (current.map InvocationStatusRecord.status) status).mapError
      StatusMachineError.transition with
  | error e' =>
      rw [hstep] at h
      exact h
  | ok _ =>
      rw [hstep] at h
      cases howner : (validateOwnership current status runner).mapError
          StatusMachineError.ownership with
      | error e' =>
          rw [howner] at h
          exact h
      | ok _ =>
          rw [howner] at h
          cases h

variable {e : RustvelloError} {current : InvocationStatusRecord} {record : InvocationStatusRecord}

/-- What a call fails with does not depend on the surroundings, middleware apart. -/
theorem exec_error_surroundings {env : Env} (env' : Env)
    (hmiddleware : ∀ id taskId, c ≠ .middlewareBefore id taskId)
    (h : (MemRuntime.exec env c s).1 = .error e) : (MemRuntime.exec env' c s).1 = .error e := by
  cases c <;> first
    | (cases h; done)
    | exact h
    | exact absurd rfl (hmiddleware _ _)
    | skip
  case setInvocationStatus id status runner =>
      obtain ⟨_, record, _, _, -, -, hstatus⟩ | ⟨current, refusal, hlookup, htrans, hstatus⟩ |
        ⟨hlookup, hstatus⟩ := s.orchestrator.setInvocationStatus_cases env.clock id status runner
      · simp only [MemRuntime.exec, hstatus] at h
        cases h
      · simp only [MemRuntime.exec, hstatus] at h
        have htrans' := statusRecordTransition_error_at env'.clock htrans
        simp only [MemRuntime.exec, OrchestratorState.setInvocationStatus, hlookup, htrans']
        exact h
      · simp only [MemRuntime.exec, hstatus] at h
        simp only [MemRuntime.exec, OrchestratorState.setInvocationStatus, hlookup]
        exact h
  case routeInvocationAfter id taskId queue priority delayMs =>
      simp only [MemRuntime.exec, MemBroker.routeInvocationAfter] at h ⊢
      split at h
      · exact h
      · cases h
  case retrieveInvocationForLanguageFromQueue language queue =>
      simp only [MemRuntime.exec, MemBroker.retrieveInvocationForLanguageFromQueue] at h ⊢
      split at h
      · exact h
      · split at h <;> cases h

/-- In the runs of the claim no port call fails but with a refusal. -/
theorem exec_refusedAtMost {s : System runnerPorts MemRuntime RaceTask} {i : Nat}
    (h : backendsAnswer.call s i (.inl c)) (surroundings : RaceEnv) :
    RefusedAtMost (MemRuntime.exec surroundings.env c s.shared).1 := by
  by_cases hmiddleware : ∃ id taskId, c = .middlewareBefore id taskId
  · obtain ⟨id, taskId, rfl⟩ := hmiddleware
    simp only [MemRuntime.exec, surroundings.middleware]
    exact trivial
  · have hfree : ∀ id taskId, c ≠ .middlewareBefore id taskId := by
      intro id taskId hc
      exact hmiddleware ⟨id, taskId, hc⟩
    have hcall : RefusedAtMost (MemRuntime.exec {} c s.shared).1 := by
      cases c <;> exact h
    cases hanswer : (MemRuntime.exec surroundings.env c s.shared).1 with
    | ok a => exact trivial
    | error e =>
        rw [exec_error_surroundings {} hfree hanswer] at hcall
        exact hcall

theorem isRefusal_of_refused (h : IsRefusal e) : isRefusal e = true := by
  unfold isRefusal
  rcases h with h | h <;> simp [h]

/-- What an attempt claims about the shared state. -/
def AttemptBook.Claims (s : MemRuntime) (g : AttemptBook) : Prop :=
  ∀ id, ∀ record ∈ s.orchestrator.statusRecords.lookup id, g.Allows id record

/-- The runs in which attempts succeed. -/
def orderlyRaces : Guard runnerPorts MemRuntime RaceTask :=
  (backendsAnswer.and namesApart).and (claimsUndisturbed.and attemptsCounted)

variable {g : AttemptBook}

/-- **The answers of these runs** are those that attempts rely on. -/
theorem answers_expected {s : System runnerPorts MemRuntime RaceTask} {i : Nat}
    (h : orderlyRaces.call s i (.inl c)) (hclaims : g.Claims s.shared)
    (surroundings : RaceEnv) : g.Expects c (MemRuntime.exec surroundings.env c s.shared).1 := by
  obtain ⟨⟨hanswer, -⟩, hundisturbed, hcounted⟩ := h
  have hrefused := exec_refusedAtMost hanswer surroundings
  have hok : mayRefuse c = false →
      ∃ a, (MemRuntime.exec surroundings.env c s.shared).1 = .ok a := by
    intro hc
    cases hr : (MemRuntime.exec surroundings.env c s.shared).1 with
    | ok a => exact ⟨a, rfl⟩
    | error e =>
        rw [hr] at hrefused
        have hunrefused := exec_unrefused surroundings.env s.shared hc hr
        rw [isRefusal_of_refused hrefused] at hunrefused
        cases hunrefused
  cases c
  case setInvocationStatus id status runner =>
      intro e he
      rw [he] at hrefused
      refine ⟨hrefused, ?_⟩
      rintro rfl
      cases runner with
      | none => rfl
      | some worker =>
          obtain ⟨current, hlookup, hcan, howner⟩ := hundisturbed
          have htrans := (statusRecordTransition_ok_iff surroundings.env.clock current _ _ _).mpr
            ⟨hcan, howner, rfl⟩
          simp [MemRuntime.exec, OrchestratorState.setInvocationStatus, hlookup, htrans] at he
  case getInvocationStatus id =>
      obtain ⟨record, hrecord⟩ := hok rfl
      refine ⟨record, hrecord, ?_⟩
      simp only [MemRuntime.exec, OrchestratorState.getInvocationStatus] at hrecord
      split at hrecord
      · rename_i stored hlookup
        cases hrecord
        exact hclaims id _ hlookup
      · cases hrecord
  case getExecutionIdentity id => exact ⟨_, rfl, hcounted⟩
  case setExecutionIdentity id identity => exact ⟨rfl, hcounted⟩
  case middlewareBefore id taskId => exact ⟨(), surroundings.middleware⟩
  all_goals exact hok rfl

/-! ## Claims -/

/-- Only who writes `pending` or `running` gets to own the record. -/
theorem runnerId_of_owned {current record : InvocationStatusRecord} {runner : Option RunnerId}
    (htrans : statusRecordTransition now (some current) status runner = .ok record)
    (hstatus : status = .pending ∨ status = .running) (howner : record.runnerId = some worker) :
    runner = some worker := by
  obtain ⟨hcan, hownership, rfl⟩ := (statusRecordTransition_ok_iff _ _ _ _ _).mp htrans
  rcases hstatus with rfl | rfl
  · exact howner
  · -- `running` keeps the owner of a record that moves only for its owner
    have howned := InvocationStatus.owned_of_canTransitionTo_owned hcan (.inl rfl)
    have hrequires := (InvocationStatus.requiresOwnership_iff _).mpr howned
    have hsame := (hownership.resolve_left (by decide)).1 hrequires
    rw [hsame]
    exact howner

/-- The outcome of the owner of a running record is accepted. -/
theorem outcome_accepted (hrunning : current.status = .running)
    (howner : current.runnerId = some worker) (hstatus : AttemptStage.holding.Writes status) :
    ∃ record, statusRecordTransition now (some current) status (some worker) = .ok record := by
  refine ⟨_, (statusRecordTransition_ok_iff _ _ _ _ _).mpr ⟨?_, .inr ⟨?_, ?_⟩, rfl⟩⟩
  · rw [hrunning]
    rcases hstatus with rfl | rfl | rfl <;> decide
  · intro _
    exact howner.symm
  · intro _ h
    cases h

/-- A call of an operation that is no attempt leaves it without claims. -/
theorem claims_of_free (hg : g.attempt = none) :
    g.Claims s := by
  intro id record _ worker hattempt
  rw [hg] at hattempt
  cases hattempt

/-- What nobody owns is claimed by nobody. -/
theorem AttemptBook.Allows.of_unbarred
    (h : record.status ≠ .pending ∧ record.status ≠ .running) : g.Allows id record := by
  intro worker _ _ hbars
  rcases AttemptStage.owned_of_bars hbars with hstatus | hstatus
  · exact h.1 hstatus
  · exact h.2 hstatus

/-- The records are as they were, or a single one was written. -/
theorem AttemptBook.Claims.of_insert {s s' : MemRuntime} {x : InvocationId} (h : g.Claims s)
    (hrecords : s'.orchestrator.statusRecords = s.orchestrator.statusRecords.insert x record)
    (hnew : g.Allows x record) : g.Claims s' := by
  intro id stored hstored
  rw [hrecords] at hstored
  by_cases hid : id = x
  · subst hid
    rw [AList.lookup_insert] at hstored
    cases hstored
    exact hnew
  · rw [AList.lookup_insert_ne hid] at hstored
    exact h id stored hstored

theorem AttemptBook.Claims.of_eq {s s' : MemRuntime} (h : g.Claims s)
    (hrecords : s'.orchestrator.statusRecords = s.orchestrator.statusRecords) : g.Claims s' := by
  unfold Claims
  rw [hrecords]
  exact h

/-- **A call of another operation** keeps the claims of an attempt, unless it claims or runs
something in the name of its worker. -/
theorem AttemptBook.Claims.others (h : g.Claims s) (env : Env) (c : runnerPorts.Op)
    (hapart : ∀ x status worker, c = .inl (.setInvocationStatus x status (some worker)) →
      (status = .pending ∨ status = .running) → ∀ id, g.attempt ≠ some (id, worker)) :
    g.Claims (MemRuntime.execRunner env c s).2 := by
  obtain hsame | ⟨x, call, runner, rfl, hrecords⟩ |
    ⟨x, status, runner, current, record, rfl, -, htrans, hrecords⟩ :=
    MemRuntime.execRunner_statusRecords env c s
  · exact h.of_eq hsame
  · exact h.of_insert hrecords
      (.of_unbarred ⟨InvocationStatus.noConfusion, InvocationStatus.noConfusion⟩)
  · refine h.of_insert hrecords ?_
    intro worker hattempt howner hbars
    have hstatus : record.status = status := by
      obtain ⟨-, -, rfl⟩ := (statusRecordTransition_ok_iff _ _ _ _ _).mp htrans
      rfl
    rw [hstatus] at hbars
    have howned := AttemptStage.owned_of_bars hbars
    have hrunner := runnerId_of_owned htrans howned howner
    exact hapart x status worker (by rw [hrunner]) howned x hattempt

/-- The claims of an attempt are about one record. -/
theorem claims_of_record (hattempt : g.attempt = some (id, worker))
    (h : ∀ record ∈ s.orchestrator.statusRecords.lookup id, record.runnerId = some worker →
      ¬g.stage.Bars record.status) : g.Claims s := by
  intro id' record hrecord worker' hattempt' howner
  rw [hattempt] at hattempt'
  cases hattempt'
  exact h record hrecord howner

/-- **An accepted write of the attempt**: a `running` record is held, an outcome is let go. -/
theorem claims_of_accepted {s s' : MemRuntime} {record answer : InvocationStatusRecord}
    (hwrites : stage.Writes status) (hrecord : record.status = status)
    (hrecords : s'.orchestrator.statusRecords = s.orchestrator.statusRecords.insert id record) :
    (attempting.next (.inl (.setInvocationStatus id status (some worker))) (.ok answer)
      (attemptAt id worker stage)).Claims s' := by
  have hstored : ∀ stored ∈ s'.orchestrator.statusRecords.lookup id, stored.status = status := by
    intro stored hlookup
    rw [hrecords, AList.lookup_insert] at hlookup
    cases hlookup
    exact hrecord
  have hattempt : (attempting.next (.inl (.setInvocationStatus id status (some worker)))
      (.ok answer) (attemptAt id worker stage)).attempt = some (id, worker) :=
    attempting_next_attempt _ _ _
  refine claims_of_record hattempt ?_
  intro stored hlookup _ hbars
  rw [hstored stored hlookup] at hbars
  cases stage with
  | claiming =>
      rcases hwrites with rfl | rfl
      · exact hbars
      · cases hbars
  | holding =>
      rcases hwrites with rfl | rfl | rfl <;> cases hbars
  | refused => exact hwrites

/-- **A refused write of the attempt**: what refuses an outcome is not the worker's record. -/
theorem claims_of_refused {refusal : StatusMachineError} (h : (attemptAt id worker stage).Claims s)
    (hwrites : stage.Writes status)
    (hlookup : s.orchestrator.statusRecords.lookup id = some current)
    (htrans : statusRecordTransition now (some current) status (some worker) = .error refusal) :
    (attempting.next (.inl (.setInvocationStatus id status (some worker))) (.error e)
      (attemptAt id worker stage)).Claims s := by
  cases stage with
  | claiming =>
      have hsame : attempting.next (.inl (.setInvocationStatus id status (some worker)))
          (.error e) (attemptAt id worker .claiming) = attemptAt id worker .claiming := by
        cases status <;> rfl
      rw [hsame]
      exact h
  | refused => exact hwrites.elim
  | holding =>
      have hnext : attempting.next (.inl (.setInvocationStatus id status (some worker)))
          (.error e) (attemptAt id worker .holding) = attemptAt id worker .refused := by
        cases status <;> rfl
      rw [hnext]
      refine claims_of_record rfl ?_
      intro record hrecord howner hheld
      rw [hlookup] at hrecord
      cases hrecord
      rcases hheld with hpending | hrunning
      · exact h id current hlookup worker rfl howner hpending
      · obtain ⟨record, haccepted⟩ := outcome_accepted hrunning howner hwrites
        rw [htrans] at haccepted
        cases haccepted

/-- A status write of the attempt keeps its claims. -/
theorem AttemptBook.Claims.write (h : (attemptAt id worker stage).Claims s)
    (hwrites : stage.Writes status) (env : Env) :
    (attempting.next (.inl (.setInvocationStatus id status (some worker)))
      (MemRuntime.exec env (.setInvocationStatus id status (some worker)) s).1
      (attemptAt id worker stage)).Claims
        (MemRuntime.exec env (.setInvocationStatus id status (some worker)) s).2 := by
  obtain ⟨current, record, ccIndex, ccReverse, -, htrans, heq⟩ |
    ⟨current, refusal, hlookup, htrans, heq⟩ | ⟨hlookup, heq⟩ :=
    s.orchestrator.setInvocationStatus_cases env.clock id status (some worker)
  · have hrecord : record.status = status := by
      obtain ⟨-, -, rfl⟩ := (statusRecordTransition_ok_iff _ _ _ _ _).mp htrans
      rfl
    simp only [MemRuntime.exec, heq]
    exact claims_of_accepted hwrites hrecord rfl
  · simp only [MemRuntime.exec, heq]
    exact claims_of_refused h hwrites hlookup htrans
  · -- without a record there is nothing to claim
    simp only [MemRuntime.exec, heq]
    have hattempt : (attempting.next (.inl (.setInvocationStatus id status (some worker)))
        (.error (.invocationNotFound id)) (attemptAt id worker stage)).attempt =
          some (id, worker) :=
      attempting_next_attempt _ _ _
    refine claims_of_record hattempt ?_
    intro record hrecord
    rw [hlookup] at hrecord
    cases hrecord

/-- Calls that write no status leave the book as it is. -/
theorem attempting_next_unwritten (hc : writesStatus c = false) (r : RustvelloResult c.Ans)
    (g : AttemptBook) : attempting.next (.inl c) r g = g := by
  cases c <;> first
    | rfl
    | cases hc

/-- **A call of the attempt itself** keeps its claims. -/
theorem AttemptBook.Claims.own (h : g.Claims s) (env : Env) (c : runnerPorts.Op)
    (hpre : attempting.pre c g) :
    (attempting.next c (MemRuntime.execRunner env c s).1 g).Claims
      (MemRuntime.execRunner env c s).2 := by
  obtain ⟨attempt, stage⟩ := g
  cases attempt with
  | none => exact claims_of_free (attempting_next_attempt _ _ _)
  | some attempt =>
      obtain ⟨id, worker⟩ := attempt
      have hunwritten : (∀ x status runner, c ≠ .inl (.setInvocationStatus x status runner)) →
          AttemptBook.Claims (MemRuntime.execRunner env c s).2 (attemptAt id worker stage) := by
        intro hc
        exact h.others env c fun x status _ hwrite => absurd hwrite (hc x status _)
      cases c with
      | inr c => exact hunwritten fun _ _ _ hc => by cases hc
      | inl c =>
          cases hwrite : writesStatus c with
          | false =>
              have hsame : attempting.next (.inl c) (MemRuntime.execRunner env (.inl c) s).1
                  (attemptAt id worker stage) = attemptAt id worker stage :=
                attempting_next_unwritten hwrite _ _
              have hclaims : AttemptBook.Claims (MemRuntime.execRunner env (.inl c) s).2
                  (attemptAt id worker stage) := by
                refine hunwritten ?_
                rintro x status runner ⟨⟩
                cases hwrite
              rw [← hsame] at hclaims
              exact hclaims
          | true =>
              cases c <;> first
                | (cases hwrite; done)
                | skip
              case setInvocationStatus x status runner =>
                obtain ⟨rfl, rfl, hwrites⟩ := hpre id worker rfl
                exact Claims.write h hwrites env

/-! ## Every run -/

/-- An operation works in the name that its book has. -/
theorem book_attempt (t : Thread runnerPorts RaceTask) :
    (attempting.book t).attempt = t.task.attempt? := by
  have hread : ∀ log, (attempting.read t.task log).attempt = t.task.attempt? := by
    intro log
    induction log with
    | nil => rfl
    | cons e log ih => exact (attempting_next_attempt _ _ _).trans ih
  exact hread t.log

/-- **What an attempt can rely on**: until it has ended, what refuses its outcomes is not a record
of its own. -/
theorem races_undisturbed {d : Deployment} (hd : d.publication = false) :
    attempting.Undisturbed (fun _ => True) (fun s g => g.Claims s) (raceMachine d) orderlyRaces
      raceStart where
  program _ task _ := RaceTask.program_obeys hd task
  idle := rfl
  holds := trivial
  start s task _ _ := by
    intro id record _ worker _ _ hbars
    exact hbars
  call s i surroundings t c _ _ hallowed hpre _ hclaims := by
    refine ⟨?_, trivial, hclaims.own surroundings.env c hpre⟩
    cases c with
    | inl c => exact answers_expected hallowed hclaims surroundings
    | inr c => trivial
  others s i surroundings t c j t' _ _ hallowed _ _ _ hij ht' hopen hclaims := by
    refine hclaims.others surroundings.env c ?_
    rintro x status worker rfl howned id hattempt
    obtain ⟨⟨-, hapart⟩, -⟩ := hallowed
    have hj : j < s.threads.length := (List.getElem?_eq_some_iff.mp ht').1
    refine hapart howned j hj (Ne.symm hij) t' ht' hopen ?_
    rw [book_attempt] at hattempt
    simp [RaceTask.worker?, hattempt]

/-- **Every attempt returns without an error**, however cancellations, recovery passes and other
workers come in between: as long as its invocation is still its own when it writes `running`, and
its attempts can be counted. -/
theorem attempts_return {d : Deployment} (hd : d.publication = false)
    {s : System runnerPorts MemRuntime RaceTask}
    (hreach : Reachable (raceMachine d) orderlyRaces raceStart s)
    {t : Thread runnerPorts RaceTask} (ht : t ∈ s.threads) {id : InvocationId}
    {worker : RunnerId} (htask : t.task = .lifecycle (.execute id worker))
    (hdone : t.next? = none) :
    t.returned (lift (executeInvocation d id worker)).run = some (.ok ()) := by
  have hprogram : (raceMachine d).program t.task =
      Prog.toUnit (lift (executeInvocation d id worker)).run := by
    rw [htask]
    rfl
  have hstart : attempting.start t.task = attemptAt id worker .claiming := by
    rw [htask]
    rfl
  obtain ⟨result, hresult⟩ := Reachable.returned rfl hreach ht hprogram hdone
  have hreturns : Returning id worker .claiming (executeInvocation d id worker) :=
    executeInvocation_returns hd
  have hobeys := obeysE_lift.mpr hreturns
  rw [← hstart] at hobeys
  have houtcome := (races_undisturbed hd).outcome hreach ht hobeys hresult
  rw [hresult]
  cases result with
  | ok _ => rfl
  | error e => exact houtcome.elim

/-! ### A cancellation between two writes -/

instance (e : RustvelloError) : Decidable (IsRefusal e) :=
  inferInstanceAs (Decidable (_ ∨ _))

instance decidableRefusedAtMost {α : Type} (r : RustvelloResult α) :
    Decidable (RefusedAtMost r) :=
  match r with
  | .ok _ => .isTrue trivial
  | .error e => inferInstanceAs (Decidable (IsRefusal e))

section Decidable

variable (s : System runnerPorts MemRuntime RaceTask)

instance (task : RaceTask) : Decidable (backendsAnswer.start s task) := .isTrue trivial

instance (task : RaceTask) : Decidable (namesApart.start s task) := .isTrue trivial

instance (task : RaceTask) : Decidable (claimsUndisturbed.start s task) := .isTrue trivial

instance (task : RaceTask) : Decidable (attemptsCounted.start s task) := .isTrue trivial

instance (i : Nat) (c : runnerPorts.Op) : Decidable (backendsAnswer.call s i c) := by
  induction c using Sum.casesOn with
  | inl c =>
    induction c using PortCall.casesOn with
    | middlewareBefore _ _ => exact .isTrue trivial
    | _ =>
        dsimp only [backendsAnswer]
        exact decidableRefusedAtMost _
  | inr c =>
    dsimp only [backendsAnswer]
    exact decidableRefusedAtMost _

instance (i : Nat) (c : runnerPorts.Op) : Decidable (namesApart.call s i c) := by
  induction c using Sum.casesOn with
  | inl c =>
    induction c using PortCall.casesOn with
    | setInvocationStatus _ status runner =>
        induction runner using Option.casesOn with
        | none => exact .isTrue trivial
        | some worker =>
            exact inferInstanceAs (Decidable ((status = .pending ∨ status = .running) →
              ∀ j < s.threads.length, j ≠ i → ∀ t ∈ s.threads[j]?, t.next? ≠ none →
                t.task.worker? ≠ some worker))
    | _ => exact .isTrue trivial
  | inr c => exact .isTrue trivial

instance (i : Nat) (c : runnerPorts.Op) : Decidable (claimsUndisturbed.call s i c) := by
  induction c using Sum.casesOn with
  | inl c =>
    induction c using PortCall.casesOn with
    | setInvocationStatus id status runner =>
        induction runner using Option.casesOn with
        | none => induction status using InvocationStatus.casesOn <;> exact .isTrue trivial
        | some worker =>
            induction status using InvocationStatus.casesOn with
            | running => exact inferInstanceAs (Decidable (Accepts s.shared id .running worker))
            | _ => exact .isTrue trivial
    | _ => exact .isTrue trivial
  | inr c => exact .isTrue trivial

instance (i : Nat) (c : runnerPorts.Op) : Decidable (attemptsCounted.call s i c) := by
  induction c using Sum.casesOn with
  | inl c =>
    induction c using PortCall.casesOn with
    | getExecutionIdentity id =>
        exact inferInstanceAs (Decidable (∀ identity ∈ s.shared.backend.identities.lookup id,
          identity.attempt ≠ u32Max))
    | setExecutionIdentity _ identity =>
        exact inferInstanceAs (Decidable (identity.attempt ≠ u32Max))
    | _ => exact .isTrue trivial
  | inr c => exact .isTrue trivial

instance (task : RaceTask) : Decidable (orderlyRaces.start s task) :=
  inferInstanceAs (Decidable (((backendsAnswer.and namesApart).and
    (claimsUndisturbed.and attemptsCounted)).start s task))

instance (i : Nat) (c : runnerPorts.Op) : Decidable (orderlyRaces.call s i c) :=
  inferInstanceAs (Decidable (((backendsAnswer.and namesApart).and
    (claimsUndisturbed.and attemptsCounted)).call s i c))

end Decidable

/-- Surroundings in which every attempt succeeds. -/
def idleRaces : RaceEnv where

/-- `a` is submitted, and a worker has come to the call before which a client cancels it. -/
def cancelledAfter (calls : Nat) (rest : Nat) : List (Label RaceEnv RaceTask) :=
  .start (.lifecycle (.submit
    { invocationId := ⟨"a"⟩
      call := .new serialDeployment.sha256Hex serialTask .empty
      callerRunnerId := ⟨"client"⟩ })) :: Label.steps 0 6 idleRaces ++
    .start (.lifecycle (.execute ⟨"a"⟩ ⟨"w"⟩)) :: Label.steps 1 calls idleRaces ++
    .start (.lifecycle (.cancel ⟨"a"⟩ ⟨"client"⟩)) :: Label.steps 2 5 idleRaces ++
    Label.steps 1 rest idleRaces

theorem attempts_return_cancelled :
    ∃ s, Reachable (raceMachine serialDeployment) orderlyRaces raceStart s ∧
      s.shared.orchestrator.statusOf ⟨"a"⟩ = some .cancelled ∧
      ∃ t ∈ s.threads, t.returned (lift (executeInvocation serialDeployment ⟨"a"⟩ ⟨"w"⟩)).run =
        some (.ok ()) := by
  obtain ⟨s, hreach, hcancelled, t, ht, htask, hdone⟩ := Reachable.exists_of_run
    (raceMachine serialDeployment) orderlyRaces raceStart (cancelledAfter 5 11)
    (fun s => s.shared.orchestrator.statusOf ⟨"a"⟩ = some .cancelled ∧
      ∃ t ∈ s.threads, t.task = .lifecycle (.execute ⟨"a"⟩ ⟨"w"⟩) ∧ t.next? = none)
    (by decide +kernel) (by decide +kernel)
  exact ⟨s, hreach, hcancelled, t, ht, attempts_return rfl hreach ht htask hdone⟩

/-- **A cancellation can fail the worker**: it comes after the claim and before the `running`
write, which is refused and not looked into. -/
theorem cancelled_claim_fails :
    ∃ s, Reachable (raceMachine serialDeployment) (backendsAnswer.and namesApart) raceStart s ∧
      ∃ t ∈ s.threads, t.task = .lifecycle (.execute ⟨"a"⟩ ⟨"w"⟩) ∧
        t.returned (lift (executeInvocation serialDeployment ⟨"a"⟩ ⟨"w"⟩)).run =
          some (.error (.invalidStatusTransition ⟨"a"⟩ .cancelled .running [])) :=
  Reachable.exists_of_run (raceMachine serialDeployment) (backendsAnswer.and namesApart) raceStart
    (cancelledAfter 2 1)
    (fun s => ∃ t ∈ s.threads, t.task = .lifecycle (.execute ⟨"a"⟩ ⟨"w"⟩) ∧
      t.returned (lift (executeInvocation serialDeployment ⟨"a"⟩ ⟨"w"⟩)).run =
        some (.error (.invalidStatusTransition ⟨"a"⟩ .cancelled .running [])))
    (by decide +kernel) (by decide +kernel)

end Rustvello.Mem
