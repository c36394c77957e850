import Rustvello.Mem.Runners

/-!
# Worker identities

A worker claims invocations under an identity, and its heartbeats keep what that identity owns
from being recovered.  Backends may fail at any call, so an attempt can end and leave its
invocation `pending` or `running`.  `PersistentTokioRunner::worker_loop` retires the identity
then; `RayonRunner::run` takes identities from a pool of slots and gives every slot back.

* `Workforce.exec` — the in-memory backends, where a call may fail before or after it has taken
  effect, and the identities;
* `workerLoop`, `rayonAttempt` — the two runners;
* `tenure` — the discipline: which invocation an identity may own, and how far its attempt is;
* `executeInvocation_tenure` — an attempt that ends without an error has given its invocation up;
* `Exclusive` — the invariant;
* `attemptsGivenUp` — the runs in which no attempt leaves a slot its invocation;
* `sole_claim` — in these runs an identity owns at most the invocation of its last attempt;
* `slot_reused_while_owning` — after a failed attempt a slot is used again, and its identity owns
  two live invocations.
-/

namespace Rustvello.Runner

open Concurrency Proto Rustvello.Core Orchestration Mem

/-! ## Backends that fail -/

/-- A call that fails, perhaps after it has taken effect. -/
structure BackendFailure where
  error : RustvelloError
  applied : Bool
  unrelated : isRefusal error = false

/-- The surroundings of a call. -/
structure WorkEnv where
  env : Env := {}
  failure : Option BackendFailure := none

/-- The call goes to a backend. -/
def reachesBackend : PortCall → Bool
  | .utcNow | .randomUnit | .queueNamesForRetrieval _ | .allocateTraceContext _
  | .middlewareBefore _ _ | .superviseAttempt _ _ _ => false
  | _ => true

/-- What runners do about identities. -/
inductive IdentityCall where
  | newRunnerId
  | acquireWorkerSlot
  | releaseWorkerSlot (worker : RunnerId)
  | heartbeat (worker : RunnerId)
deriving DecidableEq

abbrev IdentityCall.Ans : IdentityCall → Type
  | newRunnerId => RunnerId
  | acquireWorkerSlot => Option RunnerId
  | releaseWorkerSlot _ => Unit
  | heartbeat _ => RustvelloResult Unit

abbrev workPorts : Interface :=
  ports.sum ⟨IdentityCall, IdentityCall.Ans⟩

/-- The backends, the number of identities made so far, and the free slots, last pushed
first. -/
structure Workforce where
  runtime : MemRuntime := {}
  issued : Nat := 0
  workerSlots : List RunnerId := []

namespace Workforce

/-- One call to a backend. -/
def portExec (env : WorkEnv) (c : PortCall) (s : MemRuntime) : RustvelloResult c.Ans × MemRuntime :=
  match env.failure.filter fun _ => reachesBackend c with
  | none => MemRuntime.exec env.env c s
  | some failure =>
      (.error failure.error, if failure.applied then (MemRuntime.exec env.env c s).2 else s)

/-- One call; `name` makes the identities, one after the other. -/
def exec (name : Nat → RunnerId) (env : WorkEnv) :
    (c : workPorts.Op) → Workforce → workPorts.Ret c × Workforce
  | .inl c, s =>
      let answer := portExec env c s.runtime
      (answer.1, { s with runtime := answer.2 })
  | .inr .newRunnerId, s => (name s.issued, { s with issued := s.issued + 1 })
  | .inr .acquireWorkerSlot, s =>
      (s.workerSlots.head?, { s with workerSlots := s.workerSlots.tail })
  | .inr (.releaseWorkerSlot worker), s => ((), { s with workerSlots := worker :: s.workerSlots })
  | .inr (.heartbeat worker), s =>
      match env.failure with
      | none => (.ok (), { s with runtime := { s.runtime with
          orchestrator := s.runtime.orchestrator.registerHeartbeat env.env.clock worker } })
      | some failure => (.error failure.error, s)

/-- What a call to a backend can do. -/
theorem portExec_cases (env : WorkEnv) (c : PortCall) (s : MemRuntime) :
    portExec env c s = MemRuntime.exec env.env c s ∨
      ∃ failure : BackendFailure, reachesBackend c = true ∧
        (portExec env c s).1 = .error failure.error ∧
        ((portExec env c s).2 = s ∨ (portExec env c s).2 = (MemRuntime.exec env.env c s).2) := by
  unfold portExec
  split
  · exact .inl rfl
  · rename_i failure hfailure
    obtain ⟨-, hreaches⟩ := Option.filter_eq_some_iff.mp hfailure
    refine .inr ⟨failure, hreaches, rfl, ?_⟩
    dsimp only
    split
    · exact .inr rfl
    · exact .inl rfl

end Workforce

/-! ## The runners -/

section Runners

variable (d : Deployment) (language : TaskLanguage) (caller : RunnerId)

/-- A call about identities. -/
def identityCall (c : IdentityCall) : Prog workPorts c.Ans :=
  Prog.request (I := workPorts) (.inr c)

/-- A part of the orchestrator, error or not. -/
def inspected {α : Type} (p : Orch α) : Prog workPorts (RustvelloResult α) :=
  p.run.inl

/-- Run one invocation as a worker; `caller` is the runner whose control plane claims. -/
def runOneAsWorker (worker : RunnerId) : Orch Bool := do
  match ← claimNext d language caller with
  | some id =>
      executeInvocation d id worker
      pure true
  | none => pure false

/-- `worker_loop`, for a number of polls.  After an error the worker goes on under a new
identity. -/
def workerLoop : Nat → RunnerId → Prog workPorts Unit
  | 0, _ => pure ()
  | polls + 1, worker => do
      match ← inspected (runOneAsWorker d language caller worker) with
      | .ok _ => workerLoop polls worker
      | .error _ => do
          let fresh ← identityCall .newRunnerId
          let _ ← identityCall (.heartbeat fresh)
          workerLoop polls fresh

/-- A worker of `PersistentTokioRunner::run`. -/
def tokioWorker (polls : Nat) : Prog workPorts Unit := do
  let worker ← identityCall .newRunnerId
  let _ ← identityCall (.heartbeat worker)
  workerLoop d language caller polls worker

/-- One turn of the loop in `RayonRunner::run`, with the task that it spawns.  The slot is
given back however the attempt ends. -/
def rayonAttempt : Prog workPorts Unit := do
  match ← inspected (claimNext d language caller) with
  | .error _ => pure ()
  | .ok none => pure ()
  | .ok (some id) => do
      match ← identityCall .acquireWorkerSlot with
      | none => pure ()
      | some worker => do
          let _ ← identityCall (.heartbeat worker)
          let _ ← inspected (executeInvocation d id worker)
          identityCall (.releaseWorkerSlot worker)

end Runners

/-- Workers, and single calls of everybody else. -/
inductive WorkTask where
  | tokioWorker (language : TaskLanguage) (polls : Nat)
  | rayonAttempt (language : TaskLanguage)
  | other (c : PortCall)
deriving DecidableEq

/-- Both runners, and whatever others do to the backends. -/
def workMachine (name : Nat → RunnerId) (d : Deployment) (caller : RunnerId) :
    Machine workPorts Workforce WorkEnv WorkTask where
  exec := Workforce.exec name
  program
    | .tokioWorker language polls => tokioWorker d language caller polls
    | .rayonAttempt language => rayonAttempt d language caller
    | .other c => (Prog.request (I := workPorts) (.inl c)).toUnit

/-- Empty backends, and as many slots as Rayon threads. -/
def freshWorkforce (name : Nat → RunnerId) (threads : Nat) : System workPorts Workforce WorkTask :=
  ⟨{ issued := threads, workerSlots := (List.range threads).map name }, []⟩

/-- The status that a claimed invocation has. -/
def isLive (status : InvocationStatus) : Bool :=
  status = .pending || status = .running

/-- The runner that would own what a call makes live. -/
def claimant : PortCall → Option RunnerId
  | .setInvocationStatus _ status runner => if isLive status then runner else none
  | _ => none

/-- A record that makes `worker` own the invocation, which is `pending` or `running`. -/
def Owned (s : MemRuntime) (id : InvocationId) (record : InvocationStatusRecord)
    (worker : RunnerId) : Prop :=
  s.orchestrator.statusRecords.lookup id = some record ∧ isLive record.status = true ∧
    record.runnerId = some worker

/-- `worker` owns the invocation, and it is `pending` or `running`. -/
def Owns (s : MemRuntime) (id : InvocationId) (worker : RunnerId) : Prop :=
  ∃ record, Owned s id record worker

/-! ## The discipline -/

/-- How far an attempt is. -/
inductive Phase where
  | claimed
  | running
deriving DecidableEq

/-- The identity of a worker, and the only invocation that it may own. -/
structure Tenure where
  identity : Option RunnerId := none
  holds : Option (InvocationId × Phase) := none

/-- A status write and its answer.  Only a refusal says for sure that nothing was written. -/
def Tenure.afterWrite (id : InvocationId) :
    InvocationStatus → RustvelloResult InvocationStatusRecord → Tenure → Tenure
  | .pending, .ok _, g => { g with holds := some (id, .claimed) }
  | .pending, .error e, g =>
      if isRefusal e then { g with holds := none } else { g with holds := some (id, .claimed) }
  | .running, .ok _, g => { g with holds := some (id, .running) }
  | .running, .error _, g => { g with holds := some (id, .claimed) }
  | _, .ok _, g => { g with holds := none }
  | _, .error e, g => if isRefusal e then { g with holds := none } else g

/-- A worker claims when it owns nothing, and then takes its invocation through the statuses;
others do not claim under an identity of a worker. -/
def MayWrite (name : Nat → RunnerId) (id : InvocationId) (status : InvocationStatus)
    (worker : RunnerId) (g : Tenure) : Prop :=
  match g.identity with
  | none => isLive status = true → ∀ k, name k ≠ worker
  | some own => worker = own ∧
      match status with
      | .pending => g.holds = none
      | .running => g.holds = some (id, .claimed)
      | _ => g.holds = some (id, .running) ∧
          InvocationStatus.canTransitionTo .running status = true

/-- An identity owns at most the invocation that it claimed last. -/
def tenure (name : Nat → RunnerId) : Discipline workPorts WorkTask Tenure where
  start _ := {}
  next
    | .inl (.setInvocationStatus id status (some _)), r, g => g.afterWrite id status r
    | .inl (.superviseAttempt _ _ _), .ok outcome, g =>
        if outcome.interruption = some .cancelled then { g with holds := none } else g
    | .inr .newRunnerId, worker, _ => { identity := some worker }
    | .inr .acquireWorkerSlot, worker, _ => { identity := worker }
    | .inr (.releaseWorkerSlot _), _, _ => {}
    | _, _, g => g
  pre
    | .inl (.setInvocationStatus id status (some worker)), g => MayWrite name id status worker g
    | .inl (.superviseAttempt context _ _), g => ∀ held ∈ g.holds, held.1 = context.invocationId
    | .inr .acquireWorkerSlot, g => g.identity = none
    | .inr (.releaseWorkerSlot worker), g => g.identity = some worker
    | _, _ => True
  resp
    | .inl c, _, r => ∀ e, r = .error e → isRefusal e = true → mayRefuse c = true
    | .inr _, _, _ => True

section Attempts

variable {name : Nat → RunnerId} {α β : Type} {status : InvocationStatus}

/-- Calls that the discipline looks at. -/
def marks : PortCall → Bool
  | .setInvocationStatus _ _ (some _) | .superviseAttempt _ _ _ => true
  | _ => false

theorem quiet_of_unmarked {c : PortCall} (h : marks c = false) : (tenure name).left.Quiet c := by
  intro g
  cases c <;> first
    | exact ⟨trivial, fun _ => rfl⟩
    | skip
  case setInvocationStatus id status runner =>
      cases runner with
      | none => exact ⟨trivial, fun _ => rfl⟩
      | some worker => cases h
  case superviseAttempt context timeoutMs cancelCheck => cases h

theorem calm_of_unmarked {c : PortCall} (hmark : marks c = false) (hrefuse : mayRefuse c = false) :
    Calm (tenure name).left c where
  quiet := quiet_of_unmarked hmark
  unrefused g e h := by
    cases hrefusal : isRefusal e with
    | false => rfl
    | true =>
        have hrefuses : mayRefuse c = true := h e rfl hrefusal
        rw [hrefuse] at hrefuses
        cases hrefuses

theorem tenure_calmAside : CalmAside (tenure name).left where
  lookups := ⟨fun _ => calm_of_unmarked rfl rfl, fun _ => calm_of_unmarked rfl rfl⟩
  reports := ⟨fun _ _ _ _ => calm_of_unmarked rfl rfl, fun _ _ _ _ => calm_of_unmarked rfl rfl,
    fun _ _ _ _ _ => calm_of_unmarked rfl rfl⟩
  release _ := calm_of_unmarked rfl rfl
  purge _ := calm_of_unmarked rfl rfl
  history _ := calm_of_unmarked rfl rfl

variable {d : Deployment} (id : InvocationId) (worker : RunnerId)

/-- The statuses with which an attempt ends. -/
theorem afterWrite_outcome (hlive : isLive status = false)
    (r : RustvelloResult InvocationStatusRecord) (g : Tenure) :
    g.afterWrite id status r = match r with
      | .ok _ => { g with holds := none }
      | .error e => if isRefusal e then { g with holds := none } else g := by
  cases status <;> first
    | (cases hlive; done)
    | (cases r <;> rfl)

/-- From this book on, an attempt that ends without an error has given its invocation up. -/
def Settles (name : Nat → RunnerId) (worker : RunnerId) (p : Orch α) (g : Tenure) : Prop :=
  (tenure name).left.ObeysE p (fun _ g' => g' = ⟨some worker, none⟩)
    (fun _ g' => g'.identity = some worker) g

/-- An outcome that is inspected: accepted or refused, the invocation is given up. -/
def Closes (name : Nat → RunnerId) (worker : RunnerId) (p : Orch α) (g : Tenure) : Prop :=
  (tenure name).left.ObeysE p (fun _ g' => g' = ⟨some worker, none⟩)
    (fun e g' => g'.identity = some worker ∧ (isRefusal e = true → g' = ⟨some worker, none⟩)) g

variable {g : Tenure}

/-- A part that calls nothing the discipline looks at, then the rest. -/
theorem settles_bind {p : Orch α} {f : α → Orch β}
    (hp : Prog.UsesE (tenure name).left.Answers (tenure name).left.Quiet p)
    (hg : g.identity = some worker) (hf : ∀ a, Settles name worker (f a) g) :
    Settles name worker (p >>= f) g :=
  Discipline.ObeysE.bind_of_uses hp (fun _ => hg) hf

theorem settles_of_quiet {p : Orch α}
    (hp : Prog.UsesE (tenure name).left.Answers (tenure name).left.Quiet p) :
    Settles name worker p ⟨some worker, none⟩ := by
  refine (Discipline.ObeysE.of_uses hp _).mono (fun _ _ h => h) ?_
  rintro _ _ rfl
  rfl

/-- A steady part before the outcome is written. -/
theorem closes_bind {p : Orch α} {f : α → Orch β} (hp : Steady (tenure name).left p)
    (hg : g.identity = some worker) (hf : ∀ a, Closes name worker (f a) g) :
    Closes name worker (p >>= f) g := by
  refine Discipline.ObeysE.bind ((hp g).mono (fun _ _ h => h) ?_) ?_
  · rintro e _ ⟨rfl, he⟩
    refine ⟨hg, fun h => ?_⟩
    rw [he] at h
    cases h
  · rintro a _ rfl
    exact hf a

/-- A steady part after the outcome was written. -/
theorem Closes.bind_steady {p : Orch α} {f : α → Orch β} (hp : Closes name worker p g)
    (hf : ∀ a, Steady (tenure name).left (f a)) :
    Closes name worker (p >>= f) g := by
  refine Discipline.ObeysE.bind hp ?_
  rintro a _ rfl
  refine (hf a _).mono (fun _ _ h => h) ?_
  rintro e _ ⟨rfl, -⟩
  exact ⟨rfl, fun _ => rfl⟩

/-- **An outcome that is settled without an error is given up.** -/
theorem settleOutcome_settles {p : Orch Unit} {accepted : Orch Unit} (hp : Closes name worker p g)
    (haccepted : Prog.UsesE (tenure name).left.Answers (tenure name).left.Quiet accepted) :
    Settles name worker (do
      let written ← attempt p
      settleOutcome d id worker written accepted) g := by
  have hlook : ∀ written, Prog.UsesE (tenure name).left.Answers (tenure name).left.Quiet
      (discardedOutcome id worker written) :=
    usesE_discardedOutcome (fun _ => quiet_of_unmarked rfl) id worker
  have hrelease : Prog.UsesE (tenure name).left.Answers (tenure name).left.Quiet
      (releaseNontransactionalConcurrencySlot d id) := by
    unfold releaseNontransactionalConcurrencySlot
    split
    · exact usesE_pure _
    · exact usesE_port (quiet_of_unmarked rfl)
  have hgiven : ∀ written, Settles name worker (settleOutcome d id worker written accepted)
      ⟨some worker, none⟩ := by
    intro written
    refine settles_of_quiet worker (Prog.usesE_bind (hlook written) ?_)
    rintro (_ | reason)
    · exact haccepted
    · dsimp only
      unfold finishDiscarded
      split
      · exact usesE_pure _
      · exact Prog.usesE_bind (usesE_attempt hrelease) fun _ => usesE_pure _
  refine obeysE_attempt_bind.mpr (hp.mono ?_ ?_)
  · rintro a _ rfl
    exact hgiven (.ok a)
  · rintro e g' ⟨hidentity, hrefused⟩
    cases hrefusal : isRefusal e with
    | true =>
        rw [hrefused hrefusal]
        exact hgiven (.error e)
    | false =>
        -- the error of a backend ends the attempt
        have hthrow : discardedOutcome id worker (.error e) = throw e := by
          have hnone : ¬ (e.isInvalidStatusTransition = true ∨ e.isOwnershipViolation = true ∨
              e.isStatusRaceCondition = true) := by
            unfold isRefusal at hrefusal
            simp only [Bool.or_eq_false_iff] at hrefusal
            simp [hrefusal]
          simp only [discardedOutcome]
          rw [if_neg hnone]
        unfold settleOutcome
        rw [hthrow]
        exact hidentity

variable (hd : d.publication = false)
include hd

/-- A status change, in terms of the book. -/
theorem statusChange_obeys (taskId : TaskId) (arguments : SerializedArguments) {Q : Tenure → Prop}
    {E : RustvelloError → Tenure → Prop} (hpre : MayWrite name id status worker g)
    (hok : ∀ record, Q (g.afterWrite id status (.ok record)))
    (hlate : ∀ e record, isRefusal e = false → E e (g.afterWrite id status (.ok record)))
    (herror : ∀ e, E e (g.afterWrite id status (.error e))) :
    (tenure name).left.ObeysE (setInvocationStatusWithContext d id status worker taskId arguments)
      (fun _ => Q) E g :=
  tenure_calmAside.setInvocationStatusWithContext_obeys hd id worker taskId arguments hpre hok
    hlate fun e _ => herror e

/-- The claim: after a refusal nothing is owned. -/
theorem claim_tenure :
    (tenure name).left.ObeysE (setInvocationStatus d id .pending worker)
      (fun _ g => g = ⟨some worker, some (id, .claimed)⟩)
      (fun e g => g.identity = some worker ∧ (isRefusal e = true → g.holds = none))
      ⟨some worker, none⟩ := by
  unfold setInvocationStatus
  refine Discipline.ObeysE.bind
    ((steady_triggerContextFor tenure_calmAside.lookups d id _).mono (fun _ _ h => h) ?_) ?_
  · rintro e _ ⟨rfl, -⟩
    exact ⟨rfl, fun _ => rfl⟩
  · rintro context _ rfl
    have hpre : MayWrite name id .pending worker ⟨some worker, none⟩ := ⟨rfl, rfl⟩
    refine statusChange_obeys id worker hd _ _ hpre (fun _ => rfl) ?_ ?_
    · intro e record he
      refine ⟨rfl, fun h => ?_⟩
      rw [he] at h
      cases h
    · intro e
      cases hrefusal : isRefusal e <;> simp [Tenure.afterWrite, hrefusal]

/-- The `running` write. -/
theorem running_tenure :
    (tenure name).left.ObeysE (setInvocationStatus d id .running worker)
      (fun _ g => g = ⟨some worker, some (id, .running)⟩) (fun _ g => g.identity = some worker)
      ⟨some worker, some (id, .claimed)⟩ := by
  unfold setInvocationStatus
  refine Discipline.ObeysE.bind
    ((steady_triggerContextFor tenure_calmAside.lookups d id _).mono (fun _ _ h => h) ?_) ?_
  · rintro e _ ⟨rfl, -⟩
    rfl
  · rintro context _ rfl
    have hpre : MayWrite name id .running worker ⟨some worker, some (id, .claimed)⟩ := ⟨rfl, rfl⟩
    exact statusChange_obeys id worker hd _ _ hpre (fun _ => rfl) (fun _ _ _ => rfl) fun _ => rfl

theorem outcomeWrite_closes (taskId : TaskId) (arguments : SerializedArguments)
    (hlive : isLive status = false)
    (hcan : InvocationStatus.canTransitionTo .running status = true) :
    Closes name worker (setInvocationStatusWithContext d id status worker taskId arguments)
      ⟨some worker, some (id, .running)⟩ := by
  have hpre : MayWrite name id status worker ⟨some worker, some (id, .running)⟩ := by
    refine ⟨rfl, ?_⟩
    cases status <;> first
      | exact ⟨rfl, hcan⟩
      | cases hlive
  have hok : ∀ record, Tenure.afterWrite id status (.ok record)
      ⟨some worker, some (id, .running)⟩ = ⟨some worker, none⟩ :=
    fun record => afterWrite_outcome id hlive (.ok record) _
  refine statusChange_obeys id worker hd taskId arguments hpre hok ?_ ?_
  · intro e record _
    rw [hok]
    exact ⟨rfl, fun _ => rfl⟩
  · intro e
    rw [afterWrite_outcome id hlive]
    cases hrefusal : isRefusal e <;> simp [hrefusal]

theorem setInvocationResultWithContext_closes (result : String) (taskId : TaskId)
    (arguments : SerializedArguments) :
    Closes name worker (setInvocationResultWithContext d id result worker taskId arguments)
      ⟨some worker, some (id, .running)⟩ := by
  unfold setInvocationResultWithContext commitResult
  rw [if_neg (by simp [hd])]
  refine Closes.bind_steady worker ?_ fun _ => ?_
  · refine closes_bind worker (calm_of_unmarked rfl rfl).steady rfl fun _ => ?_
    exact (outcomeWrite_closes id worker hd taskId arguments rfl rfl).bind_steady worker
      fun _ => steady_pure _
  · split
    · exact (calm_of_unmarked rfl rfl).steady
    · exact steady_pure _

theorem setInvocationExceptionWithContext_closes (errorType errorMessage : String)
    (taskId : TaskId) (arguments : SerializedArguments) :
    Closes name worker (setInvocationExceptionWithContext d id errorType errorMessage worker taskId
      arguments) ⟨some worker, some (id, .running)⟩ := by
  unfold setInvocationExceptionWithContext commitException
  rw [if_neg (by simp [hd])]
  refine Closes.bind_steady worker ?_ fun _ => ?_
  · refine closes_bind worker (calm_of_unmarked rfl rfl).steady rfl fun _ => ?_
    exact (outcomeWrite_closes id worker hd taskId arguments rfl rfl).bind_steady worker
      fun _ => steady_pure _
  · split
    · exact (calm_of_unmarked rfl rfl).steady
    · exact steady_pure _

theorem setInvocationRetryAfterWithContext_closes (taskId : TaskId)
    (arguments : SerializedArguments) (queue : String) (priority : F64) (delayMs : Nat) :
    Closes name worker (setInvocationRetryAfterWithContext d id worker taskId arguments queue
      priority delayMs) ⟨some worker, some (id, .running)⟩ := by
  unfold setInvocationRetryAfterWithContext setInvocationRetryWithContext
  rw [if_neg (by simp [hd] : ¬ d.publication = true), if_neg (by simp [hd] : ¬ d.publication = true)]
  have hwrite : Closes name worker (setInvocationStatusWithContext d id .retry worker taskId
      arguments) ⟨some worker, some (id, .running)⟩ :=
    outcomeWrite_closes id worker hd taskId arguments rfl rfl
  have hcount : Steady (tenure name).left (port (.incrementInvocationRetries id)) := (calm_of_unmarked rfl rfl).steady
  split
  · exact hwrite.bind_steady worker fun _ => hcount.bind fun _ => (calm_of_unmarked rfl rfl).steady
  · exact hwrite.bind_steady worker fun _ => hcount.bind fun _ => (calm_of_unmarked rfl rfl).steady

theorem beginExecution_quiet (retries : Nat) (incoming : TraceContextCarrier) :
    Prog.UsesE (tenure name).left.Answers (tenure name).left.Quiet
      (beginExecution d id worker retries incoming) := by
  have hidentities : Identities (tenure name).left.Quiet :=
    ⟨fun _ => quiet_of_unmarked rfl, fun _ _ => quiet_of_unmarked rfl,
      fun _ => quiet_of_unmarked rfl⟩
  exact hidentities.beginExecution hd id worker retries incoming

theorem releaseSlot_quiet :
    Prog.UsesE (tenure name).left.Answers (tenure name).left.Quiet
      (releaseNontransactionalConcurrencySlot d id) := by
  unfold releaseNontransactionalConcurrencySlot
  rw [if_neg (by simp [hd])]
  exact usesE_port (quiet_of_unmarked rfl)

theorem releaseFinished_quiet :
    Prog.UsesE (tenure name).left.Answers (tenure name).left.Quiet (releaseFinished d id) :=
  Prog.usesE_bind (usesE_attempt (releaseSlot_quiet id hd)) fun _ => usesE_pure _

/-- The outcome of an attempt that was not cancelled. -/
theorem finishAttempt_settles (taskId : TaskId) (arguments : SerializedArguments)
    (base resolved : TaskConfig) (retryCount attemptNumber : Nat) {outcome : AttemptOutcome}
    (h : outcome.interruption ≠ some .cancelled) :
    Settles name worker (finishAttempt d id worker taskId arguments base resolved retryCount
      attemptNumber outcome) ⟨some worker, some (id, .running)⟩ := by
  unfold finishAttempt
  rw [if_neg h]
  split
  · exact settleOutcome_settles id worker
      (setInvocationResultWithContext_closes id worker hd _ taskId arguments)
      (releaseFinished_quiet id hd)
  · dsimp only
    split
    · unfold finishRetry
      split
      · exact Discipline.obeysE_throw.mpr rfl
      · refine settles_bind worker (releaseSlot_quiet id hd) rfl fun _ => ?_
        refine settles_bind worker (usesE_port (quiet_of_unmarked rfl)) rfl fun unit => ?_
        exact settleOutcome_settles id worker
          (setInvocationRetryAfterWithContext_closes id worker hd taskId arguments _ _ _)
          (usesE_pure _)
    · exact settleOutcome_settles id worker
        (setInvocationExceptionWithContext_closes id worker hd _ _ taskId arguments)
        (releaseFinished_quiet id hd)

theorem executeClaimed_settles :
    Settles name worker (executeClaimed d id worker) ⟨some worker, some (id, .claimed)⟩ := by
  refine Discipline.ObeysE.bind (running_tenure id worker hd) ?_
  rintro record _ rfl
  refine settles_bind worker (usesE_port (quiet_of_unmarked rfl)) rfl fun invocation => ?_
  refine settles_bind worker (usesE_port (quiet_of_unmarked rfl)) rfl fun call => ?_
  split
  · exact settleOutcome_settles id worker
      (setInvocationExceptionWithContext_closes id worker hd _ _ _ _) (releaseFinished_quiet id hd)
  · rename_i base _
    refine settles_bind worker (usesE_port (quiet_of_unmarked rfl)) rfl fun history => ?_
    refine settles_bind worker (beginExecution_quiet id worker hd _ _) rfl fun identity => ?_
    refine settles_bind worker (usesE_port (quiet_of_unmarked rfl)) rfl fun _ => ?_
    refine obeysE_port_bind.mpr ⟨?_, fun outcome _ => ?_, fun e _ => rfl⟩
    · rintro held hheld
      obtain rfl : (id, Phase.running) = held := Option.some.inj hheld
      rfl
    · by_cases hcancelled : outcome.interruption = some .cancelled
      · -- the check has read that the invocation is cancelled
        have hnext : (tenure name).left.next (.superviseAttempt
            (invocationContext id invocation base
              (u32 (history.filter fun h => h.statusRecord.status = .retry).length) identity)
            (d.catalog.resolveConfig d.appConfig invocation.taskId base).timeout
            (cancelCheckEnabled d.appConfig)) (.ok outcome)
            ⟨some worker, some (id, .running)⟩ = ⟨some worker, none⟩ := if_pos hcancelled
        rw [hnext]
        unfold finishAttempt
        rw [if_pos hcancelled]
        exact settles_of_quiet worker (releaseFinished_quiet id hd)
      · have hnext : (tenure name).left.next (.superviseAttempt
            (invocationContext id invocation base
              (u32 (history.filter fun h => h.statusRecord.status = .retry).length) identity)
            (d.catalog.resolveConfig d.appConfig invocation.taskId base).timeout
            (cancelCheckEnabled d.appConfig)) (.ok outcome)
            ⟨some worker, some (id, .running)⟩ = ⟨some worker, some (id, .running)⟩ :=
          if_neg hcancelled
        rw [hnext]
        exact finishAttempt_settles id worker hd _ _ _ _ _ _ hcancelled

/-- **An attempt that ends without an error has given its invocation up.** -/
theorem executeInvocation_tenure :
    Settles name worker (executeInvocation d id worker) ⟨some worker, none⟩ := by
  refine obeysE_attempt_bind.mpr ((claim_tenure id worker hd).mono ?_ ?_)
  · rintro _ _ rfl
    exact executeClaimed_settles id worker hd
  · rintro e ⟨_, holds⟩ ⟨rfl, hrefused⟩
    dsimp only at hrefused ⊢
    split
    · rename_i hlost
      have hrefusal : isRefusal e = true := by
        unfold isRefusal
        rcases hlost with h | h <;> simp [h]
      obtain rfl := hrefused hrefusal
      exact settles_of_quiet worker (releaseSlot_quiet id hd)
    · exact settles_bind worker (usesE_attempt (releaseSlot_quiet id hd)) rfl fun _ =>
        Discipline.obeysE_throw.mpr rfl

/-- Finding a candidate leaves the book as it is. -/
theorem claimNext_quiet (language : TaskLanguage) (caller : RunnerId) :
    Prog.UsesE (tenure name).left.Answers (tenure name).left.Quiet (claimNext d language caller) := by
  refine Prog.Uses.mono (claimNext_dispatches (A := fun _ _ => True) hd language caller)
    (fun _ _ _ => trivial) fun c hc => ?_
  cases c <;> first
    | exact hc.elim
    | exact quiet_of_unmarked rfl
    | skip
  case setInvocationStatus x status runner =>
      obtain ⟨rfl, -⟩ := hc
      exact quiet_of_unmarked rfl

end Attempts

section Workers

variable {name : Nat → RunnerId} {d : Deployment} (hd : d.publication = false)
  (language : TaskLanguage) (caller : RunnerId)

/-- A part of the orchestrator within a runner. -/
theorem obeys_inspected {α : Type} {p : Orch α} {worker : RunnerId}
    (hp : Settles name worker p ⟨some worker, none⟩) :
    (tenure name).Obeys (inspected p) (Discipline.Outcome (fun _ g => g = ⟨some worker, none⟩)
      fun _ g => g.identity = some worker) ⟨some worker, none⟩ :=
  (Discipline.obeys_inl p.run).mpr hp

include hd

theorem runOneAsWorker_settles (worker : RunnerId) :
    Settles name worker (runOneAsWorker d language caller worker) ⟨some worker, none⟩ := by
  refine settles_bind worker (claimNext_quiet hd language caller) rfl ?_
  rintro (_ | id)
  · rfl
  · refine Discipline.ObeysE.bind (executeInvocation_tenure id worker hd) ?_
    rintro _ _ rfl
    rfl

/-- **A worker of the Tokio runner keeps to it**: by induction on the polls; a round that ends
without an error has given its invocation up, and after an error the identity is a new one. -/
theorem workerLoop_obeys (polls : Nat) (worker : RunnerId) :
    (tenure name).Obeys (workerLoop d language caller polls worker) (fun _ _ => True)
      ⟨some worker, none⟩ := by
  induction polls generalizing worker with
  | zero => trivial
  | succ polls ih =>
      refine Discipline.Obeys.bind
        (obeys_inspected (runOneAsWorker_settles hd language caller worker)) ?_
      rintro (e | work) g hg
      · refine ⟨trivial, fun fresh _ => ?_⟩
        exact ⟨trivial, fun _ _ => ih fresh⟩
      · obtain rfl : g = ⟨some worker, none⟩ := hg
        exact ih worker

theorem tokioWorker_obeys (polls : Nat) :
    (tenure name).Obeys (tokioWorker d language caller polls) (fun _ _ => True) {} := by
  refine ⟨trivial, fun worker _ => ?_⟩
  exact ⟨trivial, fun _ _ => workerLoop_obeys hd language caller polls worker⟩

/-- **So does an attempt of the Rayon runner.** -/
theorem rayonAttempt_obeys :
    (tenure name).Obeys (rayonAttempt d language caller) (fun _ _ => True) {} := by
  have hclaim : (tenure name).Obeys (inspected (claimNext d language caller))
      (fun _ g => g = {}) {} := by
    refine (Discipline.obeys_inl _).mpr ?_
    refine Discipline.Obeys.mono
      (Discipline.ObeysE.of_uses (claimNext_quiet hd language caller) _) ?_
    rintro (e | found) g hg
    · exact hg
    · exact hg
  refine Discipline.Obeys.bind hclaim ?_
  rintro (e | _ | id) _ rfl
  · trivial
  · trivial
  · refine ⟨rfl, ?_⟩
    rintro (_ | worker) -
    · trivial
    · refine ⟨trivial, fun _ _ => ?_⟩
      show (tenure name).Obeys (inspected (executeInvocation d id worker) >>= fun _ =>
        identityCall (.releaseWorkerSlot worker)) _ ⟨some worker, none⟩
      refine Discipline.Obeys.bind (obeys_inspected (executeInvocation_tenure id worker hd)) ?_
      rintro (e | _) g hg
      · exact ⟨hg, fun _ _ => trivial⟩
      · obtain rfl : g = ⟨some worker, none⟩ := hg
        exact ⟨rfl, fun _ _ => trivial⟩

end Workers

/-! ## Who owns what -/

section Records

variable {id : InvocationId} {record : InvocationStatusRecord} {status : InvocationStatus}
  {runner : Option RunnerId}

/-- Only the owner moves an invocation to `running`, and `pending` is for who asks. -/
theorem runnerId_of_live {now : Timestamp} {current : InvocationStatusRecord}
    (h : statusRecordTransition now (some current) status runner = .ok record)
    (hlive : isLive status = true) : record.status = status ∧ record.runnerId = runner := by
  obtain ⟨hcan, hown, rfl⟩ := (statusRecordTransition_ok_iff _ _ _ _ _).mp h
  refine ⟨rfl, ?_⟩
  cases status <;> first
    | (cases hlive; done)
    | skip
  case pending => rfl
  case running =>
      have hrequires : current.status.definition.requiresOwnership = true := by
        revert hcan
        cases current.status <;> decide
      rcases hown with hoverrides | ⟨hsame, -⟩
      · cases hoverrides
      · exact (hsame hrequires).symm

/-- After a call a live record is an old one, or the one that the call wrote. -/
theorem exec_live (env : Env) (c : PortCall) (s : MemRuntime)
    (h : (MemRuntime.exec env c s).2.orchestrator.statusRecords.lookup id = some record)
    (hlive : isLive record.status = true) :
    s.orchestrator.statusRecords.lookup id = some record ∨
      c = .setInvocationStatus id record.status record.runnerId := by
  obtain hsame | ⟨x, call, runner, -, hregistered⟩ | ⟨x, status, runner, current, written, hc, -,
    htrans, hwritten⟩ := MemRuntime.execRunner_statusRecords env (.inl c) s
  · left
    rw [← hsame]
    exact h
  · have hlookup : (s.orchestrator.statusRecords.insert x ⟨.registered, runner, env.clock⟩).lookup id
        = some record := by
      rw [← hregistered]
      exact h
    by_cases hid : id = x
    · subst hid
      rw [AList.lookup_insert] at hlookup
      cases hlookup
      cases hlive
    · rw [AList.lookup_insert_ne hid] at hlookup
      exact .inl hlookup
  · have hlookup : (s.orchestrator.statusRecords.insert x written).lookup id = some record := by
      rw [← hwritten]
      exact h
    by_cases hid : id = x
    · subst hid
      rw [AList.lookup_insert] at hlookup
      obtain rfl : written = record := Option.some.inj hlookup
      have hstatus : written.status = status := by
        obtain ⟨-, -, rfl⟩ := (statusRecordTransition_ok_iff _ _ _ _ _).mp htrans
        rfl
      obtain ⟨-, hrunner⟩ := runnerId_of_live htrans (hstatus ▸ hlive)
      right
      rw [hstatus, hrunner]
      exact Sum.inl.inj hc
    · rw [AList.lookup_insert_ne hid] at hlookup
      exact .inl hlookup

variable (env : WorkEnv) (s : MemRuntime)

/-- The same of a call that may fail. -/
theorem portExec_live (c : PortCall)
    (h : (Workforce.portExec env c s).2.orchestrator.statusRecords.lookup id = some record)
    (hlive : isLive record.status = true) :
    s.orchestrator.statusRecords.lookup id = some record ∨
      c = .setInvocationStatus id record.status record.runnerId := by
  obtain heq | ⟨failure, -, -, heq | heq⟩ := Workforce.portExec_cases env c s
  · rw [heq] at h
    exact exec_live env.env c s h hlive
  · rw [heq] at h
    exact .inl h
  · rw [heq] at h
    exact exec_live env.env c s h hlive

/-- An accepted write is stored. -/
theorem portExec_accepted {written : InvocationStatusRecord}
    (h : (Workforce.portExec env (.setInvocationStatus id status runner) s).1 = .ok written) :
    written.status = status ∧
      (Workforce.portExec env (.setInvocationStatus id status runner) s).2.orchestrator.statusRecords.lookup
        id = some written := by
  obtain heq | ⟨failure, -, herror, -⟩ := Workforce.portExec_cases env (.setInvocationStatus id status runner) s
  · rw [heq] at h ⊢
    obtain ⟨current, next, ccIndex, ccReverse, -, htrans, hset⟩ | ⟨_, _, -, -, hset⟩ | ⟨-, hset⟩ :=
      s.orchestrator.setInvocationStatus_cases env.env.clock id status runner
    · simp only [MemRuntime.exec, hset] at h ⊢
      obtain rfl : next = written := Except.ok.inj h
      obtain ⟨-, -, rfl⟩ := (statusRecordTransition_ok_iff _ _ _ _ _).mp htrans
      exact ⟨rfl, AList.lookup_insert _⟩
    · simp only [MemRuntime.exec, hset] at h
      cases h
    · simp only [MemRuntime.exec, hset] at h
      cases h
  · rw [herror] at h
    cases h

/-- A refused write has changed nothing, and there was a reason. -/
theorem portExec_refused {e : RustvelloError}
    (h : (Workforce.portExec env (.setInvocationStatus id status runner) s).1 = .error e)
    (hrefusal : isRefusal e = true) :
    (Workforce.portExec env (.setInvocationStatus id status runner) s).2 = s ∧
      ∀ current, s.orchestrator.statusRecords.lookup id = some current →
        current.status.canTransitionTo status = true → ¬ OwnershipOk current status runner := by
  obtain heq | ⟨failure, -, herror, -⟩ := Workforce.portExec_cases env (.setInvocationStatus id status runner) s
  · rw [heq] at h ⊢
    obtain ⟨current, next, ccIndex, ccReverse, -, -, hset⟩ | ⟨current, _, hlookup, htrans, hset⟩ |
      ⟨hnone, hset⟩ := s.orchestrator.setInvocationStatus_cases env.env.clock id status runner
    · simp only [MemRuntime.exec, hset] at h
      cases h
    · simp only [MemRuntime.exec, hset]
      refine ⟨trivial, ?_⟩
      intro other hother hcan hown
      obtain rfl : current = other := Option.some.inj (hlookup.symm.trans hother)
      rw [(statusRecordTransition_ok_iff _ _ _ _ _).mpr ⟨hcan, hown, rfl⟩] at htrans
      cases htrans
    · simp only [MemRuntime.exec, hset]
      refine ⟨trivial, ?_⟩
      intro other hother
      rw [hnone] at hother
      cases hother
  · rw [herror] at h
    obtain rfl := Except.error.inj h
    rw [failure.unrelated] at hrefusal
    cases hrefusal

/-- Only status writes, and middleware, answer a refusal. -/
theorem portExec_mayRefuse {c : PortCall} {e : RustvelloError}
    (h : (Workforce.portExec env c s).1 = .error e) (hrefusal : isRefusal e = true) :
    mayRefuse c = true := by
  have hunrefused : mayRefuse c = false → isRefusal e = false := by
    intro hc
    obtain heq | ⟨failure, -, herror, -⟩ := Workforce.portExec_cases env c s
    · rw [heq] at h
      exact exec_unrefused env.env s hc h
    · rw [herror] at h
      obtain rfl := Except.error.inj h
      exact failure.unrelated
  by_contra hc
  rw [hunrefused (Bool.eq_false_iff.mpr hc)] at hrefusal
  cases hrefusal

end Records

/-! ## The invariant -/

/-- The identities that are in use or may be taken. -/
def identities (slots : List RunnerId) (books : List Tenure) : List RunnerId :=
  slots ++ books.filterMap Tenure.identity

/-- What the book of an operation says about its identity. -/
def Tenure.Covers (g : Tenure) (s : MemRuntime) : Prop :=
  ∀ worker, g.identity = some worker → ∀ id record, Owned s id record worker →
    ∃ phase, g.holds = some (id, phase) ∧ (phase = .running → record.status = .running)

/-- **The invariant.**  An identity in use owns at most what its book says; a free one, and one
that is still to be made, owns nothing; and no two are the same. -/
structure Exclusive (name : Nat → RunnerId) (s : Workforce) (books : List Tenure) : Prop where
  covered : ∀ g ∈ books, g.Covers s.runtime
  apart : (identities s.workerSlots books).Nodup
  issued : ∀ worker ∈ identities s.workerSlots books, ∃ k < s.issued, name k = worker
  vacant : ∀ worker ∈ s.workerSlots, ∀ id, ¬ Owns s.runtime id worker
  unissued : ∀ k, s.issued ≤ k → ∀ id, ¬ Owns s.runtime id (name k)

section Steps

variable {name : Nat → RunnerId} {s : Workforce} {before after : List Tenure} {g g' : Tenure}

/-- One identity stands out. -/
theorem perm_identities (slots : List RunnerId) :
    (identities slots (before ++ g :: after)).Perm
      (g.identity.toList ++ identities slots (before ++ after)) := by
  refine List.perm_iff_count.mpr fun worker => ?_
  unfold identities
  cases hidentity : g.identity with
  | none => simp [hidentity]
  | some own =>
      simp only [List.filterMap_append, List.filterMap_cons, hidentity, List.count_append,
        List.count_cons, Option.toList_some, List.count_nil]
      omega

theorem identity_mem {worker : RunnerId} (hidentity : g.identity = some worker) :
    worker ∈ identities s.workerSlots (before ++ g :: after) := by
  unfold identities
  refine List.mem_append_right _ (List.mem_filterMap.mpr ⟨g, by simp, hidentity⟩)

/-- Another operation has another identity. -/
theorem Exclusive.other (h : Exclusive name s (before ++ g :: after)) {b : Tenure}
    (hb : b ∈ before ++ after) {worker : RunnerId} (hidentity : b.identity = some worker) :
    g.identity ≠ some worker := by
  intro hown
  have hnodup := (perm_identities s.workerSlots).nodup_iff.mp h.apart
  rw [hown, Option.toList_some, List.singleton_append, List.nodup_cons] at hnodup
  refine hnodup.1 (List.mem_append_right _ (List.mem_filterMap.mpr ⟨b, hb, hidentity⟩))

/-- A free slot is no identity in use. -/
theorem Exclusive.slot (h : Exclusive name s (before ++ g :: after)) {worker : RunnerId}
    (hslot : worker ∈ s.workerSlots) : g.identity ≠ some worker := by
  intro hown
  have hnodup := (perm_identities s.workerSlots).nodup_iff.mp h.apart
  rw [hown, Option.toList_some, List.singleton_append, List.nodup_cons] at hnodup
  exact hnodup.1 (List.mem_append_left _ hslot)

/-- **A call to a backend**, by an operation that claims under its own identity. -/
theorem Exclusive.port (hinjective : Function.Injective name)
    (h : Exclusive name s (before ++ g :: after)) (env : WorkEnv) (c : PortCall)
    (hidentity : g'.identity = g.identity)
    (hclaim : ∀ worker, claimant c = some worker →
      g.identity = some worker ∨ ∀ k, name k ≠ worker)
    (hcovers : g'.Covers (Workforce.portExec env c s.runtime).2) :
    Exclusive name { s with runtime := (Workforce.portExec env c s.runtime).2 }
      (before ++ g' :: after) := by
  -- what the other identities own they have owned before
  have hold : ∀ {id record worker}, g.identity ≠ some worker → (∃ k, name k = worker) →
      Owned (Workforce.portExec env c s.runtime).2 id record worker →
      Owned s.runtime id record worker := by
    rintro id record worker hother ⟨k, hname⟩ ⟨hlookup, hlive, hrunner⟩
    rcases portExec_live env s.runtime c hlookup hlive with hsame | hwrite
    · exact ⟨hsame, hlive, hrunner⟩
    · have hclaimant : claimant c = some worker := by
        rw [hwrite, ← hrunner]
        exact if_pos hlive
      rcases hclaim worker hclaimant with hown | hforeign
      · exact absurd hown hother
      · exact absurd hname (hforeign k)
  have hids : identities s.workerSlots (before ++ g' :: after) =
      identities s.workerSlots (before ++ g :: after) := by
    simp [identities, List.filterMap_cons, hidentity]
  refine ⟨?_, ?_, ?_, ?_, ?_⟩
  · intro b hb
    rcases mem_replaced hb with hb | rfl
    · intro worker hworker id record howned
      obtain ⟨k, -, hname⟩ := h.issued worker (List.mem_append_right _
        (List.mem_filterMap.mpr ⟨b, mem_of_others hb g, hworker⟩))
      exact h.covered b (mem_of_others hb g) worker hworker id record
        (hold (h.other hb hworker) ⟨k, hname⟩ howned)
    · exact hcovers
  · rw [hids]
    exact h.apart
  · rw [hids]
    exact h.issued
  · rintro worker hslot id ⟨record, howned⟩
    obtain ⟨k, -, hname⟩ := h.issued worker (List.mem_append_left _ hslot)
    exact h.vacant worker hslot id ⟨record, hold (h.slot hslot) ⟨k, hname⟩ howned⟩
  · rintro k hk id ⟨record, howned⟩
    refine h.unissued k hk id ⟨record, hold ?_ ⟨k, rfl⟩ howned⟩
    intro hown
    obtain ⟨j, hj, hname⟩ := h.issued (name k) (identity_mem hown)
    obtain rfl := hinjective hname
    exact absurd hj (Nat.not_lt.mpr hk)

/-- A slot is taken or given back: identities change hands, and this one owns nothing. -/
theorem Exclusive.reassign (h : Exclusive name s (before ++ g :: after)) {slots : List RunnerId}
    (hperm : (g'.identity.toList ++ slots).Perm (g.identity.toList ++ s.workerSlots))
    (hvacant : ∀ worker ∈ g'.identity.toList ++ slots, ∀ id, ¬ Owns s.runtime id worker) :
    Exclusive name { s with workerSlots := slots } (before ++ g' :: after) := by
  have hids : (identities slots (before ++ g' :: after)).Perm
      (identities s.workerSlots (before ++ g :: after)) := by
    refine (perm_identities slots).trans (List.Perm.trans ?_ (perm_identities s.workerSlots).symm)
    unfold identities
    rw [← List.append_assoc, ← List.append_assoc]
    exact hperm.append_right _
  refine ⟨?_, ?_, ?_, ?_, h.unissued⟩
  · intro b hb
    rcases mem_replaced hb with hb | rfl
    · exact h.covered b (mem_of_others hb g)
    · intro worker hworker id record howned
      refine absurd ⟨record, howned⟩ (hvacant worker ?_ id)
      simp [hworker]
  · exact hids.nodup_iff.mpr h.apart
  · exact fun worker hworker => h.issued worker (hids.mem_iff.mp hworker)
  · exact fun worker hslot => hvacant worker (List.mem_append_right _ hslot)

/-- A new identity. -/
theorem Exclusive.renew (hinjective : Function.Injective name)
    (h : Exclusive name s (before ++ g :: after)) :
    Exclusive name { s with issued := s.issued + 1 }
      (before ++ { identity := some (name s.issued) } :: after) := by
  have hids : (identities s.workerSlots
      (before ++ { identity := some (name s.issued) } :: after)).Perm
        (name s.issued :: identities s.workerSlots (before ++ after)) :=
    perm_identities s.workerSlots
  have hsub : ∀ worker ∈ identities s.workerSlots (before ++ after),
      worker ∈ identities s.workerSlots (before ++ g :: after) := fun worker hworker =>
    (perm_identities s.workerSlots).mem_iff.mpr (List.mem_append_right _ hworker)
  refine ⟨?_, ?_, ?_, h.vacant, fun k hk => h.unissued k (Nat.le_of_succ_le hk)⟩
  · intro b hb
    rcases mem_replaced hb with hb | rfl
    · exact h.covered b (mem_of_others hb g)
    · intro worker hworker id record howned
      obtain rfl : name s.issued = worker := Option.some.inj hworker
      exact absurd ⟨record, howned⟩ (h.unissued s.issued le_rfl id)
  · refine hids.nodup_iff.mpr (List.nodup_cons.mpr ⟨?_, ?_⟩)
    · intro hmem
      obtain ⟨k, hk, hname⟩ := h.issued _ (hsub _ hmem)
      obtain rfl := hinjective hname
      exact absurd hk (lt_irrefl _)
    · have hnodup := (perm_identities s.workerSlots).nodup_iff.mp h.apart
      exact (List.nodup_append.mp hnodup).2.1
  · intro worker hworker
    rcases List.mem_cons.mp (hids.mem_iff.mp hworker) with rfl | hworker
    · exact ⟨s.issued, Nat.lt_succ_self _, rfl⟩
    · obtain ⟨k, hk, hname⟩ := h.issued worker (hsub worker hworker)
      exact ⟨k, Nat.lt_succ_of_lt hk, hname⟩

@[simp] theorem afterWrite_identity (id : InvocationId) (status : InvocationStatus)
    (r : RustvelloResult InvocationStatusRecord) (g : Tenure) :
    (g.afterWrite id status r).identity = g.identity := by
  unfold Tenure.afterWrite
  split <;> first | rfl | (split <;> rfl)

section Write

variable (h : g.Covers s.runtime) (env : WorkEnv) {id x : InvocationId} {worker : RunnerId}
  {record : InvocationStatusRecord} {status : InvocationStatus}

/-- Where the caller owned `id` at most, it owns no other invocation after its write. -/
theorem eq_of_owned {runner : Option RunnerId}
    (hown : ∀ y old, Owned s.runtime y old worker → y = id)
    (howned : Owned (Workforce.portExec env (.setInvocationStatus id status runner) s.runtime).2 x
      record worker) : x = id := by
  obtain ⟨hlookup, hlive, hrunner⟩ := howned
  rcases portExec_live env s.runtime _ hlookup hlive with hsame | hwrite
  · exact hown x record ⟨hsame, hlive, hrunner⟩
  · cases hwrite
    rfl

include h

theorem covers_pending (hidentity : g.identity = some worker) (hholds : g.holds = none)
    (howned : Owned (Workforce.portExec env (.setInvocationStatus id .pending (some worker))
      s.runtime).2 x record worker) :
    ∃ phase, (g.afterWrite id .pending (Workforce.portExec env
      (.setInvocationStatus id .pending (some worker)) s.runtime).1).holds = some (x, phase) ∧
      (phase = .running → record.status = .running) := by
  have hnone : ∀ y old, ¬ Owned s.runtime y old worker := by
    intro y old hold
    obtain ⟨phase, hphase, -⟩ := h worker hidentity y old hold
    rw [hholds] at hphase
    cases hphase
  have hx := eq_of_owned env (fun y old hold => absurd hold (hnone y old)) howned
  subst hx
  cases hanswer : (Workforce.portExec env (.setInvocationStatus x .pending (some worker))
      s.runtime).1 with
  | ok written => exact ⟨.claimed, rfl, nofun⟩
  | error e =>
      by_cases hrefusal : isRefusal e = true
      · obtain ⟨hsame, -⟩ := portExec_refused env s.runtime hanswer hrefusal
        rw [hsame] at howned
        exact absurd howned (hnone x record)
      · exact ⟨.claimed, by simp [Tenure.afterWrite, hrefusal], nofun⟩

theorem covers_running (hidentity : g.identity = some worker)
    (hholds : g.holds = some (id, .claimed))
    (howned : Owned (Workforce.portExec env (.setInvocationStatus id .running (some worker))
      s.runtime).2 x record worker) :
    ∃ phase, (g.afterWrite id .running (Workforce.portExec env
      (.setInvocationStatus id .running (some worker)) s.runtime).1).holds = some (x, phase) ∧
      (phase = .running → record.status = .running) := by
  have hx : x = id := by
    refine eq_of_owned env (fun y old hold => ?_) howned
    obtain ⟨phase, hphase, -⟩ := h worker hidentity y old hold
    rw [hholds] at hphase
    cases hphase
    rfl
  subst hx
  cases hanswer : (Workforce.portExec env (.setInvocationStatus x .running (some worker))
      s.runtime).1 with
  | ok written =>
      obtain ⟨hstatus, hwritten⟩ := portExec_accepted env s.runtime hanswer
      obtain rfl : record = written := Option.some.inj (howned.1.symm.trans hwritten)
      exact ⟨.running, rfl, fun _ => hstatus⟩
  | error e => exact ⟨.claimed, rfl, nofun⟩

theorem covers_outcome (hlive : isLive status = false) (hidentity : g.identity = some worker)
    (hholds : g.holds = some (id, .running))
    (hcan : InvocationStatus.canTransitionTo .running status = true)
    (howned : Owned (Workforce.portExec env (.setInvocationStatus id status (some worker))
      s.runtime).2 x record worker) :
    ∃ phase, (g.afterWrite id status (Workforce.portExec env
      (.setInvocationStatus id status (some worker)) s.runtime).1).holds = some (x, phase) ∧
      (phase = .running → record.status = .running) := by
  -- the write makes nothing live, so what is owned now was owned and running before
  have hold : Owned s.runtime x record worker := by
    rcases portExec_live env s.runtime _ howned.1 howned.2.1 with hsame | hwrite
    · exact ⟨hsame, howned.2⟩
    · have hstatus : status = record.status := (PortCall.setInvocationStatus.inj hwrite).2.1
      rw [hstatus, howned.2.1] at hlive
      cases hlive
  obtain ⟨phase, hphase, hrunning⟩ := h worker hidentity x record hold
  rw [hholds] at hphase
  cases hphase
  rw [afterWrite_outcome _ hlive]
  cases hanswer : (Workforce.portExec env (.setInvocationStatus id status (some worker))
      s.runtime).1 with
  | ok written =>
      obtain ⟨hstatus, hwritten⟩ := portExec_accepted env s.runtime hanswer
      obtain rfl : record = written := Option.some.inj (howned.1.symm.trans hwritten)
      rw [hstatus.symm, howned.2.1] at hlive
      cases hlive
  | error e =>
      by_cases hrefusal : isRefusal e = true
      · obtain ⟨-, hrefused⟩ := portExec_refused env s.runtime hanswer hrefusal
        refine absurd (.inr ⟨fun _ => hold.2.2.symm, fun _ => nofun⟩)
          (hrefused record hold.1 ?_)
        rw [hrunning rfl]
        exact hcan
      · exact ⟨.running, by simp [hrefusal, hholds], hrunning⟩

theorem covers_write {runner : RunnerId} (hpre : MayWrite name id status runner g) :
    (g.afterWrite id status (Workforce.portExec env
      (.setInvocationStatus id status (some runner)) s.runtime).1).Covers
      (Workforce.portExec env (.setInvocationStatus id status (some runner)) s.runtime).2 := by
  intro worker hworker x record howned
  rw [afterWrite_identity] at hworker
  unfold MayWrite at hpre
  rw [hworker] at hpre
  obtain ⟨rfl, hpre⟩ := hpre
  by_cases hlive : isLive status = true
  · cases status <;> first
      | (cases hlive; done)
      | skip
    case pending => exact covers_pending h env hworker hpre howned
    case running => exact covers_running h env hworker hpre howned
  · rw [Bool.not_eq_true] at hlive
    have houtcome : g.holds = some (id, .running) ∧
        InvocationStatus.canTransitionTo .running status = true := by
      cases status <;> first
        | exact hpre
        | cases hlive
    exact covers_outcome h env hlive hworker houtcome.1 houtcome.2 howned

end Write

theorem supervise_cancelled {env : Env} {id : InvocationId} {status : Option InvocationStatus}
    {timeoutMs : Option Nat} {cancelCheck : Bool}
    (h : (env.supervise id status timeoutMs cancelCheck).interruption = some .cancelled) :
    status = some .cancelled := by
  unfold Env.supervise at h
  split at h
  · rename_i hfires
    simp only [Bool.and_eq_true, decide_eq_true_eq] at hfires
    exact hfires.2
  · cases timeoutMs with
    | none => cases h
    | some timeout =>
        dsimp only at h
        split at h <;> cases h

/-- The check of a supervised attempt has read that its invocation is cancelled. -/
theorem covers_supervised (h : g.Covers s.runtime) (env : WorkEnv) (context : InvocationContext)
    (timeoutMs : Option Nat) (cancelCheck : Bool)
    (hpre : ∀ held ∈ g.holds, held.1 = context.invocationId) :
    ((tenure name).next (.inl (.superviseAttempt context timeoutMs cancelCheck))
      (Workforce.portExec env (.superviseAttempt context timeoutMs cancelCheck) s.runtime).1
      g).Covers
      (Workforce.portExec env (.superviseAttempt context timeoutMs cancelCheck) s.runtime).2 := by
  have hexec : Workforce.portExec env (.superviseAttempt context timeoutMs cancelCheck) s.runtime =
      (.ok (env.env.supervise context.invocationId
        (s.runtime.orchestrator.statusOf context.invocationId) timeoutMs cancelCheck),
        s.runtime) := by
    obtain heq | ⟨failure, hreaches, -⟩ := Workforce.portExec_cases env
      (.superviseAttempt context timeoutMs cancelCheck) s.runtime
    · exact heq
    · cases hreaches
  rw [hexec]
  show (if _ then _ else _ : Tenure).Covers s.runtime
  split
  · rename_i hcancelled
    intro worker hworker id record howned
    obtain ⟨phase, hphase, -⟩ := h worker hworker id record howned
    have hid : id = context.invocationId := hpre _ hphase
    have hstatus := supervise_cancelled hcancelled
    unfold OrchestratorState.statusOf at hstatus
    rw [← hid, howned.1] at hstatus
    have hlive := howned.2.1
    rw [Option.some.inj hstatus] at hlive
    cases hlive
  · exact h

/-- **The book keeps up with the backends.** -/
theorem Tenure.Covers.port (h : g.Covers s.runtime) (env : WorkEnv) (c : PortCall)
    (hpre : (tenure name).pre (.inl c) g) :
    ((tenure name).next (.inl c) (Workforce.portExec env c s.runtime).1 g).Covers
      (Workforce.portExec env c s.runtime).2 := by
  by_cases hmark : marks c = true
  · cases c <;> first
      | (cases hmark; done)
      | skip
    case setInvocationStatus id status runner =>
        cases runner with
        | none => cases hmark
        | some runner => exact covers_write h env hpre
    case superviseAttempt context timeoutMs cancelCheck =>
        exact covers_supervised h env context timeoutMs cancelCheck hpre
  · rw [Bool.not_eq_true] at hmark
    have hquiet : (tenure name).left.Quiet c := quiet_of_unmarked hmark
    have hnext : (tenure name).next (.inl c) (Workforce.portExec env c s.runtime).1 g = g :=
      (hquiet g).2 _
    rw [hnext]
    intro worker hworker id record howned
    obtain ⟨hlookup, hlive, hrunner⟩ := howned
    rcases portExec_live env s.runtime c hlookup hlive with hsame | hwrite
    · exact h worker hworker id record ⟨hsame, hlive, hrunner⟩
    · rw [hwrite, hrunner] at hmark
      cases hmark

end Steps

/-! ## Runs -/

/-- The identity that an event gives to its operation, or takes from it. -/
def identityChange? : Event workPorts → Option (Option RunnerId)
  | ⟨.inr .newRunnerId, worker⟩ => some (some worker)
  | ⟨.inr .acquireWorkerSlot, slot⟩ => some slot
  | ⟨.inr (.releaseWorkerSlot _), _⟩ => some none
  | _ => none

/-- The identity under which an operation works. -/
def identityOf (log : List (Event workPorts)) : Option RunnerId :=
  (log.findSome? identityChange?).join

/-- The invocation that an event claims, or moves to `running`. -/
def attempted? : Event workPorts → Option InvocationId
  | ⟨.inl (.setInvocationStatus id status (some _)), _⟩ => if isLive status then some id else none
  | _ => none

/-- The invocation of the last attempt. -/
def lastAttempt (log : List (Event workPorts)) : Option InvocationId :=
  log.findSome? attempted?

/-- Everybody else claims under other identities than those of the workers. -/
def othersApart (name : Nat → RunnerId) : Guard workPorts Workforce WorkTask where
  start _
    | .other c => ∀ worker, claimant c = some worker → ∀ k, name k ≠ worker
    | _ => True
  call _ _ _ := True

/-- A slot is given back only when its attempt has not left its invocation `pending` or
`running` under the identity of the slot. -/
def attemptsGivenUp : Guard workPorts Workforce WorkTask where
  start _ _ := True
  call s i
    | .inr (.releaseWorkerSlot worker) => ∀ t ∈ s.threads[i]?, ∀ id ∈ lastAttempt t.log,
        ¬ Owns s.shared.runtime id worker
    | _ => True

section Runs

variable {name : Nat → RunnerId} {d : Deployment} {caller : RunnerId} {threads : Nat}

/-- What the book says about the identity is what the log says. -/
theorem read_identity (task : WorkTask) (log : List (Event workPorts)) :
    ((tenure name).read task log).identity = identityOf log := by
  induction log with
  | nil => rfl
  | cons e log ih =>
      obtain ⟨c, r⟩ := e
      rw [Monitor.read_cons]
      have hother : identityChange? ⟨c, r⟩ = none →
          identityOf (⟨c, r⟩ :: log) = identityOf log := by
        intro h
        unfold identityOf
        rw [List.findSome?_cons, h]
      rcases c with c | c
      · rw [hother rfl, ← ih]
        cases c <;> try rfl
        case setInvocationStatus id status runner =>
            cases runner with
            | none => rfl
            | some worker => exact afterWrite_identity id status r _
        case superviseAttempt context timeoutMs cancelCheck =>
            cases r with
            | error e => rfl
            | ok outcome =>
                show (if _ then _ else _ : Tenure).identity = _
                split <;> rfl
      · cases c with
        | heartbeat worker => rw [hother rfl, ← ih]; rfl
        | newRunnerId => rfl
        | acquireWorkerSlot => rfl
        | releaseWorkerSlot worker => rfl

theorem lastAttempt_write {log : List (Event workPorts)} {x id : InvocationId}
    {status : InvocationStatus} {worker : RunnerId} {phase : Phase} {g : Tenure}
    {r : RustvelloResult InvocationStatusRecord}
    (hother : isLive status = false → g.holds = some (id, phase) →
      lastAttempt (⟨.inl (.setInvocationStatus x status (some worker)), r⟩ :: log) = some id)
    (h : (g.afterWrite x status r).holds = some (id, phase)) :
    lastAttempt (⟨.inl (.setInvocationStatus x status (some worker)), r⟩ :: log) = some id := by
  by_cases hlive : isLive status = true
  · have hlast : lastAttempt (⟨.inl (.setInvocationStatus x status (some worker)), r⟩ :: log) =
        some x := by
      unfold lastAttempt
      rw [List.findSome?_cons]
      simp [attempted?, hlive]
    rw [hlast]
    cases status <;> first
      | (cases hlive; done)
      | skip
    case pending =>
        cases r with
        | ok record =>
            cases h
            rfl
        | error e =>
            simp only [Tenure.afterWrite] at h
            split at h <;> cases h
            rfl
    case running =>
        cases r <;> cases h <;> rfl
  · rw [Bool.not_eq_true] at hlive
    rw [afterWrite_outcome _ hlive] at h
    refine hother hlive ?_
    cases r with
    | ok record => cases h
    | error e =>
        simp only at h
        split at h
        · cases h
        · exact h

theorem claimant_own {c : PortCall} {g : Tenure} {worker : RunnerId}
    (hpre : (tenure name).pre (.inl c) g) (hclaimant : claimant c = some worker) :
    g.identity = some worker ∨ ∀ k, name k ≠ worker := by
  cases c <;> try cases hclaimant
  case setInvocationStatus id status runner =>
      simp only [claimant] at hclaimant
      split at hclaimant
      · rename_i hlive
        subst hclaimant
        have hmay : MayWrite name id status worker g := hpre
        unfold MayWrite at hmay
        split at hmay
        · exact .inr (hmay hlive)
        · rename_i own hown
          left
          rw [hown, hmay.1]
      · cases hclaimant

/-- Single calls of others. -/
theorem other_obeys (c : PortCall)
    (h : ∀ worker, claimant c = some worker → ∀ k, name k ≠ worker) :
    (tenure name).Obeys (Prog.request (I := workPorts) (.inl c)).toUnit (fun _ _ => True) {} := by
  refine ⟨?_, fun r _ => trivial⟩
  cases c <;> try trivial
  case setInvocationStatus id status runner =>
      cases runner with
      | none => trivial
      | some worker => exact fun hlive => h worker (if_pos hlive)
  case superviseAttempt context timeoutMs cancelCheck =>
      intro held hheld
      cases hheld

/-- What the book allows to be owned is the invocation of the last attempt. -/
theorem read_holds (task : WorkTask) (log : List (Event workPorts)) {id : InvocationId}
    {phase : Phase} (h : ((tenure name).read task log).holds = some (id, phase)) :
    lastAttempt log = some id := by
  induction log with
  | nil => cases h
  | cons e log ih =>
      obtain ⟨c, r⟩ := e
      rw [Monitor.read_cons] at h
      have hother : attempted? ⟨c, r⟩ = none →
          ((tenure name).read task log).holds = some (id, phase) →
          lastAttempt (⟨c, r⟩ :: log) = some id := by
        intro hnone hholds
        unfold lastAttempt
        rw [List.findSome?_cons, hnone]
        exact ih hholds
      rcases c with c | c
      · cases c <;> try exact hother rfl h
        case setInvocationStatus x status runner =>
            cases runner with
            | none => exact hother rfl h
            | some worker => exact lastAttempt_write (fun hlive => hother (if_neg (by simp [hlive]))) h
        case superviseAttempt context timeoutMs cancelCheck =>
            cases r with
            | error e => exact hother rfl h
            | ok outcome =>
                refine hother rfl ?_
                have hheld : (if outcome.interruption = some .cancelled
                    then { (tenure name).read task log with holds := none }
                    else (tenure name).read task log : Tenure).holds = some (id, phase) := h
                split at hheld
                · cases hheld
                · exact hheld
      · cases c with
        | heartbeat worker => exact hother rfl h
        | newRunnerId => cases h
        | acquireWorkerSlot => cases h
        | releaseWorkerSlot worker => cases h

/-- **The invariant holds** in every run in which no attempt leaves a slot its invocation. -/
theorem exclusive_upheld (hd : d.publication = false) (hinjective : Function.Injective name) :
    (tenure name).Upheld (fun _ => True) (Exclusive name) (workMachine name d caller)
      ((othersApart name).and attemptsGivenUp) (freshWorkforce name threads) where
  program _ task hstart := by
    cases task with
    | tokioWorker language polls => exact tokioWorker_obeys hd language caller polls
    | rayonAttempt language => exact rayonAttempt_obeys hd language caller
    | other c => exact other_obeys c hstart.1
  obey t ht := by cases ht
  logs t ht := by cases ht
  holds := by
    have hids : identities (freshWorkforce name threads).shared.workerSlots
        ((freshWorkforce name threads).books (tenure name).toMonitor) =
        (List.range threads).map name := List.append_nil _
    have hnothing : ∀ worker id, ¬ Owns (freshWorkforce name threads).shared.runtime id worker := by
      rintro worker id ⟨record, hlookup, -⟩
      cases hlookup
    constructor
    · intro g hg
      cases hg
    · rw [hids]
      exact List.nodup_range.map hinjective
    · intro worker hworker
      rw [hids] at hworker
      obtain ⟨k, hk, hname⟩ := List.mem_map.mp hworker
      exact ⟨k, List.mem_range.mp hk, hname⟩
    · exact fun worker _ id => hnothing worker id
    · exact fun k _ id => hnothing (name k) id
  start s task _ h := by
    have hids : identities s.shared.workerSlots
        (s.books (tenure name).toMonitor ++ [(tenure name).start task]) =
        identities s.shared.workerSlots (s.books (tenure name).toMonitor) := by
      simp [identities, tenure]
    refine ⟨?_, hids ▸ h.apart, hids ▸ h.issued, h.vacant, h.unissued⟩
    intro g hg
    rcases List.mem_append.mp hg with hg | hg
    · exact h.covered g hg
    · obtain rfl := List.mem_singleton.mp hg
      intro worker hworker
      cases hworker
  call s i env t c before after hturn h := by
    rcases c with c | c
    · constructor
      · exact fun e herror hrefusal => portExec_mayRefuse env s.shared.runtime herror hrefusal
      · have hcovers := (h.covered ((tenure name).book t) (by simp)).port env c hturn.permitted
        refine h.port hinjective env c ?_ ?_ hcovers
        · have hold : ((tenure name).read t.task t.log).identity = identityOf t.log :=
            read_identity t.task t.log
          have hnew : ((tenure name).read t.task
              (⟨.inl c, (Workforce.exec name env (.inl c) s.shared).1⟩ :: t.log)).identity =
              identityOf t.log := read_identity t.task _
          exact hnew.trans hold.symm
        · exact fun worker hclaimant => claimant_own hturn.permitted hclaimant
    · refine ⟨trivial, ?_⟩
      cases c with
      | newRunnerId => exact h.renew hinjective
      | acquireWorkerSlot =>
          have hnone : ((tenure name).book t).identity = none := hturn.permitted
          show Exclusive name { s.shared with workerSlots := s.shared.workerSlots.tail }
            (before ++ { identity := s.shared.workerSlots.head? } :: after)
          cases hslots : s.shared.workerSlots with
          | nil =>
              refine h.reassign ?_ ?_
              · simp [hnone, hslots]
              · intro worker hworker
                cases hworker
          | cons slot rest =>
              refine h.reassign ?_ ?_
              · simp [hnone, hslots]
              · intro worker hworker
                refine h.vacant worker ?_
                rw [hslots]
                exact hworker
      | releaseWorkerSlot worker =>
          have hown : ((tenure name).book t).identity = some worker := hturn.permitted
          have hgiven : Exclusive name
              { s.shared with workerSlots := worker :: s.shared.workerSlots }
              (before ++ ({} : Tenure) :: after) := by
            refine h.reassign ?_ ?_
            · simp [hown]
            · intro other hother id howns
              rcases List.mem_cons.mp hother with rfl | hother
              · -- what it owns is what its attempt was about
                obtain ⟨record, howned⟩ := howns
                obtain ⟨phase, hphase, -⟩ := h.covered _ (by simp) other hown id record howned
                have hlast := read_holds t.task t.log hphase
                exact hturn.allowed.2 t hturn.thread id hlast ⟨record, howned⟩
              · exact h.vacant other hother id howns
          exact hgiven
      | heartbeat worker =>
          show Exclusive name (Workforce.exec name env (.inr (.heartbeat worker)) s.shared).2
            (before ++ (tenure name).book t :: after)
          unfold Workforce.exec
          dsimp only
          split
          · exact ⟨h.covered, h.apart, h.issued, h.vacant, h.unissued⟩
          · exact h

/-- **One invocation at a time.**  In every run of both runners, whatever call fails and
whatever others do, in which no attempt leaves a slot its invocation: the identity of a worker
owns no `pending` or `running` invocation but the one of the attempt it makes, and none at all
when it is about to claim. -/
theorem sole_claim (hd : d.publication = false) (hinjective : Function.Injective name)
    {s : System workPorts Workforce WorkTask}
    (hreach : Reachable (workMachine name d caller) ((othersApart name).and attemptsGivenUp)
      (freshWorkforce name threads) s) {t : Thread workPorts WorkTask} (ht : t ∈ s.threads)
    {worker : RunnerId} (hworker : identityOf t.log = some worker) :
    (∀ id, Owns s.shared.runtime id worker → lastAttempt t.log = some id) ∧
      ∀ id, t.next? = some (.inl (.setInvocationStatus id .pending (some worker))) →
        ∀ x, ¬ Owns s.shared.runtime x worker := by
  obtain ⟨hobey, hexclusive⟩ := (exclusive_upheld hd hinjective).obeyed hreach
  have hcovers : ((tenure name).book t).Covers s.shared.runtime :=
    hexclusive.covered _ (List.mem_map_of_mem ht)
  have hidentity : ((tenure name).book t).identity = some worker :=
    (read_identity t.task t.log).trans hworker
  constructor
  · rintro id ⟨record, howned⟩
    obtain ⟨phase, hphase, -⟩ := hcovers worker hidentity id record howned
    exact read_holds t.task t.log hphase
  · rintro id hnext x ⟨record, howned⟩
    obtain ⟨phase, hphase, -⟩ := hcovers worker hidentity x record howned
    have hpre := hobey t ht
    cases hprog : t.prog with
    | done a => simp [Thread.next?, hprog] at hnext
    | call c k =>
        simp only [Thread.next?, hprog, Option.some.injEq] at hnext
        subst hnext
        rw [hprog] at hpre
        have hmay : MayWrite name id .pending worker ((tenure name).book t) := hpre.1
        unfold MayWrite at hmay
        rw [hidentity] at hmay
        rw [hmay.2] at hphase
        cases hphase

end Runs

/-! ### A slot used twice -/

/-- `w`, `ww`, `www`, … -/
def workerName (k : Nat) : RunnerId :=
  ⟨String.ofList (List.replicate (k + 1) 'w')⟩

theorem workerName_injective : Function.Injective workerName := by
  intro j k h
  have hlist : List.replicate (j + 1) 'w' = List.replicate (k + 1) 'w' :=
    String.ofList_injective (RunnerId.mk.inj h)
  have hlength := congrArg List.length hlist
  simpa using hlength

instance (worker : RunnerId) : Decidable (∀ k, workerName k ≠ worker) :=
  decidable_of_iff (∀ k < worker.raw.length, workerName k ≠ worker) <| by
    constructor
    · intro h k hk
      refine h k ?_ hk
      rw [← hk]
      simp [workerName]
    · exact fun h k _ => h k

instance (s : MemRuntime) (id : InvocationId) (worker : RunnerId) : Decidable (Owns s id worker) :=
  decidable_of_iff (∃ record ∈ s.orchestrator.statusRecords.lookup id,
    isLive record.status = true ∧ record.runnerId = some worker) Iff.rfl

instance (s : System workPorts Workforce WorkTask) (task : WorkTask) :
    Decidable ((othersApart workerName).start s task) :=
  match task with
  | .other c => inferInstanceAs (Decidable (∀ worker ∈ claimant c, ∀ k, workerName k ≠ worker))
  | .tokioWorker _ _ | .rayonAttempt _ => .isTrue trivial

instance (s : System workPorts Workforce WorkTask) (i : Nat) (c : workPorts.Op) :
    Decidable ((othersApart workerName).call s i c) :=
  .isTrue trivial

instance (s : System workPorts Workforce WorkTask) (task : WorkTask) :
    Decidable (attemptsGivenUp.start s task) :=
  .isTrue trivial

instance (s : System workPorts Workforce WorkTask) (i : Nat) (c : workPorts.Op) :
    Decidable (attemptsGivenUp.call s i c) := by
  unfold attemptsGivenUp
  dsimp only
  split
  · infer_instance
  · exact .isTrue trivial

/-- Every task is known, and nothing is limited. -/
def openDeployment : Deployment :=
  { serialDeployment with catalog := { registry := fun _ => some {} } }

/-- A call of the serial task. -/
def smallCall : CallDTO :=
  .new serialDeployment.sha256Hex serialTask .empty

/-- Surroundings in which every call succeeds. -/
def calmEnv : WorkEnv where

/-- Others register, store and route an invocation, as threads `i`, `i + 1` and `i + 2`. -/
def submitted (i : Nat) (id : InvocationId) : List (Label WorkEnv WorkTask) :=
  .start (.other (.registerInvocationWithId id smallCall (some ⟨"client"⟩))) ::
    Label.steps i 1 calmEnv ++
  .start (.other (.upsertInvocation (.new 0 id serialTask smallCall.callId) smallCall)) ::
    Label.steps (i + 1) 1 calmEnv ++
  .start (.other (.routeInvocationWithOptions id (some serialTask) "default" (.finite 0))) ::
    Label.steps (i + 2) 1 calmEnv

/-- The surroundings in which a call fails. -/
def brokenEnv : WorkEnv :=
  { failure := some ⟨.stateBackend "connection lost", false, rfl⟩ }

/-- Two invocations; a first attempt with the given surroundings, and a second one, which has
come to `running`. -/
def attemptedTwice (first : List (Label WorkEnv WorkTask)) : List (Label WorkEnv WorkTask) :=
  submitted 0 ⟨"a"⟩ ++ submitted 3 ⟨"b"⟩ ++ .start (.rayonAttempt .rust) :: first ++
    .start (.rayonAttempt .rust) :: Label.steps 7 9 calmEnv

theorem sole_claim_second :
    ∃ s, Reachable (workMachine workerName openDeployment ⟨"r"⟩)
        ((othersApart workerName).and attemptsGivenUp) (freshWorkforce workerName 1) s ∧
      Owns s.shared.runtime ⟨"b"⟩ (workerName 0) ∧
      ∀ id, Owns s.shared.runtime id (workerName 0) → some ⟨"b"⟩ = some id := by
  obtain ⟨s, hreach, howns, t, ht, hidentity, hlast⟩ := Reachable.exists_of_run
    (workMachine workerName openDeployment ⟨"r"⟩) ((othersApart workerName).and attemptsGivenUp)
    (freshWorkforce workerName 1) (attemptedTwice (Label.steps 6 24 calmEnv))
    (fun s => Owns s.shared.runtime ⟨"b"⟩ (workerName 0) ∧ ∃ t ∈ s.threads,
      identityOf t.log = some (workerName 0) ∧ lastAttempt t.log = some ⟨"b"⟩)
    (by decide +kernel) (by decide +kernel)
  refine ⟨s, hreach, howns, ?_⟩
  rw [← hlast]
  exact (sole_claim rfl workerName_injective hreach ht hidentity).1

/-- **A slot is used again while its identity owns.**  The first attempt cannot read the
invocation that it has moved to `running`, and ends; the second one works under the same
identity. -/
theorem slot_reused_while_owning :
    ∃ s, Reachable (workMachine workerName openDeployment ⟨"r"⟩) (othersApart workerName)
        (freshWorkforce workerName 1) s ∧
      ∃ t ∈ s.threads, identityOf t.log = some (workerName 0) ∧
        lastAttempt t.log = some ⟨"b"⟩ ∧ Owns s.shared.runtime ⟨"b"⟩ (workerName 0) ∧
        Owns s.shared.runtime ⟨"a"⟩ (workerName 0) :=
  Reachable.exists_of_run (workMachine workerName openDeployment ⟨"r"⟩) (othersApart workerName)
    (freshWorkforce workerName 1)
    (attemptedTwice (Label.steps 6 10 calmEnv ++ Label.steps 6 1 brokenEnv ++
      Label.steps 6 1 calmEnv))
    (fun s => ∃ t ∈ s.threads, identityOf t.log = some (workerName 0) ∧
      lastAttempt t.log = some ⟨"b"⟩ ∧ Owns s.shared.runtime ⟨"b"⟩ (workerName 0) ∧
      Owns s.shared.runtime ⟨"a"⟩ (workerName 0))
    (by decide +kernel) (by decide +kernel)

end Rustvello.Runner
