import Mathlib.Data.List.Chain
import Rustvello.Mem.Runners

/-!
# Attempt numbers

Without a publication `begin_execution` reads the stored identity of an invocation, computes
the next one from it and stores that.  Nothing ties the write to the read, and the caller's
ownership was checked by an earlier call: a worker whose invocation was recovered meanwhile
still completes its own `begin_execution`.

* `beginExecution_outcome` — what a call returns is what it stored, and no less than the retry
  count of the caller;
* `allocating` — the discipline: an identity is stored only as the successor of the one that
  was read last;
* `identitiesCurrent` — the runs in which what a worker replaces is what it has read;
* `attempts_distinct` — in these runs the numbers of an invocation are distinct, and each
  identity names its predecessor's trace;
* `overtaken_attempt_repeats` — a worker that was overtaken while it computed takes the number
  that its successor has.
-/

namespace Rustvello.Mem

open Concurrency Proto Rustvello.Core Orchestration

/-! ## One call -/

/-- The trace context of the previous attempt. -/
def previousTrace (previous : Option ExecutionAttemptIdentity) : TraceContextCarrier :=
  (previous.map ExecutionAttemptIdentity.executionTraceContext).getD {}

theorem le_of_nextAttemptNumber {previous : Option ExecutionAttemptIdentity}
    {retries number : Nat} (h : nextAttemptNumber previous retries = .ok number) :
    retries ≤ number := by
  unfold nextAttemptNumber at h
  split at h
  · split at h
    · cases h
    · cases h
      exact le_max_left _ _
  · cases h
    exact le_rfl

theorem lt_of_nextAttemptNumber {identity : ExecutionAttemptIdentity} {retries number : Nat}
    (h : nextAttemptNumber (some identity) retries = .ok number) : identity.attempt < number := by
  simp only [nextAttemptNumber] at h
  split at h
  · cases h
  · cases h
    exact Nat.lt_of_lt_of_le (Nat.lt_succ_self _) (le_max_right _ _)

/-- The calls of a part that begins with a call. -/
theorem outcome_port_bind {β : Type} {c : PortCall} {f : c.Ans → Orch β}
    {log : List (Event ports)} {x : RustvelloResult β}
    (h : (port c >>= f).run.outcome log = some x) :
    ∃ r rest, log = ⟨c, r⟩ :: rest ∧
      ((∃ a, r = .ok a ∧ (f a).run.outcome rest = some x) ∨ ∃ e, x = .error e) := by
  cases log with
  | nil => cases h
  | cons event rest =>
      obtain ⟨op, r⟩ := event
      have hop : op = c := by
        by_contra hne
        have hnone : (port c >>= f).run.outcome (⟨op, r⟩ :: rest) = none := dif_neg hne
        rw [hnone] at h
        cases h
      subst hop
      refine ⟨r, rest, rfl, ?_⟩
      have hrest : (match r with
          | .ok a => (f a).run
          | .error e => Prog.done (.error e)).outcome rest = some x := by
        rw [← h]
        show _ = dite _ _ _
        rw [dif_pos rfl]
        cases r <;> rfl
      cases r with
      | ok a => exact .inl ⟨a, rfl, hrest⟩
      | error e =>
          right
          cases rest with
          | nil => exact ⟨e, (Option.some.inj hrest).symm⟩
          | cons _ _ => cases hrest

/-- A call that returns has stored what it returns, as its last step. -/
theorem beginExecution_outcome {d : Deployment} (hd : d.publication = false) (id : InvocationId)
    (worker : RunnerId) (retries : Nat) (incoming : TraceContextCarrier)
    {log : List (Event ports)} {identity : ExecutionAttemptIdentity}
    (h : (beginExecution d id worker retries incoming).run.outcome log = some (.ok identity)) :
    log.getLast? = some ⟨.setExecutionIdentity id identity, .ok ()⟩ ∧
      retries ≤ identity.attempt := by
  unfold beginExecution at h
  rw [if_neg (by simp [hd])] at h
  obtain ⟨_, log₁, rfl, ⟨previous, rfl, hread⟩ | ⟨_, herror⟩⟩ := outcome_port_bind h
  swap
  · cases herror
  dsimp only at hread
  cases hnumber : nextAttemptNumber previous retries with
  | error e =>
      rw [hnumber] at hread
      cases log₁ <;> cases hread
  | ok number =>
      rw [hnumber] at hread
      obtain ⟨_, log₂, rfl, ⟨trace, rfl, htrace⟩ | ⟨_, herror⟩⟩ := outcome_port_bind hread
      swap
      · cases herror
      obtain ⟨_, log₃, rfl, ⟨_, rfl, hstored⟩ | ⟨_, herror⟩⟩ := outcome_port_bind htrace
      swap
      · cases herror
      cases log₃ with
      | cons _ _ => cases hstored
      | nil =>
          cases hstored
          exact ⟨rfl, le_of_nextAttemptNumber hnumber⟩

/-! ## The discipline -/

/-- What an operation has read last. -/
structure Allocation where
  read : Option (InvocationId × Option ExecutionAttemptIdentity) := none

/-- An identity is stored as the successor of the one that was read last. -/
def allocating : Discipline runnerPorts RunnerTask Allocation where
  start _ := {}
  next
    | .inl (.getExecutionIdentity id), .ok previous, _ => { read := some (id, previous) }
    | _, _, g => g
  pre
    | .inl (.setExecutionIdentity id identity), g => ∃ previous retries,
        g.read = some (id, previous) ∧
        nextAttemptNumber previous retries = .ok identity.attempt ∧
        identity.previousAttemptTraceContext = previousTrace previous
    | _, _ => True
  resp c _ r := RunnerTruthful c r

/-- Submissions, workers, recovery passes, and what else acts on one invocation. -/
def RunnerTask.isWorkOrRecovery : RunnerTask → Bool
  | operation (.evaluateTriggers _) => false
  | operation _ | complete _ _ | recoverStale _ | heartbeat _ => true
  | _ => false

section Programs

variable {d : Deployment} {α : Type} {g : Allocation} {p : Orch α}

/-- Calls that neither read nor store an identity. -/
theorem quiet_of_nameless {c : PortCall} (h : namesExecution c = false) :
    allocating.left.Quiet c := by
  intro g
  cases c <;> first
    | exact ⟨trivial, fun _ => rfl⟩
    | cases h

/-- A part of an operation that makes no such call. -/
abbrev Anonymous (p : Orch α) : Prop :=
  Prog.UsesE Truthful (fun c => namesExecution c = false) p

theorem anonymous_of_nameless {P : PortCall → Prop}
    (h : Prog.UsesE Truthful (Nameless P) p) : Anonymous p :=
  Prog.Uses.mono h (fun _ _ h => h) fun _ h => h.2

theorem anonymous_of_dispatches (h : Prog.UsesE Truthful Dispatches p) :
    Anonymous p := by
  refine Prog.Uses.mono h (fun _ _ h => h) fun c hc => ?_
  cases c <;> first | rfl | exact hc.elim

theorem anonymous_of_submits {s : Submission}
    (h : Prog.UsesE Truthful (Submits s) p) : Anonymous p := by
  refine Prog.Uses.mono h (fun _ _ h => h) fun c hc => ?_
  cases c <;> first | rfl | exact hc.elim

/-- Parts of an operation, whatever their value. -/
abbrev Allocates (p : Orch α) (g : Allocation) : Prop :=
  allocating.left.ObeysE p (fun _ _ => True) (fun _ _ => True) g

theorem Anonymous.allocates (h : Anonymous p) (g : Allocation) : Allocates p g := by
  have huses : Prog.UsesE allocating.left.Answers allocating.left.Quiet p :=
    Prog.Uses.mono h (fun _ _ ⟨_, h⟩ => h) fun _ => quiet_of_nameless
  exact (Discipline.ObeysE.of_uses huses g).mono (fun _ _ _ => trivial) fun _ _ _ => trivial

/-- Such a part, then the rest. -/
theorem Anonymous.bind {β : Type} {f : α → Orch β} (h : Anonymous p)
    (hf : ∀ a, Allocates (f a) g) : Allocates (p >>= f) g := by
  have huses : Prog.UsesE allocating.left.Answers allocating.left.Quiet p :=
    Prog.Uses.mono h (fun _ _ ⟨_, h⟩ => h) fun _ => quiet_of_nameless
  exact Discipline.ObeysE.bind_of_uses huses (fun _ => trivial) hf

/-- **An allocation keeps to it**, and so does what follows. -/
theorem beginExecution_allocates (hd : d.publication = false) (id : InvocationId)
    (worker : RunnerId) (retries : Nat) (incoming : TraceContextCarrier) {β : Type}
    {f : ExecutionAttemptIdentity → Orch β} (hf : ∀ identity, Anonymous (f identity)) :
    Allocates (beginExecution d id worker retries incoming >>= f) g := by
  refine Discipline.ObeysE.bind (R := fun _ _ => True) ?_ fun identity g' _ =>
    (hf identity).allocates g'
  unfold beginExecution
  rw [if_neg (by simp [hd])]
  refine obeysE_port_bind.mpr ⟨trivial, fun previous _ => ?_, fun _ _ => trivial⟩
  dsimp only
  cases hnumber : nextAttemptNumber previous retries with
  | error e => trivial
  | ok number =>
      refine obeysE_port_bind.mpr ⟨trivial, fun trace _ => ?_, fun _ _ => trivial⟩
      refine obeysE_port_bind.mpr ⟨?_, fun _ _ => trivial, fun _ _ => trivial⟩
      exact ⟨previous, retries, rfl, hnumber, rfl⟩

theorem executeClaimed_allocates (hd : d.publication = false) (id : InvocationId)
    (worker : RunnerId) : Allocates (executeClaimed d id worker) g := by
  have hwrite : Anonymous (setInvocationStatus d id .running worker) :=
    anonymous_of_nameless (P := Updates (fun _ => True) id worker)
      (setInvocationStatus_nameless hd id worker trivial)
  refine hwrite.bind fun _ => ?_
  refine Anonymous.bind (usesE_port rfl) fun invocation => ?_
  refine Anonymous.bind (usesE_port rfl) fun call => ?_
  split
  · exact (anonymous_of_nameless (P := Updates (fun _ => True) id worker)
      (fail_nameless hd id worker _ _ _ _ trivial)).allocates g
  · refine Anonymous.bind (usesE_port rfl) fun history => ?_
    refine beginExecution_allocates hd id worker _ _ fun identity => ?_
    refine Prog.usesE_bind (usesE_port rfl) fun _ => Prog.usesE_bind (usesE_port rfl) ?_
    intro outcome
    exact anonymous_of_nameless (P := ActsOn (fun _ => True) id worker)
      (finishAttempt_nameless hd id worker _ _ _ _ _ _ outcome ⟨trivial, trivial, trivial, trivial⟩)

theorem program_allocates (hd : d.publication = false) {task : RunnerTask}
    (htask : task.isWorkOrRecovery = true) :
    allocating.Obeys (task.program d) (fun _ _ => True) {} := by
  have hunit : ∀ {β : Type} {p : Orch β}, Allocates p {} →
      allocating.Obeys p.run.toUnit.inl (fun _ _ => True) {} := by
    intro β p h
    refine (Discipline.obeys_inl _).mpr ?_
    exact Discipline.Obeys.toUnit (Discipline.Obeys.mono h fun _ _ _ => trivial)
  have hlift : ∀ {β : Type} {p : Orch β}, Allocates p {} →
      allocating.Obeys (lift p).run.toUnit (fun _ _ => True) {} := by
    intro β p h
    exact Discipline.Obeys.toUnit (Discipline.Obeys.mono (obeysE_lift.mpr h) fun _ _ _ => trivial)
  cases task with
  | operation op =>
      cases op with
      | submit submission =>
          exact hunit ((anonymous_of_submits (submitWithId_submits hd submission)).allocates {})
      | work language worker =>
          have hrelease : ∀ id, Anonymous (releaseNontransactionalConcurrencySlot d id) := fun id =>
            anonymous_of_nameless (P := Updates (fun _ => True) id worker)
              (releaseSlot_nameless hd id worker)
          refine hunit ?_
          refine (anonymous_of_dispatches (claimNext_dispatches hd language worker)).bind ?_
          rintro (_ | id)
          · trivial
          · have hclaim : Anonymous (attempt (setInvocationStatus d id .pending worker)) :=
              usesE_attempt (anonymous_of_nameless (P := Updates (fun _ => True) id worker)
                (setInvocationStatus_nameless hd id worker trivial))
            refine hclaim.bind ?_
            rintro (e | record)
            · dsimp only
              split
              · exact (hrelease id).allocates {}
              · exact Anonymous.bind (usesE_attempt (hrelease id)) fun _ => trivial
            · exact executeClaimed_allocates hd id worker
      | recover runnerId id recoveryStatus =>
          exact hunit ((anonymous_of_nameless (P := ActsOn (fun _ => True) id runnerId)
            (recoverOne_nameless hd id runnerId trivial trivial trivial)).allocates {})
      | cancel id runnerId =>
          exact hunit ((anonymous_of_nameless (P := Updates (fun _ => True) id runnerId)
            (cancelInvocation_nameless hd id runnerId trivial)).allocates {})
      | waitFor waiter waitedOn =>
          have hwait : Anonymous (setWaitingFor waiter waitedOn) := usesE_port rfl
          exact hunit (hwait.allocates {})
      | evaluateTriggers runnerId => cases htask
  | complete id worker => exact hlift (executeClaimed_allocates hd id worker)
  | recoverStale runnerId =>
      have huses : Prog.UsesE allocating.Answers allocating.Quiet
          (recoverStaleInvocations d runnerId) := by
        refine recoverStaleInvocations_uses (fun c g => ⟨trivial, fun _ => rfl⟩)
          (fun g => ⟨trivial, fun _ => rfl⟩) (fun id g => ⟨trivial, fun _ => rfl⟩) runnerId ?_
        · intro id recoveryStatus
          refine Prog.Uses.mono (anonymous_of_nameless (P := ActsOn (fun _ => True) id runnerId)
            (recoverOne_nameless hd id runnerId trivial trivial trivial)) (fun _ _ ⟨_, h⟩ => h) ?_
          exact fun _ => quiet_of_nameless
      exact Discipline.Obeys.toUnit (Discipline.Obeys.mono (Discipline.Obeys.of_uses huses {})
        fun _ _ _ => trivial)
  | heartbeat runnerId => exact ⟨trivial, fun r _ => by cases r <;> trivial⟩
  | retrieve maxNum runnerId => cases htask
  | routeCall call => cases htask
  | registerInvocations invocations runnerId routes => cases htask

end Programs

/-! ## What is stored -/

/-- The identity that an event stores for `id`. -/
def identityWrite? (id : InvocationId) : Event runnerPorts → Option ExecutionAttemptIdentity
  | ⟨.inl (.setExecutionIdentity x identity), .ok _⟩ => if x = id then some identity else none
  | _ => none

/-- The identities stored for `id` in a run, newest first. -/
def allocated (id : InvocationId) (events : List (Event runnerPorts)) :
    List ExecutionAttemptIdentity :=
  events.filterMap (identityWrite? id)

/-- One identity is computed from the other. -/
structure Supersedes (newer older : ExecutionAttemptIdentity) : Prop where
  attempt : older.attempt < newer.attempt
  trace : newer.previousAttemptTraceContext = older.executionTraceContext

section Chains

variable {identities : List ExecutionAttemptIdentity}

/-- Numbers fall along a chain. -/
theorem attempts_decrease (h : identities.IsChain Supersedes) :
    (identities.map ExecutionAttemptIdentity.attempt).Pairwise (· > ·) := by
  refine List.isChain_iff_pairwise.mp ?_
  exact List.isChain_map_of_isChain _ (fun _ _ hsupersedes => hsupersedes.attempt) h

/-- The identity with the next smaller number is the one that was replaced. -/
theorem trace_of_next_smaller (h : identities.IsChain Supersedes)
    {newer older : ExecutionAttemptIdentity} (hnewer : newer ∈ identities)
    (holder : older ∈ identities) (hlt : older.attempt < newer.attempt)
    (hnext : ∀ other ∈ identities, other.attempt < newer.attempt → other.attempt ≤ older.attempt) :
    newer.previousAttemptTraceContext = older.executionTraceContext := by
  induction identities with
  | nil => cases hnewer
  | cons x rest ih =>
      have hdecrease := attempts_decrease h
      rw [List.map_cons, List.pairwise_cons] at hdecrease
      have hbelow : ∀ y ∈ rest, y.attempt < x.attempt := fun y hy =>
        hdecrease.1 _ (List.mem_map_of_mem hy)
      rcases List.mem_cons.mp hnewer with rfl | hnewer
      · -- the newest one replaced the head of the rest
        have hrest : older ∈ rest := by
          rcases List.mem_cons.mp holder with rfl | hrest
          · exact absurd hlt (lt_irrefl _)
          · exact hrest
        cases rest with
        | nil => cases hrest
        | cons y rest =>
            obtain ⟨hsupersedes, hchain⟩ := List.isChain_cons_cons.mp h
            have hy := hnext y (by simp) hsupersedes.attempt
            rcases List.mem_cons.mp hrest with rfl | hin
            · exact hsupersedes.trace
            · have hfalls := attempts_decrease hchain
              rw [List.map_cons, List.pairwise_cons] at hfalls
              have hsmaller := hfalls.1 _ (List.mem_map_of_mem hin)
              omega
      · have holdest := hbelow newer hnewer
        have hrest : older ∈ rest := by
          rcases List.mem_cons.mp holder with rfl | hrest
          · omega
          · exact hrest
        refine ih (List.IsChain.tail h) hnewer hrest fun other hother => ?_
        exact hnext other (List.mem_cons_of_mem _ hother)

end Chains

/-! ## Runs -/

/-- The identity that an event reads. -/
def identityRead? : Event runnerPorts → Option (InvocationId × Option ExecutionAttemptIdentity)
  | ⟨.inl (.getExecutionIdentity id), .ok previous⟩ => some (id, previous)
  | _ => none

/-- Any number of submissions, workers and recovery passes. -/
def workAndRecovery : Guard runnerPorts (MemRuntime × List (Event runnerPorts)) RunnerTask where
  start _ task := task.isWorkOrRecovery = true
  call _ _ _ := True

/-- When a worker stores an identity, the stored one is still the one that it has read. -/
def identitiesCurrent : Guard runnerPorts (MemRuntime × List (Event runnerPorts)) RunnerTask where
  start _ _ := True
  call s i
    | .inl (.setExecutionIdentity id _) => ∀ t ∈ s.threads[i]?, ∀ previous,
        t.log.findSome? identityRead? = some (id, previous) →
        s.shared.1.backend.identities.lookup id = previous
    | _ => True

/-- **The invariant.**  The stored identity is the newest of a chain. -/
structure Numbered (s : MemRuntime × List (Event runnerPorts)) : Prop where
  chained : ∀ id, (allocated id s.2).IsChain Supersedes
  stored : ∀ id, s.1.backend.identities.lookup id = (allocated id s.2).head?

/-- What the book says was read is what the log says. -/
theorem allocating_book_read (task : RunnerTask) (log : List (Event runnerPorts)) :
    (allocating.read task log).read = log.findSome? identityRead? := by
  induction log with
  | nil => rfl
  | cons e log ih =>
      obtain ⟨c, r⟩ := e
      rw [Monitor.read_cons, List.findSome?_cons]
      rcases c with c | c
      · cases c <;> first
          | exact ih
          | skip
        case getExecutionIdentity id =>
          cases r with
          | error e => exact ih
          | ok previous => rfl
      · exact ih

/-- A call that stores no identity. -/
theorem execRunner_identities (env : Env) {c : runnerPorts.Op} (s : MemRuntime)
    (h : ∀ id identity, c ≠ .inl (.setExecutionIdentity id identity)) :
    (MemRuntime.execRunner env c s).2.backend.identities = s.backend.identities := by
  rcases c with c | c
  · cases c <;> first
      | rfl
      | exact absurd rfl (h _ _)
  · cases c <;> rfl

/-- **Every call keeps the chain.** -/
theorem Numbered.exec {s : MemRuntime × List (Event runnerPorts)} (h : Numbered s) (env : Env)
    {c : runnerPorts.Op} {g : Allocation} (hpre : allocating.pre c g)
    (hcurrent : ∀ id identity previous, c = .inl (.setExecutionIdentity id identity) →
      g.read = some (id, previous) → s.1.backend.identities.lookup id = previous) :
    Numbered ((MemRuntime.execRunner env c s.1).2,
      ⟨c, (MemRuntime.execRunner env c s.1).1⟩ :: s.2) := by
  by_cases hstore : ∃ x identity, c = .inl (.setExecutionIdentity x identity)
  · obtain ⟨x, identity, rfl⟩ := hstore
    obtain ⟨previous, retries, hread, hnumber, htrace⟩ := hpre
    have hlookup := hcurrent x identity previous rfl hread
    have hnew : ∀ id, allocated id (⟨.inl (.setExecutionIdentity x identity), .ok ()⟩ :: s.2) =
        if x = id then identity :: allocated id s.2 else allocated id s.2 := by
      intro id
      by_cases hid : x = id <;> simp [allocated, identityWrite?, hid]
    constructor
    · intro id
      show (allocated id (⟨.inl (.setExecutionIdentity x identity), .ok ()⟩ :: s.2)).IsChain _
      rw [hnew]
      split
      · rename_i hid
        subst hid
        rw [h.stored] at hlookup
        cases hlist : allocated x s.2 with
        | nil => exact List.isChain_singleton _
        | cons older rest =>
            have hchain := h.chained x
            rw [hlist] at hchain hlookup
            obtain rfl : some older = previous := hlookup
            exact List.isChain_cons_cons.mpr ⟨⟨lt_of_nextAttemptNumber hnumber, htrace⟩, hchain⟩
      · exact h.chained id
    · intro id
      show (s.1.backend.identities.insert x identity).lookup id =
        (allocated id (⟨.inl (.setExecutionIdentity x identity), .ok ()⟩ :: s.2)).head?
      rw [hnew]
      by_cases hid : x = id
      · subst hid
        simp
      · rw [if_neg hid, ← h.stored]
        simp [Ne.symm hid]
  · have hother : ∀ id identity, c ≠ .inl (.setExecutionIdentity id identity) :=
      fun id identity heq => hstore ⟨id, identity, heq⟩
    have hsame : ∀ id r, allocated id (⟨c, r⟩ :: s.2) = allocated id s.2 := by
      intro id r
      refine List.filterMap_cons_none ?_
      rcases c with c | c
      · cases c <;> first
          | rfl
          | exact absurd rfl (hother _ _)
      · rfl
    constructor
    · intro id
      rw [hsame]
      exact h.chained id
    · intro id
      rw [hsame, execRunner_identities env s.1 hother]
      exact h.stored id

section Runs

variable {d : Deployment}

theorem numbered_upheld (hd : d.publication = false) :
    allocating.Upheld (fun _ => True) (fun s _ => Numbered s) (runnerMachine d).recorded
      (workAndRecovery.and identitiesCurrent) ⟨({}, []), []⟩ where
  program _ task hstart := by
    exact program_allocates hd hstart.1
  obey t ht := by cases ht
  logs t ht := by cases ht
  holds := by
    constructor
    · exact fun _ => List.isChain_nil
    · exact fun _ => rfl
  start _ _ _ h := h
  call s i env t c before after hturn h := by
    refine ⟨MemRuntime.execRunner_truthful env c s.shared.1, ?_⟩
    refine h.exec env hturn.permitted ?_
    rintro id identity previous rfl hread
    rw [Monitor.book, allocating_book_read] at hread
    exact hturn.allowed.2 t hturn.thread previous hread

/-- **Attempts have distinct numbers.**  In every interleaving of submissions, workers and
recovery passes in which no identity is replaced that the worker has not read: the numbers
stored for an invocation are distinct; an identity names the trace of the one with the next
smaller number; and every `begin_execution` that returns has stored what it returns, which is
no less than its retry count. -/
theorem attempts_distinct (hd : d.publication = false)
    {s : System runnerPorts (MemRuntime × List (Event runnerPorts)) RunnerTask}
    (hreach : Reachable (runnerMachine d).recorded (workAndRecovery.and identitiesCurrent)
      ⟨({}, []), []⟩ s) (id : InvocationId) :
    ((allocated id s.shared.2).map ExecutionAttemptIdentity.attempt).Nodup ∧
      (∀ newer ∈ allocated id s.shared.2, ∀ older ∈ allocated id s.shared.2,
        older.attempt < newer.attempt →
        (∀ other ∈ allocated id s.shared.2,
          other.attempt < newer.attempt → other.attempt ≤ older.attempt) →
        newer.previousAttemptTraceContext = older.executionTraceContext) ∧
      ∀ worker retries incoming log identity,
        (beginExecution d id worker retries incoming).run.outcome log = some (.ok identity) →
        log.getLast? = some ⟨.setExecutionIdentity id identity, .ok ()⟩ ∧
          retries ≤ identity.attempt := by
  obtain ⟨-, hnumbered⟩ := (numbered_upheld hd).obeyed hreach
  have hchain := hnumbered.chained id
  refine ⟨(attempts_decrease hchain).imp fun hlt => ne_of_gt hlt, ?_, ?_⟩
  · intro newer hnewer older holder hlt hnext
    exact trace_of_next_smaller hchain hnewer holder hlt hnext
  · intro worker retries incoming log identity h
    exact beginExecution_outcome hd id worker retries incoming h

end Runs

/-! ### A worker that is overtaken -/

instance (s : System runnerPorts (MemRuntime × List (Event runnerPorts)) RunnerTask)
    (task : RunnerTask) : Decidable (workAndRecovery.start s task) :=
  inferInstanceAs (Decidable (task.isWorkOrRecovery = true))

instance (s : System runnerPorts (MemRuntime × List (Event runnerPorts)) RunnerTask) (i : Nat)
    (c : runnerPorts.Op) : Decidable (workAndRecovery.call s i c) :=
  inferInstanceAs (Decidable True)

instance (s : System runnerPorts (MemRuntime × List (Event runnerPorts)) RunnerTask)
    (task : RunnerTask) : Decidable (identitiesCurrent.start s task) :=
  inferInstanceAs (Decidable True)

instance (s : System runnerPorts (MemRuntime × List (Event runnerPorts)) RunnerTask) (i : Nat)
    (c : runnerPorts.Op) : Decidable (identitiesCurrent.call s i c) := by
  induction c using Sum.casesOn with
  | inl c =>
    induction c using PortCall.casesOn with
    | setExecutionIdentity id _ =>
        refine decidable_of_iff (∀ t ∈ s.threads[i]?, ∀ read ∈ t.log.findSome? identityRead?,
          read.1 = id → s.shared.1.backend.identities.lookup id = read.2) ?_
        constructor
        · exact fun h t ht previous hread => h t ht _ hread rfl
        · rintro h t ht ⟨_, previous⟩ hread rfl
          exact h t ht previous hread
    | _ => exact .isTrue trivial
  | inr c => exact .isTrue trivial

/-- Long after every threshold. -/
def muchLater : Env := { idleEnv with clock := 1000000000000 }

/-- `a` is submitted and claimed by a worker, which makes some of its calls; much later a pass
recovers `a`, and a second worker claims it and makes some of its own. -/
def recoveredWhileRunning (first second : Nat) : List (Label Env RunnerTask) :=
  .start (.operation (submitSerial "a")) :: Label.steps 0 6 idleEnv ++
    .start (.operation (.work .rust ⟨"w1"⟩)) :: Label.steps 1 first idleEnv ++
    .start (.recoverStale ⟨"r1"⟩) :: Label.steps 2 14 muchLater ++
    .start (.operation (.work .rust ⟨"w2"⟩)) :: Label.steps 3 second muchLater

/-- The first worker has stored its identity before it is recovered. -/
theorem attempts_distinct_recovered :
    ∃ s, Reachable (runnerMachine serialDeployment).recorded
        (workAndRecovery.and identitiesCurrent) ⟨({}, []), []⟩ s ∧
      (allocated ⟨"a"⟩ s.shared.2).map ExecutionAttemptIdentity.attempt = [1, 0] ∧
      ((allocated ⟨"a"⟩ s.shared.2).map ExecutionAttemptIdentity.attempt).Nodup := by
  obtain ⟨s, hreach, hattempts⟩ := Reachable.exists_of_run
    (runnerMachine serialDeployment).recorded (workAndRecovery.and identitiesCurrent)
    ⟨({}, []), []⟩ (recoveredWhileRunning 16 16)
    (fun s => (allocated ⟨"a"⟩ s.shared.2).map ExecutionAttemptIdentity.attempt = [1, 0])
    (by decide +kernel) (by decide +kernel)
  exact ⟨s, hreach, hattempts, (attempts_distinct rfl hreach ⟨"a"⟩).1⟩

/-- **A number is taken twice.**  The first worker has read that there is no identity when `a`
is recovered; the second worker stores attempt `0`, and then the first one does. -/
theorem overtaken_attempt_repeats :
    ∃ s, Reachable (runnerMachine serialDeployment).recorded workAndRecovery ⟨({}, []), []⟩ s ∧
      ¬ ((allocated ⟨"a"⟩ s.shared.2).map ExecutionAttemptIdentity.attempt).Nodup := by
  obtain ⟨s, hreach, hattempts⟩ := Reachable.exists_of_run
    (runnerMachine serialDeployment).recorded workAndRecovery ⟨({}, []), []⟩
    (recoveredWhileRunning 15 16 ++ Label.steps 1 1 muchLater)
    (fun s => (allocated ⟨"a"⟩ s.shared.2).map ExecutionAttemptIdentity.attempt = [0, 0])
    (by decide +kernel) (by decide +kernel)
  refine ⟨s, hreach, ?_⟩
  rw [hattempts]
  decide

end Rustvello.Mem
