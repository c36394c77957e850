import Rustvello.Mem.Runners
import Rustvello.Mem.Slots

/-!
# The running limit of batch retrieval

`get_invocations_to_run` counts the pending and running invocations of a key before it moves
a candidate to `pending`.  The count and the move are two calls, and the count sees only what
is in the concurrency index; of the ways to create an invocation only `route_call` puts it
there, and only when it is told to.

* `runKey`, `active` — the key of a stored invocation under the effective configuration, and
  the invocations that are pending or running under a key;
* `clearing` — the discipline: a retrieval moves a candidate right after it was counted in, or
  if its task is not limited;
* `countedAlone` — when a key is counted, the index has everything active under it, and nobody
  else is between count and move;
* `active_le_limit` — then the limit holds in every run.
-/

namespace Rustvello.Mem

open Concurrency Proto Rustvello.Core Orchestration

/-- The operations of batch runners: everything but workers that claim one invocation at a
time, and bare recoveries. -/
def RunnerTask.isBatch : RunnerTask → Bool
  | .operation (.work _ _) | .operation (.recover _ _ _) => false
  | _ => true

def RunnerTask.isRetrieve : RunnerTask → Bool
  | .retrieve _ _ => true
  | _ => false

section Keys

variable (d : Deployment)

/-- Task and concurrency key of a stored invocation, as retrieval reads them. -/
def runKey (b : BackendState) (id : InvocationId) : Option (TaskId × Option SerializedArguments) :=
  match b.invocations.lookup id with
  | none => none
  | some invocation =>
      match d.configForTask invocation.taskId, b.calls.lookup invocation.callId with
      | some config, some call =>
          some (invocation.taskId, concurrencyArguments config.concurrencyControl
            config.keyArguments call.serializedArguments)
      | _, _ => none

/-- The stored invocations that are pending or running under a key. -/
def active (s : MemRuntime) (key : TaskId × Option SerializedArguments) : Finset InvocationId :=
  s.backend.invocations.keys.toFinset.filter fun id =>
    runKey d s.backend id = some key ∧ s.orchestrator.isActive id = true

/-- No limit applies to the task. -/
def Unrestricted (taskId : TaskId) : Prop :=
  ∀ config, d.configForTask taskId = some config → config.concurrencyControl = .unlimited

end Keys

/-! ## The discipline -/

/-- What a retrieval has read last, and the candidate that it has just counted in. -/
structure Clearance where
  retrieves : Bool
  read : Option (InvocationId × InvocationDTO) := none
  call : Option (CallId × CallDTO) := none
  cleared : Option InvocationId := none

def Clearance.next : (c : runnerPorts.Op) → runnerPorts.Ret c → Clearance → Clearance
  | .inl (.getInvocation id), .ok invocation, g => { g with read := some (id, invocation) }
  | .inl (.getCall callId), .ok call, g => { g with call := some (callId, call) }
  | .inl (.setInvocationStatus _ _ _), _, g => { g with cleared := none }
  | .inr (.checkRunningConcurrency _ _ _), .ok true, g =>
      if g.retrieves then { g with cleared := g.read.map Prod.fst } else g
  | _, _, g => g

/-- The candidate was counted in, or its task is not limited. -/
def Clearance.MayClaim (d : Deployment) (g : Clearance) (id : InvocationId) : Prop :=
  g.cleared = some id ∨
    g.cleared = none ∧ ∃ invocation, g.read = some (id, invocation) ∧ Unrestricted d invocation.taskId

/-- A key is counted for the invocation that was read last. -/
def Clearance.MayCount (d : Deployment) (g : Clearance) (taskId : TaskId) (config : TaskConfig)
    (ccArgs : Option SerializedArguments) : Prop :=
  ∃ id invocation call, g.read = some (id, invocation) ∧
    g.call = some (invocation.callId, call) ∧ invocation.taskId = taskId ∧
    d.configForTask taskId = some config ∧ config.concurrencyControl ≠ .unlimited ∧
    ccArgs = concurrencyArguments config.concurrencyControl config.keyArguments
      call.serializedArguments

def clearing (d : Deployment) : Discipline runnerPorts RunnerTask Clearance where
  start task := { retrieves := task.isRetrieve }
  next := Clearance.next
  pre
    | .inl (.setInvocationStatus id status _), g => status ≠ .paused ∧
        (if status = .pending then g.MayClaim d id else g.cleared = none)
    | .inr (.checkRunningConcurrency taskId config ccArgs), g => g.cleared = none ∧
        (g.retrieves = true → g.MayCount d taskId config ccArgs)
    | _, g => g.cleared = none
  resp c g r := RunnerTruthful c r ∧ match c, r with
    | .inl (.getInvocation _), r => g.retrieves = true → ∃ invocation, r = .ok invocation
    | .inl (.getCall _), r => g.retrieves = true → ∃ call, r = .ok call
    | _, _ => True

/-- Between candidates. -/
structure Clearance.Idle (retrieves : Bool) (g : Clearance) : Prop where
  kind : g.retrieves = retrieves
  free : g.cleared = none

section Programs

variable {d : Deployment} {α : Type} {retrieves : Bool} {g : Clearance}

/-- Writes that neither claim nor pause. -/
abbrev Settling (status : InvocationStatus) : Prop :=
  status ≠ .pending ∧ status ≠ .paused

/-- Calls that neither count nor claim leave an operation between candidates. -/
theorem keeps_idle {c : runnerPorts.Op} (hwrite : WritesStatus Settling c)
    (hcount : retrieves = true → ∀ taskId config ccArgs,
      c ≠ .inr (.checkRunningConcurrency taskId config ccArgs)) :
    (clearing d).Keeps (Clearance.Idle retrieves) c := by
  intro g hg
  rcases c with c | c
  · cases c <;> first
      | exact ⟨hg.free, fun _ _ => hg⟩
      | skip
    case setInvocationStatus id status runnerId =>
      refine ⟨⟨hwrite.2, ?_⟩, fun _ _ => ⟨hg.kind, rfl⟩⟩
      rw [if_neg hwrite.1]
      exact hg.free
    case getInvocation id =>
      refine ⟨hg.free, fun r _ => ?_⟩
      cases r with
      | error e => exact hg
      | ok invocation => exact ⟨hg.kind, hg.free⟩
    case getCall callId =>
      refine ⟨hg.free, fun r _ => ?_⟩
      cases r with
      | error e => exact hg
      | ok call => exact ⟨hg.kind, hg.free⟩
  · cases c <;> first
      | exact ⟨hg.free, fun _ _ => hg⟩
      | skip
    case checkRunningConcurrency taskId config ccArgs =>
      have hfalse : g.retrieves = false := by
        cases retrieves with
        | true => exact absurd rfl (hcount rfl taskId config ccArgs)
        | false => exact hg.kind
      refine ⟨⟨hg.free, fun h => absurd h (by simp [hfalse])⟩, fun r _ => ?_⟩
      rcases r with e | _ | _
      · exact hg
      · exact hg
      · show Clearance.Idle retrieves (if g.retrieves = true then _ else g)
        rw [hfalse]
        exact hg

theorem runnerTruthful_of_answers {c : runnerPorts.Op} {r : runnerPorts.Ret c}
    (h : (clearing d).Answers c r) : RunnerTruthful c r := by
  obtain ⟨g, hr⟩ := h
  exact hr.1

/-- A part of the orchestrator that claims nothing. -/
theorem lift_idle {p : Orch α} (hp : WritesOnly Settling p) (hg : g.Idle retrieves) :
    (clearing d).ObeysE (lift p) (fun _ => Clearance.Idle retrieves)
      (fun _ => Clearance.Idle retrieves) g := by
  apply Discipline.ObeysE.of_keeps _ hg
  apply usesE_lift
  refine Prog.Uses.mono hp (fun c r hr => runnerTruthful_of_answers hr) fun c hc => ?_
  exact keeps_idle (Writes.status hc) fun _ _ _ _ => by simp

/-- Such a part, then the rest. -/
theorem lift_idle_bind {β : Type} {p : Orch α} {f : α → Runner β} {Q : β → Clearance → Prop}
    (hp : WritesOnly Settling p) (hg : g.Idle retrieves)
    (hf : ∀ a g', g'.Idle retrieves →
      (clearing d).ObeysE (f a) Q (fun _ => Clearance.Idle retrieves) g') :
    (clearing d).ObeysE (lift p >>= f) Q (fun _ => Clearance.Idle retrieves) g :=
  Discipline.ObeysE.bind (lift_idle hp hg) hf

/-- The candidate may be claimed next. -/
structure Clearance.Ready (d : Deployment) (id : InvocationId) (g : Clearance) : Prop where
  kind : g.retrieves = true
  claim : g.MayClaim d id

theorem checkCcForInvocation_clears (id : InvocationId) (hg : g.Idle true) :
    (clearing d).ObeysE (checkCcForInvocation d id)
      (fun cleared g' => if cleared then g'.Ready d id else g'.Idle true)
      (fun _ => Clearance.Idle true) g := by
  unfold checkCcForInvocation
  refine obeysE_liftAttempt_bind.mpr ⟨hg.free, ?_⟩
  rintro r ⟨-, hread⟩
  obtain ⟨invocation, rfl⟩ := hread hg.kind
  have hunrestricted : Unrestricted d invocation.taskId →
      Clearance.Ready d id { g with read := some (id, invocation) } :=
    fun h => ⟨hg.kind, .inr ⟨hg.free, invocation, rfl, h⟩⟩
  dsimp only
  cases hconfig : d.configForTask invocation.taskId with
  | none =>
      refine hunrestricted ?_
      intro config h
      rw [hconfig] at h
      cases h
  | some config =>
      dsimp only
      split
      · rename_i hunlimited
        refine hunrestricted ?_
        intro other h
        rw [hconfig] at h
        obtain rfl := Option.some.inj h
        exact hunlimited
      · rename_i hlimited
        refine obeysE_liftAttempt_bind.mpr ⟨hg.free, ?_⟩
        rintro r ⟨-, hread⟩
        obtain ⟨call, rfl⟩ := hread hg.kind
        refine ⟨⟨hg.free, fun _ => ⟨id, invocation, call, rfl, rfl, rfl, hconfig, hlimited, rfl⟩⟩,
          ?_⟩
        rintro (e | _ | _) _
        · exact ⟨hg.kind, hg.free⟩
        · exact ⟨hg.kind, hg.free⟩
        · show Clearance.Ready d id (if g.retrieves = true then _ else _)
          rw [if_pos hg.kind]
          exact ⟨hg.kind, .inl rfl⟩

theorem tryTransitionToPending_clears (id : InvocationId) (runnerId : RunnerId)
    (result : List InvocationId) (hg : g.Ready d id) :
    (clearing d).ObeysE (lift (tryTransitionToPending d id runnerId result))
      (fun _ => Clearance.Idle true) (fun _ => Clearance.Idle true) g := by
  rw [obeysE_lift]
  unfold tryTransitionToPending
  refine obeysE_attempt_bind.mpr (obeysE_port.mpr ⟨⟨by decide, ?_⟩, ?_⟩)
  · rw [if_pos rfl]
    exact hg.claim
  · rintro (e | record) _
    · show (clearing d).left.ObeysE (if e.isInvalidStatusTransition = true then pure result
        else throw e) _ _ _
      split <;> exact ⟨hg.kind, rfl⟩
    · have hrecord : WritesOnly Settling (recordClaim d id runnerId record) :=
        recordClaim_writesOnly id runnerId record
      rw [Discipline.outcome_ok]
      have hidle : Clearance.Idle true { g with cleared := none } := ⟨hg.kind, rfl⟩
      refine Discipline.ObeysE.bind (obeysE_lift.mp (lift_idle hrecord hidle)) ?_
      intro _ g' hg'
      exact hg'

theorem retrieveBlocking_clears (maxNum : Nat) (runnerId : RunnerId)
    (result ids : List InvocationId) (hg : g.Idle true) :
    (clearing d).ObeysE (retrieveBlocking d maxNum runnerId result ids)
      (fun _ => Clearance.Idle true) (fun _ => Clearance.Idle true) g := by
  induction ids generalizing result g with
  | nil => exact hg
  | cons id rest ih =>
      unfold retrieveBlocking
      split
      · exact hg
      · refine obeysE_liftAttempt_bind.mpr ⟨hg.free, ?_⟩
        rintro (e | record) _
        · exact ih result hg
        · dsimp only
          split
          · exact ih result hg
          · apply Discipline.ObeysE.bind (checkCcForInvocation_clears id hg)
            intro cleared g₁ hg₁
            cases cleared with
            | true =>
                apply Discipline.ObeysE.bind (tryTransitionToPending_clears id runnerId result hg₁)
                intro result g₂ hg₂
                exact ih result hg₂
            | false => exact ih result hg₁

theorem dequeueFirst_clears (queues : List String) (hg : g.Idle true) :
    (clearing d).ObeysE (dequeueFirst queues) (fun _ => Clearance.Idle true)
      (fun _ => Clearance.Idle true) g := by
  induction queues with
  | nil => exact hg
  | cons queue rest ih =>
      refine obeysE_runnerPort_bind.mpr ⟨hg.free, fun found _ => ?_, fun _ _ => hg⟩
      cases found with
      | none => exact ih
      | some id => exact hg

theorem retrieveFromBroker_clears (hd : d.publication = false) (maxNum : Nat)
    (runnerId : RunnerId) (queues : List String) (n : Nat) (result rerouteIds : List InvocationId)
    (hg : g.Idle true) :
    (clearing d).ObeysE (retrieveFromBroker d maxNum runnerId queues n result rerouteIds)
      (fun _ => Clearance.Idle true) (fun _ => Clearance.Idle true) g := by
  have hdenial : DenialTargets Settling := ⟨by decide, by decide, by decide⟩
  induction n generalizing result rerouteIds g with
  | zero => exact hg
  | succ n ih =>
      unfold retrieveFromBroker
      split
      · exact hg
      · apply Discipline.ObeysE.bind (dequeueFirst_clears queues hg)
        intro found g₁ hg₁
        cases found with
        | none => exact hg₁
        | some id =>
            dsimp only
            split
            · exact ih _ _ hg₁
            · refine obeysE_liftAttempt_bind.mpr ⟨hg₁.free, ?_⟩
              rintro (e | record) _
              · exact ih _ _ hg₁
              · dsimp only
                split
                · apply Discipline.ObeysE.bind (checkCcForInvocation_clears id hg₁)
                  intro cleared g₂ hg₂
                  cases cleared with
                  | true =>
                      apply Discipline.ObeysE.bind
                        (tryTransitionToPending_clears id runnerId result hg₂)
                      intro result g₃ hg₃
                      exact ih _ _ hg₃
                  | false =>
                      apply lift_idle_bind (denyRetrieved_writesOnly hd hdenial id runnerId _) hg₂
                      intro rerouteIds g₃ hg₃
                      exact ih _ _ hg₃
                · exact ih _ _ hg₁

theorem retrieveToRun_clears (hd : d.publication = false) (maxNum : Nat) (runnerId : RunnerId)
    (hg : g.Idle true) :
    (clearing d).ObeysE (retrieveToRun d maxNum runnerId) (fun _ => Clearance.Idle true)
      (fun _ => Clearance.Idle true) g := by
  have hrest : ∀ queues result g, Clearance.Idle true g →
      (clearing d).ObeysE (do
        let retrieved ← retrieveFromBroker d maxNum runnerId queues (maxNum * 2 + 8) result []
        lift (rerouteDenied d runnerId retrieved.2)
        pure retrieved.1) (fun _ => Clearance.Idle true) (fun _ => Clearance.Idle true) g := by
    intro queues result g hg
    apply Discipline.ObeysE.bind (retrieveFromBroker_clears hd maxNum runnerId queues _ result [] hg)
    intro retrieved g₁ hg₁
    apply lift_idle_bind (rerouteDenied_writesOnly (by decide) runnerId _) hg₁
    intro _ g₂ hg₂
    exact hg₂
  unfold retrieveToRun
  apply lift_idle_bind (usesE_port (c := .queueNamesForRetrieval d.appConfig) trivial) hg
  intro queues g₁ hg₁
  unfold getInvocationsToRun
  refine obeysE_liftAttempt_bind.mpr ⟨hg₁.free, ?_⟩
  rintro (e | blocking) _
  · exact hrest queues [] _ hg₁
  · apply Discipline.ObeysE.bind (retrieveBlocking_clears maxNum runnerId [] blocking hg₁)
    intro result g₂ hg₂
    exact hrest queues result g₂ hg₂

/-- Every batch operation keeps to the discipline. -/
theorem program_clears (hd : d.publication = false) {task : RunnerTask}
    (htask : task.isBatch = true) :
    (clearing d).Obeys (task.program d) (fun _ g => g.cleared = none) ((clearing d).start task) := by
  by_cases hretrieve : ∃ maxNum runnerId, task = .retrieve maxNum runnerId
  · obtain ⟨maxNum, runnerId, rfl⟩ := hretrieve
    apply Discipline.Obeys.toUnit
    refine Discipline.Obeys.mono (retrieveToRun_clears hd maxNum runnerId ⟨rfl, rfl⟩) ?_
    rintro (e | ids) g hg
    · exact hg.free
    · exact hg.free
  · -- the others ask for statuses that claim nothing
    have hkind : task.isRetrieve = false := by
      cases task with
      | retrieve maxNum runnerId => exact absurd ⟨maxNum, runnerId, rfl⟩ hretrieve
      | _ => rfl
    have hsettling : ∀ status ∈ task.writtenStatuses, Settling status := by
      cases task with
      | retrieve maxNum runnerId => exact absurd ⟨maxNum, runnerId, rfl⟩ hretrieve
      | operation op =>
          cases op with
          | work language worker => cases htask
          | recover runnerId id status => cases htask
          | _ => simp [RunnerTask.writtenStatuses, Settling]
      | _ => simp [RunnerTask.writtenStatuses, Settling]
    have huses : (task.program d).Uses (clearing d).Answers
        ((clearing d).Keeps (Clearance.Idle false)) := by
      refine Prog.Uses.mono (RunnerTask.program_asks hd task)
        (fun c r hr => runnerTruthful_of_answers hr) fun c hc => ?_
      refine keeps_idle ?_ (by simp)
      rcases c with c | c
      · cases c <;> first | trivial | exact hsettling _ hc
      · trivial
    refine (Discipline.Obeys.of_keeps huses ⟨hkind, rfl⟩).mono ?_
    intro _ g hg
    exact hg.free

end Programs

/-! ## The invariant -/

section Invariant

variable {d : Deployment} {b b' : BackendState} {id : InvocationId}
  {ccArgs : Option SerializedArguments} {taskId : TaskId}

/-- A stored invocation of a task without limit. -/
def Free (d : Deployment) (b : BackendState) (id : InvocationId) : Prop :=
  ∃ invocation, b.invocations.lookup id = some invocation ∧ Unrestricted d invocation.taskId

/-- A stored invocation whose key is known, if it needs one. -/
def Placed (d : Deployment) (b : BackendState) (id : InvocationId) : Prop :=
  ∃ invocation, b.invocations.lookup id = some invocation ∧
    (Unrestricted d invocation.taskId ∨ ∃ call, b.calls.lookup invocation.callId = some call)

theorem Free.placed (h : Free d b id) : Placed d b id := by
  obtain ⟨invocation, hlookup, hfree⟩ := h
  exact ⟨invocation, hlookup, .inl hfree⟩

theorem runKey_eq_some (h : runKey d b id = some (taskId, ccArgs)) :
    ∃ invocation config call, b.invocations.lookup id = some invocation ∧
      invocation.taskId = taskId ∧ d.configForTask taskId = some config ∧
      b.calls.lookup invocation.callId = some call ∧
      ccArgs = concurrencyArguments config.concurrencyControl config.keyArguments
        call.serializedArguments := by
  unfold runKey at h
  split at h
  · cases h
  · rename_i invocation hlookup
    split at h
    · rename_i config call hconfig hcall
      cases h
      exact ⟨invocation, config, call, hlookup, rfl, hconfig, hcall, rfl⟩
    · cases h

/-- Growing tables leave the keys of limited tasks alone. -/
theorem Placed.runKey (hb : b.Extends b') (h : Placed d b id) {config : TaskConfig}
    (hconfig : d.configForTask taskId = some config)
    (hlimited : config.concurrencyControl ≠ .unlimited)
    (hkey : runKey d b' id = some (taskId, ccArgs)) : runKey d b id = some (taskId, ccArgs) := by
  obtain ⟨new, config', call', hnew, htask', hconfig', hcall', rfl⟩ := runKey_eq_some hkey
  obtain rfl : config = config' := Option.some.inj (hconfig.symm.trans hconfig')
  obtain ⟨old, hold, hplaced⟩ := h
  obtain ⟨new', hnew', htask, hcallId⟩ := hb.invocations id old hold
  obtain rfl : new = new' := Option.some.inj (hnew.symm.trans hnew')
  have hsame : old.taskId = taskId := htask.symm.trans htask'
  rcases hplaced with hfree | ⟨call, hcall⟩
  · exact absurd (hfree config (by rw [hsame, hconfig])) hlimited
  · have hcalls := hb.calls _ _ hcall
    rw [← hcallId, hcall'] at hcalls
    obtain rfl := Option.some.inj hcalls
    unfold Mem.runKey
    simp only [hold, hcall, hsame, hconfig]

theorem Placed.mono (hb : b.Extends b') (h : Placed d b id) :
    Placed d b' id := by
  obtain ⟨old, hold, hplaced⟩ := h
  obtain ⟨new, hnew, htask, hcallId⟩ := hb.invocations id old hold
  refine ⟨new, hnew, ?_⟩
  rcases hplaced with hfree | ⟨call, hcall⟩
  · left
    rw [htask]
    exact hfree
  · right
    rw [hcallId]
    exact ⟨call, hb.calls _ _ hcall⟩

/-- What was read is still stored, with the same task and call. -/
def Clearance.Justified (g : Clearance) (b : BackendState) : Prop :=
  (∀ read, g.read = some read → ∃ invocation, b.invocations.lookup read.1 = some invocation ∧
    invocation.taskId = read.2.taskId ∧ invocation.callId = read.2.callId) ∧
  ∀ read, g.call = some read → b.calls.lookup read.1 = some read.2

theorem Clearance.Justified.mono (hb : b.Extends b') {g : Clearance} (h : g.Justified b) :
    g.Justified b' := by
  constructor
  · intro read hread
    obtain ⟨old, hold, htask, hcallId⟩ := h.1 read hread
    obtain ⟨new, hnew, htask', hcallId'⟩ := hb.invocations _ old hold
    exact ⟨new, hnew, htask'.trans htask, hcallId'.trans hcallId⟩
  · intro read hread
    exact hb.calls _ _ (h.2 read hread)

/-- Nothing is paused, what is active or counted in has its key, and no key of a limited task
has more of them than its limit. -/
structure Counted (d : Deployment) (s : MemRuntime) (books : List Clearance) : Prop where
  rested : ∀ id, s.orchestrator.statusOf id ≠ some .paused
  justified : ∀ g ∈ books, g.Justified s.backend
  placed : ∀ id, s.orchestrator.isActive id = true → Placed d s.backend id
  cleared : ∀ g ∈ books, ∀ id, g.cleared = some id → Placed d s.backend id
  bounded : ∀ taskId config ccArgs, d.configForTask taskId = some config →
    config.concurrencyControl ≠ .unlimited → ∀ ids : Finset InvocationId,
    (∀ id ∈ ids, runKey d s.backend id = some (taskId, ccArgs) ∧
      (s.orchestrator.isActive id = true ∨ ∃ g ∈ books, g.cleared = some id)) →
    ids.card ≤ config.limit

variable {s s' : MemRuntime} {before after : List Clearance} {g g' : Clearance}

/-- A call that counts nobody in: what becomes active was counted in, or has no limit. -/
theorem Counted.step (h : Counted d s (before ++ g :: after))
    (hb : s.backend.Extends s'.backend)
    (hrested : ∀ id, s'.orchestrator.statusOf id ≠ some .paused)
    (hactive : ∀ id, s'.orchestrator.isActive id = true →
      s.orchestrator.isActive id = true ∨ g.cleared = some id ∨ Free d s.backend id)
    (hjustified : g'.Justified s'.backend)
    (hcleared : ∀ id, g'.cleared = some id → g.cleared = some id) :
    Counted d s' (before ++ g' :: after) := by
  have hg : g ∈ before ++ g :: after := by simp
  have hplaced : ∀ id, s'.orchestrator.isActive id = true → Placed d s.backend id := by
    intro id hid
    rcases hactive id hid with hid | hid | hid
    · exact h.placed id hid
    · exact h.cleared g hg id hid
    · exact hid.placed
  have hclearedPlaced : ∀ x ∈ before ++ g' :: after, ∀ id, x.cleared = some id →
      ∃ y ∈ before ++ g :: after, y.cleared = some id := by
    intro x hx id hid
    rcases mem_replaced hx with hx | rfl
    · exact ⟨x, mem_of_others hx g, hid⟩
    · exact ⟨g, hg, hcleared id hid⟩
  constructor
  · exact hrested
  · exact forall_replace h.justified (fun _ hx => hx.mono hb) hjustified
  · exact fun id hid => (hplaced id hid).mono hb
  · intro x hx id hid
    obtain ⟨y, hy, hold⟩ := hclearedPlaced x hx id hid
    exact (h.cleared y hy id hold).mono hb
  · intro taskId config ccArgs hconfig hlimited ids hids
    refine h.bounded taskId config ccArgs hconfig hlimited ids ?_
    intro id hid
    obtain ⟨hkey, hby⟩ := hids id hid
    have hold : Placed d s.backend id ∧ (s.orchestrator.isActive id = true ∨
        (∃ x ∈ before ++ g :: after, x.cleared = some id) ∨ Free d s.backend id) := by
      rcases hby with hid | ⟨x, hx, hcleared'⟩
      · refine ⟨hplaced id hid, ?_⟩
        rcases hactive id hid with hid | hid | hid
        · exact .inl hid
        · exact .inr (.inl ⟨g, hg, hid⟩)
        · exact .inr (.inr hid)
      · obtain ⟨y, hy, hold⟩ := hclearedPlaced x hx id hcleared'
        exact ⟨h.cleared y hy id hold, .inr (.inl ⟨y, hy, hold⟩)⟩
    have hkey := hold.1.runKey hb hconfig hlimited hkey
    refine ⟨hkey, ?_⟩
    rcases hold.2 with hid | hid | hfree
    · exact .inl hid
    · exact .inr hid
    · -- without limit it does not count
      obtain ⟨invocation, _, _, hlookup, htask, _⟩ := runKey_eq_some hkey
      obtain ⟨invocation', hlookup', hunrestricted⟩ := hfree
      obtain rfl := Option.some.inj (hlookup.symm.trans hlookup')
      exact absurd (hunrestricted config (by rw [htask, hconfig])) hlimited

/-- **The step that could exceed the limit.**  If the index has everything active under the
key and nobody else is counted in, a positive count leaves room for one more. -/
theorem Counted.clear (h : Counted d s (before ++ g :: after)) {config : TaskConfig}
    (hconfig : d.configForTask taskId = some config)
    (hlimited : config.concurrencyControl ≠ .unlimited)
    (hkey : runKey d s.backend id = some (taskId, ccArgs))
    (hindexed : ∀ x ∈ active d s (taskId, ccArgs), ∀ pair ∈ (ccArgs.getD .empty).ccArgPairs,
      x ∈ s.orchestrator.indexed (taskId, pair.1, pair.2))
    (halone : ∀ x ∈ before ++ g :: after, ∀ other, x.cleared = some other →
      runKey d s.backend other ≠ some (taskId, ccArgs))
    (hgranted : s.orchestrator.checkRunningConcurrency taskId config ccArgs = true) :
    Counted d s (before ++ { g with cleared := some id } :: after) := by
  obtain ⟨invocation, config', call, hlookup, htask, hconfig', hcall, hargs⟩ := runKey_eq_some hkey
  obtain rfl : config = config' := Option.some.inj (hconfig.symm.trans hconfig')
  have hfree : (active d s (taskId, ccArgs)).card < config.limit := by
    obtain ⟨args, rfl⟩ : ∃ args, ccArgs = some args := by
      rw [hargs]
      unfold concurrencyArguments
      split
      · exact absurd ‹_› hlimited
      · exact ⟨_, rfl⟩
      · split <;> exact ⟨_, rfl⟩
      · exact ⟨_, rfl⟩
    obtain ⟨members, hmembers, hmem⟩ := s.orchestrator.mem_slotMembers taskId args.ccArgPairs_ne_nil
    unfold OrchestratorState.checkRunningConcurrency at hgranted
    rw [if_neg hlimited] at hgranted
    simp only [hmembers, Option.getD_some, decide_eq_true_eq] at hgranted
    refine Nat.lt_of_le_of_lt (Finset.card_le_card ?_) hgranted
    intro x hx
    have hactive := (Finset.mem_filter.mp hx).2.2
    exact Finset.mem_filter.mpr ⟨(hmem x).mpr (hindexed x hx), hactive⟩
  have hg : g ∈ before ++ g :: after := by simp
  have hold : ∀ x ∈ before ++ { g with cleared := some id } :: after, ∀ other,
      x.cleared = some other → other = id ∨ ∃ y ∈ before ++ g :: after, y.cleared = some other := by
    intro x hx other hother
    rcases mem_replaced hx with hx | rfl
    · exact .inr ⟨x, mem_of_others hx g, hother⟩
    · exact .inl (Option.some.inj hother).symm
  constructor
  · exact h.rested
  · exact forall_replace h.justified (fun _ hx => hx) (h.justified g hg)
  · exact h.placed
  · intro x hx other hother
    rcases hold x hx other hother with rfl | ⟨y, hy, hother⟩
    · exact ⟨invocation, hlookup, .inr ⟨call, hcall⟩⟩
    · exact h.cleared y hy other hother
  · intro taskId' config' ccArgs' hconfig' hlimited' ids hids
    by_cases hmem : id ∈ ids
    · -- the key that was counted: at most what is active, and the candidate
      have hsame := (hids id hmem).1
      rw [hkey] at hsame
      cases hsame
      obtain rfl := Option.some.inj (hconfig.symm.trans hconfig')
      have hsubset : ids.erase id ⊆ active d s (taskId, ccArgs) := by
        intro x hx
        obtain ⟨hne, hx⟩ := Finset.mem_erase.mp hx
        obtain ⟨hkeyx, hby⟩ := hids x hx
        rcases hby with hactive | ⟨y, hy, hcleared⟩
        · obtain ⟨stored, _, _, hstored, _⟩ := runKey_eq_some hkeyx
          refine Finset.mem_filter.mpr ⟨?_, hkeyx, hactive⟩
          rw [List.mem_toFinset, ← AList.mem_keys]
          exact AList.lookup_isSome.mp (by rw [hstored]; rfl)
        · rcases hold y hy x hcleared with rfl | ⟨z, hz, hcleared⟩
          · exact absurd rfl hne
          · exact absurd hkeyx (halone z hz x hcleared)
      have hcard := Finset.card_le_card hsubset
      have herase := Finset.card_erase_add_one hmem
      omega
    · refine h.bounded taskId' config' ccArgs' hconfig' hlimited' ids ?_
      intro x hx
      obtain ⟨hkeyx, hby⟩ := hids x hx
      refine ⟨hkeyx, ?_⟩
      rcases hby with hactive | ⟨y, hy, hcleared⟩
      · exact .inl hactive
      · rcases hold y hy x hcleared with rfl | hy
        · exact absurd hx hmem
        · exact .inr hy

end Invariant

/-! ## Runs -/

/-- Only batch operations are started. -/
def batchOnly : Guard runnerPorts MemRuntime RunnerTask where
  start _ task := task.isBatch = true
  call _ _ _ := True

/-- The invocation that a call moves to `pending`. -/
def claims? : runnerPorts.Op → Option InvocationId
  | .inl (.setInvocationStatus id .pending _) => some id
  | _ => none

/-- The key that a call counts. -/
def counts? : runnerPorts.Op → Option (TaskId × Option SerializedArguments)
  | .inr (.checkRunningConcurrency taskId _ ccArgs) => some (taskId, ccArgs)
  | _ => none

/-- When a key is counted, everything active under it is in the index, and no other retrieval
is about to claim under it; what a retrieval reads is stored; and what is stored keeps its task
and its call. -/
def countedAlone (d : Deployment) : Guard runnerPorts MemRuntime RunnerTask where
  start _ _ := True
  call s i c :=
    (∀ key ∈ counts? c,
      (∀ x ∈ active d s.shared key, ∀ pair ∈ (key.2.getD .empty).ccArgPairs,
        x ∈ s.shared.orchestrator.indexed (key.1, pair.1, pair.2)) ∧
      ∀ t ∈ s.threads, ∀ c ∈ t.next?, ∀ x ∈ claims? c, runKey d s.shared.backend x ≠ some key) ∧
    (∀ read ∈ reads? c, ∀ t ∈ s.threads[i]?, t.task.isRetrieve = true →
      s.shared.backend.has read = true) ∧
    ∀ stored ∈ stores? c,
      (∀ old ∈ s.shared.backend.invocations.lookup stored.1.invocationId,
        stored.1.taskId = old.taskId ∧ stored.1.callId = old.callId) ∧
      ∀ old ∈ s.shared.backend.calls.lookup stored.2.callId, stored.2 = old

section Runs

variable {d : Deployment} {id : InvocationId} {t : Thread runnerPorts RunnerTask} (env : Env)

theorem clearing_book_retrieves (t : Thread runnerPorts RunnerTask) :
    ((clearing d).book t).retrieves = t.task.isRetrieve := by
  refine (clearing d).book_field Clearance.retrieves (fun c r g => ?_) t
  show (Clearance.next c r g).retrieves = _
  unfold Clearance.next
  split <;> first | rfl | (split <;> rfl)

/-- An operation that was just counted in is about to claim. -/
theorem claims_of_cleared {F : Clearance → Prop} {s : System runnerPorts MemRuntime RunnerTask}
    (hF : ∀ g, F g → g.cleared = none) (hobey : (clearing d).AllObey F s) (ht : t ∈ s.threads)
    (hcleared : ((clearing d).book t).cleared = some id) :
    ∃ c, t.next? = some c ∧ claims? c = some id := by
  have hob := hobey t ht
  cases hprog : t.prog with
  | done u =>
      rw [hprog] at hob
      rw [hF _ hob] at hcleared
      cases hcleared
  | call c k =>
      rw [hprog] at hob
      refine ⟨c, by simp [Thread.next?, hprog], ?_⟩
      have hpre := hob.1
      have hbusy : ((clearing d).book t).cleared ≠ none := by simp [hcleared]
      rcases c with c | c
      · cases c <;> first
          | exact absurd hpre hbusy
          | skip
        case setInvocationStatus other status runnerId =>
          obtain ⟨-, hclaim⟩ := hpre
          split at hclaim
          · rename_i hpending
            subst hpending
            rcases hclaim with hsame | ⟨hnone, -⟩
            · exact hsame.symm.trans hcleared
            · exact absurd hnone hbusy
          · exact absurd hclaim hbusy
      · cases c <;> first
          | exact absurd hpre hbusy
          | exact absurd hpre.1 hbusy

variable {s s' : MemRuntime} {before after : List Clearance} {g : Clearance}

theorem extends_of_eq {b b' : BackendState} (hinvocations : b'.invocations = b.invocations)
    (hcalls : b'.calls = b.calls) : b.Extends b' := by
  constructor
  · intro id invocation hlookup
    exact ⟨invocation, by rw [hinvocations, hlookup], rfl, rfl⟩
  · intro callId call hlookup
    rw [hcalls, hlookup]

/-- A call that leaves tables, statuses and the book alone. -/
theorem Counted.frame (h : Counted d s (before ++ g :: after))
    (hinvocations : s'.backend.invocations = s.backend.invocations)
    (hcalls : s'.backend.calls = s.backend.calls)
    (hrecords : s'.orchestrator.statusRecords = s.orchestrator.statusRecords) :
    Counted d s' (before ++ g :: after) := by
  have hstatus : ∀ id, s'.orchestrator.statusOf id = s.orchestrator.statusOf id := by
    intro id
    unfold OrchestratorState.statusOf
    rw [hrecords]
  refine h.step (extends_of_eq hinvocations hcalls) ?_ ?_ ?_ fun _ hid => hid
  · intro id
    rw [hstatus]
    exact h.rested id
  · intro id hid
    left
    unfold OrchestratorState.isActive at hid ⊢
    rwa [hstatus] at hid
  · exact (h.justified g (by simp)).mono (extends_of_eq hinvocations hcalls)

/-- A record is registered or its status written: nothing is paused, and only a claim makes
something active. -/
theorem Counted.write (h : Counted d s (before ++ g :: after)) {record : InvocationStatusRecord}
    (hinvocations : s'.backend.invocations = s.backend.invocations)
    (hcalls : s'.backend.calls = s.backend.calls)
    (hrecords : s'.orchestrator.statusRecords = s.orchestrator.statusRecords.insert id record)
    (hrested : record.status ≠ .paused)
    (hactive : record.status = .pending ∨ record.status = .running →
      s.orchestrator.isActive id = true ∨ g.cleared = some id ∨ Free d s.backend id)
    {cleared : Option InvocationId} (hcleared : ∀ x, cleared = some x → g.cleared = some x) :
    Counted d s' (before ++ { g with cleared := cleared } :: after) := by
  have hstatus := s.orchestrator.statusOf_of_insert id record hrecords
  refine h.step (extends_of_eq hinvocations hcalls) ?_ ?_ ?_ hcleared
  · intro x
    rw [hstatus]
    split
    · simpa using hrested
    · exact h.rested x
  · intro x hx
    unfold OrchestratorState.isActive at hx
    rw [hstatus] at hx
    split at hx
    · rename_i hid
      subst hid
      exact hactive (by simpa using hx)
    · exact .inl hx
  · exact (h.justified g (by simp)).mono (extends_of_eq hinvocations hcalls)

/-- A permitted claim is of a candidate that was counted in, or has no limit. -/
theorem Counted.mayClaim (h : Counted d s (before ++ g :: after))
    (hclaim : g.MayClaim d id) : g.cleared = some id ∨ Free d s.backend id := by
  rcases hclaim with hcleared | ⟨-, read, hread, hfree⟩
  · exact .inl hcleared
  · right
    obtain ⟨invocation, hlookup, htask, -⟩ := (h.justified g (by simp)).1 _ hread
    exact ⟨invocation, hlookup, by rw [htask]; exact hfree⟩

theorem Counted.setStatus (h : Counted d s (before ++ g :: after)) {status : InvocationStatus}
    {runnerId : Option RunnerId}
    (hpre : (clearing d).pre (.inl (.setInvocationStatus id status runnerId)) g) :
    Counted d (MemRuntime.exec env (.setInvocationStatus id status runnerId) s).2
      (before ++ { g with cleared := none } :: after) := by
  have hkept : Counted d s (before ++ { g with cleared := none } :: after) := by
    refine h.step (extends_of_eq rfl rfl) h.rested (fun _ hid => .inl hid) ?_ ?_
    · exact h.justified g (by simp)
    · intro x hx
      cases hx
  obtain ⟨current, record, ccIndex, ccReverse, hcurrent, htrans, heq⟩ | ⟨_, _, -, -, heq⟩ |
    ⟨-, heq⟩ := s.orchestrator.setInvocationStatus_cases env.clock id status runnerId
  · simp only [MemRuntime.exec, heq]
    obtain ⟨hcan, -, rfl⟩ := (statusRecordTransition_ok_iff _ _ _ _ _).mp htrans
    apply Counted.write h
    · rfl
    · rfl
    · rfl
    · exact hpre.1
    · rintro (rfl | rfl)
      · right
        exact h.mayClaim hpre.2
      · -- `running` comes from `pending`, since nothing is paused
        left
        have howned := InvocationStatus.owned_of_canTransitionTo_owned hcan (.inl rfl)
        have hrested := h.rested id
        rw [OrchestratorState.statusOf, hcurrent] at hrested
        simp only [OrchestratorState.isActive, OrchestratorState.statusOf, hcurrent]
        rcases howned with hstatus | hstatus | hstatus
        · simp [hstatus]
        · simp [hstatus]
        · simp [hstatus] at hrested
    · simp
  · simp only [MemRuntime.exec, heq]
    exact hkept
  · simp only [MemRuntime.exec, heq]
    exact hkept

/-- Storing an invocation again leaves its task and its call. -/
theorem Counted.upsert (h : Counted d s (before ++ g :: after)) {invocation : InvocationDTO}
    {call : CallDTO}
    (hinvocation : ∀ old ∈ s.backend.invocations.lookup invocation.invocationId,
      invocation.taskId = old.taskId ∧ invocation.callId = old.callId)
    (hcall : ∀ old ∈ s.backend.calls.lookup call.callId, call = old) :
    Counted d { s with backend := s.backend.upsertInvocation invocation call }
      (before ++ g :: after) := by
  have hb : s.backend.Extends (s.backend.upsertInvocation invocation call) := by
    constructor
    · intro id old hlookup
      by_cases hid : id = invocation.invocationId
      · subst hid
        exact ⟨invocation, AList.lookup_insert _, hinvocation old hlookup⟩
      · exact ⟨old, by rw [BackendState.upsertInvocation, AList.lookup_insert_ne hid, hlookup],
          rfl, rfl⟩
    · intro callId old hlookup
      by_cases hid : callId = call.callId
      · subst hid
        rw [BackendState.upsertInvocation, AList.lookup_insert, hcall old hlookup]
      · rw [BackendState.upsertInvocation, AList.lookup_insert_ne hid, hlookup]
  refine h.step hb h.rested (fun _ hid => .inl hid) ?_ fun _ hid => hid
  exact (h.justified g (by simp)).mono hb

/-- A call among those of the orchestrator. -/
theorem Counted.port (h : Counted d s (before ++ g :: after)) (c : PortCall)
    (hpre : (clearing d).pre (.inl c) g)
    (hupsert : ∀ invocation call, c = .upsertInvocation invocation call →
      (∀ old ∈ s.backend.invocations.lookup invocation.invocationId,
        invocation.taskId = old.taskId ∧ invocation.callId = old.callId) ∧
      ∀ old ∈ s.backend.calls.lookup call.callId, call = old) :
    Counted d (MemRuntime.exec env c s).2
      (before ++ Clearance.next (.inl c) (MemRuntime.exec env c s).1 g :: after) := by
  have hg := h.justified g (by simp)
  cases c <;> first
    | exact h.frame rfl rfl rfl
    | skip
  case registerInvocationWithId id call runnerId =>
    show Counted d _ (before ++ { g with cleared := g.cleared } :: after)
    apply Counted.write h
    · rfl
    · rfl
    · rfl
    · simp
    · simp
    · exact fun _ hx => hx
  case setInvocationStatus id status runnerId => exact h.setStatus env hpre
  case tryAcquireConcurrencySlot id taskId config ccArgs =>
    exact h.frame rfl rfl (OrchestratorState.tryAcquireConcurrencySlot_statusRecords _ _ _ _ _)
  case removeFromConcurrencyIndex id =>
    exact h.frame rfl rfl (OrchestratorState.removeFromConcurrencyIndex_statusRecords _ _)
  case upsertInvocation invocation call =>
    obtain ⟨hinvocation, hcall⟩ := hupsert invocation call rfl
    exact h.upsert hinvocation hcall
  case getInvocation id =>
    simp only [MemRuntime.exec, BackendState.getInvocation]
    cases hlookup : s.backend.invocations.lookup id with
    | none => exact h
    | some invocation =>
        refine h.step (extends_of_eq rfl rfl) h.rested (fun _ hid => .inl hid) ⟨?_, hg.2⟩
          fun _ hid => hid
        intro read hread
        obtain rfl := Option.some.inj hread
        exact ⟨invocation, hlookup, rfl, rfl⟩
  case getCall callId =>
    simp only [MemRuntime.exec, BackendState.getCall]
    cases hlookup : s.backend.calls.lookup callId with
    | none => exact h
    | some call =>
        refine h.step (extends_of_eq rfl rfl) h.rested (fun _ hid => .inl hid) ⟨hg.1, ?_⟩
          fun _ hid => hid
        intro read hread
        obtain rfl := Option.some.inj hread
        exact hlookup

/-- What a retrieval reads, it finds. -/
theorem clearing_resp {s : System runnerPorts MemRuntime RunnerTask} {i : Nat}
    (ht : s.threads[i]? = some t) (c : runnerPorts.Op) (hallowed : (countedAlone d).call s i c) :
    (clearing d).resp c ((clearing d).book t) (MemRuntime.execRunner env c s.shared).1 := by
  refine ⟨MemRuntime.execRunner_truthful env c s.shared, ?_⟩
  rcases c with c | c
  · cases c <;> first | trivial | skip
    case getInvocation id =>
      intro hretrieves
      rw [clearing_book_retrieves] at hretrieves
      obtain ⟨invocation, hlookup⟩ := Option.isSome_iff_exists.mp
        (hallowed.2.1 _ rfl t ht hretrieves)
      refine ⟨invocation, ?_⟩
      simp [MemRuntime.execRunner, MemRuntime.exec, BackendState.getInvocation, hlookup]
    case getCall callId =>
      intro hretrieves
      rw [clearing_book_retrieves] at hretrieves
      obtain ⟨call, hlookup⟩ := Option.isSome_iff_exists.mp
        (hallowed.2.1 _ rfl t ht hretrieves)
      refine ⟨call, ?_⟩
      simp [MemRuntime.execRunner, MemRuntime.exec, BackendState.getCall, hlookup]
  · trivial

/-- **One call keeps the count.** -/
theorem Counted.call {init s : System runnerPorts MemRuntime RunnerTask} {i : Nat}
    {c : runnerPorts.Op}
    (hturn : (clearing d).Turn (runnerMachine d) (batchOnly.and (countedAlone d)) init
      (fun g => g.cleared = none) s i t c before after)
    (h : Counted d s.shared (before ++ (clearing d).book t :: after)) :
    (clearing d).resp c ((clearing d).book t) (MemRuntime.execRunner env c s.shared).1 ∧
      Counted d (MemRuntime.execRunner env c s.shared).2
        (before ++ (clearing d).next c (MemRuntime.execRunner env c s.shared).1
          ((clearing d).book t) :: after) := by
  have hallowed := hturn.allowed.2
  have hpre := hturn.permitted
  refine ⟨clearing_resp env hturn.thread c hallowed, ?_⟩
  rcases c with c | c
  · refine h.port env c hpre ?_
    rintro invocation call rfl
    exact hallowed.2.2 _ rfl
  · cases c <;> first
      | exact h.frame rfl rfl rfl
      | skip
    case indexForConcurrencyControl id taskId ccArgs =>
      obtain ⟨ccIndex, ccReverse, heq⟩ :=
        s.shared.orchestrator.indexForConcurrencyControl_eq id taskId ccArgs
      simp only [MemRuntime.execRunner, heq]
      exact h.frame rfl rfl rfl
    case checkRunningConcurrency taskId config ccArgs =>
      show Counted d s.shared (before ++ Clearance.next
        (.inr (.checkRunningConcurrency taskId config ccArgs))
        (.ok (s.shared.orchestrator.checkRunningConcurrency taskId config ccArgs))
        ((clearing d).book t) :: after)
      cases hgranted : s.shared.orchestrator.checkRunningConcurrency taskId config ccArgs with
      | false => exact h
      | true =>
          show Counted d s.shared (before ++ (if ((clearing d).book t).retrieves = true then
            { (clearing d).book t with cleared := ((clearing d).book t).read.map Prod.fst }
            else (clearing d).book t) :: after)
          split
          · rename_i hretrieves
            obtain ⟨id, invocation, call, hread, hcall, rfl, hconfig, hlimited, rfl⟩ :=
              hpre.2 hretrieves
            obtain ⟨hreads, hcalls⟩ := h.justified ((clearing d).book t) (by simp)
            obtain ⟨stored, hstored, htask, hcallId⟩ := hreads _ hread
            have hcall := hcalls _ hcall
            dsimp only at hstored htask hcallId hcall
            have hkey : runKey d s.shared.backend id = some (invocation.taskId,
                concurrencyArguments config.concurrencyControl config.keyArguments
                  call.serializedArguments) := by
              unfold runKey
              rw [hstored]
              dsimp only
              rw [htask, hcallId, hconfig, hcall]
            rw [hread]
            refine h.clear hconfig hlimited hkey (hallowed.1 _ rfl).1 ?_ hgranted
            -- whoever else is counted in is about to claim, and not under this key
            intro x hx other hother
            rw [← hturn.books] at hx
            obtain ⟨t', ht', rfl⟩ := List.mem_map.mp hx
            obtain ⟨c, hnext, hclaims⟩ := claims_of_cleared (fun _ h => h) hturn.obey ht' hother
            exact (hallowed.1 _ rfl).2 t' ht' c hnext other hclaims
          · exact h

theorem counted_upheld (hd : d.publication = false) :
    (clearing d).Upheld (fun g => g.cleared = none) (Counted d) (runnerMachine d)
      (batchOnly.and (countedAlone d)) ⟨{}, []⟩ where
  program _ task hstart := program_clears hd hstart.1
  obey t ht := by cases ht
  logs t ht := by cases ht
  holds := by
    have hnone : ∀ id, ({} : MemRuntime).orchestrator.statusOf id = none := fun _ => rfl
    constructor
    · simp [hnone]
    · simp [System.books]
    · simp [OrchestratorState.isActive, hnone]
    · simp [System.books]
    · intro taskId config ccArgs _ _ ids hids
      have hempty : ids = ∅ := by
        refine Finset.eq_empty_of_forall_notMem fun id hid => ?_
        obtain ⟨hkey, -⟩ := hids id hid
        cases hkey
      simp [hempty]
  start s task _ h := by
    have hnew : ∀ g ∈ s.books (clearing d).toMonitor ++ [(clearing d).start task],
        g ∈ s.books (clearing d).toMonitor ∨ g = (clearing d).start task := by
      intro g hg
      simpa using hg
    constructor
    · exact h.rested
    · intro g hg
      rcases hnew g hg with hg | rfl
      · exact h.justified g hg
      · exact ⟨by simp [clearing], by simp [clearing]⟩
    · exact h.placed
    · intro g hg id hid
      rcases hnew g hg with hg | rfl
      · exact h.cleared g hg id hid
      · cases hid
    · intro taskId config ccArgs hconfig hlimited ids hids
      refine h.bounded taskId config ccArgs hconfig hlimited ids ?_
      intro id hid
      obtain ⟨hkey, hby⟩ := hids id hid
      refine ⟨hkey, ?_⟩
      rcases hby with hactive | ⟨g, hg, hcleared⟩
      · exact .inl hactive
      · rcases hnew g hg with hg | rfl
        · exact .inr ⟨g, hg, hcleared⟩
        · cases hcleared
  call _ _ env _ _ _ _ hturn h := h.call env hturn

/-- **The running limit.**  In every interleaving of submissions, routed calls, registrations,
trigger publications, retrievals, executions, cancellations, waits and recovery passes in which
each count sees all of its key and is alone with it, no more invocations of a limited task are
pending or running under one key than its limit. -/
theorem active_le_limit (hd : d.publication = false) {s : System runnerPorts MemRuntime RunnerTask}
    (hreach : Reachable (runnerMachine d) (batchOnly.and (countedAlone d)) ⟨{}, []⟩ s)
    {taskId : TaskId} {config : TaskConfig} (hconfig : d.configForTask taskId = some config)
    (hlimited : config.concurrencyControl ≠ .unlimited) (ccArgs : Option SerializedArguments) :
    (active d s.shared (taskId, ccArgs)).card ≤ config.limit := by
  obtain ⟨-, hinv⟩ := (counted_upheld hd).obeyed hreach
  refine hinv.bounded taskId config ccArgs hconfig hlimited _ ?_
  intro id hid
  obtain ⟨-, hkey, hactive⟩ := Finset.mem_filter.mp hid
  exact ⟨hkey, .inl hactive⟩

end Runs

/-! ### Two invocations of the serial task -/

instance (s : System runnerPorts MemRuntime RunnerTask) (task : RunnerTask) :
    Decidable (batchOnly.start s task) :=
  inferInstanceAs (Decidable (task.isBatch = true))

instance (s : System runnerPorts MemRuntime RunnerTask) (i : Nat) (c : runnerPorts.Op) :
    Decidable (batchOnly.call s i c) :=
  inferInstanceAs (Decidable True)

instance (d : Deployment) (s : System runnerPorts MemRuntime RunnerTask) (task : RunnerTask) :
    Decidable ((countedAlone d).start s task) :=
  inferInstanceAs (Decidable True)

instance (d : Deployment) (s : System runnerPorts MemRuntime RunnerTask) (i : Nat)
    (c : runnerPorts.Op) : Decidable ((countedAlone d).call s i c) :=
  inferInstanceAs (Decidable ((∀ key ∈ counts? c, _) ∧ (∀ read ∈ reads? c, _) ∧
    ∀ stored ∈ stores? c, _))

/-- A call of the serial task that enters the concurrency index. -/
def routeSerial (id : String) : RunnerTask :=
  .routeCall
    { newInvocationId := ⟨id⟩
      call := .new serialDeployment.sha256Hex serialTask .empty
      ccArgs := some .empty
      registrationCc := .unlimited
      indexCc := true
      runnerId := ⟨"client"⟩
      queueName := "default"
      priority := .finite 0 }

/-- Two invocations are created, and one retrieval asks for two. -/
def retrieveTwo (create : String → RunnerTask) (retrieved : Nat) : List (Label Env RunnerTask) :=
  .start (create "a") :: Label.steps 0 6 idleEnv ++
    .start (create "b") :: Label.steps 1 6 idleEnv ++
    .start (.retrieve 2 ⟨"w"⟩) :: Label.steps 2 retrieved idleEnv

/-- Indexed calls: one is claimed, the other is denied. -/
theorem active_le_limit_routed :
    ∃ s, Reachable (runnerMachine serialDeployment)
        (batchOnly.and (countedAlone serialDeployment)) ⟨{}, []⟩ s ∧
      (s.shared.orchestrator.statusOf ⟨"a"⟩ = some .pending ∧
        s.shared.orchestrator.statusOf ⟨"b"⟩ = some .rerouted) ∧
      (active serialDeployment s.shared (serialTask, some .empty)).card ≤ serialConfig.limit := by
  obtain ⟨s, hreach, hstatus⟩ := Reachable.exists_of_run (runnerMachine serialDeployment)
    (batchOnly.and (countedAlone serialDeployment)) ⟨{}, []⟩ (retrieveTwo routeSerial 21)
    (fun s => s.shared.orchestrator.statusOf ⟨"a"⟩ = some .pending ∧
      s.shared.orchestrator.statusOf ⟨"b"⟩ = some .rerouted)
    (by decide +kernel) (by decide +kernel)
  exact ⟨s, hreach, hstatus, active_le_limit rfl hreach rfl (by decide) _⟩

/-- Submitted invocations are not in the index: both are claimed, although the limit is one. -/
theorem submitted_exceed_limit :
    ∃ s, Reachable (runnerMachine serialDeployment) batchOnly ⟨{}, []⟩ s ∧
      serialDeployment.configForTask serialTask = some serialConfig ∧
      serialConfig.limit <
        (active serialDeployment s.shared (serialTask, some .empty)).card := by
  obtain ⟨s, hreach, hcard⟩ := Reachable.exists_of_run (runnerMachine serialDeployment) batchOnly
    ⟨{}, []⟩ (retrieveTwo (fun id => .operation (submitSerial id)) 18)
    (fun s => serialConfig.limit <
      (active serialDeployment s.shared (serialTask, some .empty)).card)
    (by decide +kernel) (by decide +kernel)
  exact ⟨s, hreach, rfl, hcard⟩

end Rustvello.Mem
