import Rustvello.Mem.WaitForWork
import Rustvello.Orchestration.Operations
import Mathlib.Logic.Relation

/-!
# Heartbeats of the Rayon runner

`RayonRunner::run` (`rayon_runner.rs`) is one loop.  At its head it sends the heartbeats of the
runner and of every active worker, if the interval has elapsed; then it waits for a worker
permit, claims an invocation, and spawns an attempt, or waits for work.

* `RayonRunner` — what the loop is given: how many attempts at a time, the interval between
  heartbeats, `claim_next` and the broker's `wait_for_work`;
* `RunLoop`, `Own`, `Foreign` — the loop, what it does by itself, and what happens to it;
* `Overdue`, `CanBeat` — heartbeats are overdue, and the loop can come to send them by itself;
* `Unblocked` — where the loop stands, and what it finds there;
* `Own.unblocked_of`, `Unblocked.canBeat` — a blocked loop does not unblock itself, an unblocked
  one comes to its head;
* `heartbeat_reachable_iff` — overdue heartbeats can be sent exactly by an unblocked loop;
* `heartbeat_withheld` — a loop that waits for its own workers, and one that waits for the
  broker.
-/

namespace Rustvello.Runner

open Concurrency Proto Rustvello.Core Orchestration Mem

/-! ## The loop -/

/-- A runner over shared backends in a state of type `W`. -/
structure RayonRunner (W : Type) where
  runnerId : RunnerId
  numThreads : Nat
  /-- In nanoseconds. -/
  heartbeatInterval : Nat
  claimNext : Env → W → RustvelloResult (Option InvocationId) × W
  /-- The broker has the default `wait_for_work`, which sleeps for 100 ms.  The fields below
  are those of a `MemBroker`. -/
  polls : Bool
  queue : W → List QueuedInvocation
  permit : W → Bool
  takePermit : W → W

/-- Where the loop stands. -/
inductive Position where
  | head
  /-- Waiting for a permit of the semaphore. -/
  | acquire
  | claim
  /-- An invocation is claimed, a worker slot is to be taken. -/
  | claimed (id : InvocationId)
  /-- In `MemBroker::wait_for_work`. -/
  | waiting (wait : Wait)
  /-- In the default `wait_for_work`. -/
  | sleeping (wakeAt : Timestamp)
  | ended
deriving DecidableEq

/-- Positions at which a shutdown request is noticed. -/
def Position.Stops : Position → Prop
  | .head | .acquire | .waiting _ | .sleeping _ => True
  | _ => False

/-- How far the future of an attempt is. -/
inductive AttemptPhase where
  | executing
  /-- No longer among the active tasks. -/
  | inactive
  /-- Its worker slot is given back, the permit is not yet dropped. -/
  | released
deriving DecidableEq

structure RunLoop (W : Type) where
  now : Timestamp
  lastHeartbeat : Timestamp
  shutdown : Bool
  position : Position
  /-- Free permits of the semaphore. -/
  permits : Nat
  workerSlots : List RunnerId
  activeTasks : List RunnerId
  /-- The spawned futures that have not ended. -/
  attempts : List (RunnerId × AttemptPhase)
  world : W
  /-- The heartbeats that were sent, with the instant of each. -/
  sent : List (RunnerId × Timestamp)

namespace RunLoop

variable {W : Type} {s : RunLoop W}

/-- The heartbeats of the runner and of every active worker. -/
def beat (r : RayonRunner W) (s : RunLoop W) : RunLoop W :=
  { s with
    lastHeartbeat := s.now
    position := .acquire
    sent := s.sent ++ (r.runnerId :: s.activeTasks).map fun worker => (worker, s.now) }

/-- The interval has elapsed since the last heartbeats. -/
def Elapsed (r : RayonRunner W) (s : RunLoop W) : Prop :=
  s.lastHeartbeat + r.heartbeatInterval ≤ s.now

/-- Nanoseconds that the default `wait_for_work` sleeps. -/
def pollInterval : Nat :=
  100000000

/-- Where the loop goes when nothing was claimed. -/
def waitForWork (r : RayonRunner W) (now : Timestamp) : Position :=
  if r.polls then .sleeping (now + pollInterval) else .waiting (.created false)

/-- What the loop does by itself, and the passage of time. -/
inductive Own (r : RayonRunner W) : RunLoop W → RunLoop W → Prop
  | tick {s : RunLoop W} {later : Timestamp} (hle : s.now ≤ later) :
      Own r s { s with now := later }
  | stop {s : RunLoop W} (hposition : s.position.Stops) (hshutdown : s.shutdown = true) :
      Own r s { s with position := .ended }
  | beat {s : RunLoop W} (hposition : s.position = .head) (hshutdown : s.shutdown = false)
      (helapsed : s.Elapsed r) : Own r s (s.beat r)
  | pass {s : RunLoop W} (hposition : s.position = .head) (hshutdown : s.shutdown = false)
      (helapsed : ¬s.Elapsed r) : Own r s { s with position := .acquire }
  | acquire {s : RunLoop W} {permits : Nat} (hposition : s.position = .acquire)
      (hpermits : s.permits = permits + 1) :
      Own r s { s with permits := permits, position := .claim }
  | found {s : RunLoop W} {env : Env} {id : InvocationId} {world : W}
      (hposition : s.position = .claim) (hclock : env.clock = s.now)
      (hclaim : r.claimNext env s.world = (.ok (some id), world)) :
      Own r s { s with world := world, position := .claimed id }
  | nothing {s : RunLoop W} {env : Env} {world : W} (hposition : s.position = .claim)
      (hclock : env.clock = s.now) (hclaim : r.claimNext env s.world = (.ok none, world)) :
      Own r s { s with
        world := world, permits := s.permits + 1, position := waitForWork r s.now }
  | failed {s : RunLoop W} {env : Env} {e : RustvelloError} {world : W}
      (hposition : s.position = .claim) (hclock : env.clock = s.now)
      (hclaim : r.claimNext env s.world = (.error e, world)) :
      Own r s { s with world := world, permits := s.permits + 1, position := .ended }
  | spawn {s : RunLoop W} {id : InvocationId} {worker : RunnerId} {rest : List RunnerId}
      (hposition : s.position = .claimed id) (hslots : s.workerSlots = rest ++ [worker]) :
      Own r s { s with
        position := .head
        workerSlots := rest
        activeTasks := s.activeTasks.insert worker
        attempts := s.attempts ++ [(worker, .executing)]
        sent := s.sent ++ [(worker, s.now)] }
  | noSlot {s : RunLoop W} {id : InvocationId} (hposition : s.position = .claimed id)
      (hslots : s.workerSlots = []) :
      Own r s { s with permits := s.permits + 1, position := .head }
  | wait {s : RunLoop W} {wait : Wait} {next : Option Wait}
      (hposition : s.position = .waiting wait)
      (hstep : wait.Step (r.queue s.world) s.now (r.permit s.world) next) :
      Own r s { s with position := next.elim .head .waiting }
  | takePermit {s : RunLoop W} {called : Bool} {due : Option Timestamp}
      (hposition : s.position = .waiting (.looked called due))
      (hpermit : r.permit s.world = true) :
      Own r s { s with world := r.takePermit s.world, position := .head }
  | wakeUp {s : RunLoop W} {wakeAt : Timestamp} (hposition : s.position = .sleeping wakeAt)
      (hpast : wakeAt ≤ s.now) : Own r s { s with position := .head }

/-- What happens to the loop: others use the backends and notify, attempts come to their end,
and somebody asks for a shutdown. -/
inductive Foreign : RunLoop W → RunLoop W → Prop
  | others {s : RunLoop W} (world : W) : Foreign s { s with world := world }
  | notifyOne {s : RunLoop W} {due : Option Timestamp}
      (hposition : s.position = .waiting (.blocked due)) :
      Foreign s { s with position := .waiting .woken }
  | notifyWaiters {s : RunLoop W} {wait : Wait} (hposition : s.position = .waiting wait) :
      Foreign s { s with position := .waiting wait.notifyWaiters }
  | deactivate {s : RunLoop W} {worker : RunnerId} {before after : List (RunnerId × AttemptPhase)}
      (hattempts : s.attempts = before ++ (worker, .executing) :: after) :
      Foreign s { s with
        activeTasks := s.activeTasks.erase worker
        attempts := before ++ (worker, .inactive) :: after }
  | release {s : RunLoop W} {worker : RunnerId} {before after : List (RunnerId × AttemptPhase)}
      (hattempts : s.attempts = before ++ (worker, .inactive) :: after) :
      Foreign s { s with
        workerSlots := s.workerSlots ++ [worker]
        attempts := before ++ (worker, .released) :: after }
  | drop {s : RunLoop W} {worker : RunnerId} {before after : List (RunnerId × AttemptPhase)}
      (hattempts : s.attempts = before ++ (worker, .released) :: after) :
      Foreign s { s with permits := s.permits + 1, attempts := before ++ after }
  /-- A future that panics drops its permit and nothing else. -/
  | panicked {s : RunLoop W} {worker : RunnerId} {before after : List (RunnerId × AttemptPhase)}
      (hattempts : s.attempts = before ++ (worker, .executing) :: after) :
      Foreign s { s with permits := s.permits + 1, attempts := before ++ after }
  | requestShutdown {s : RunLoop W} : Foreign s { s with shutdown := true }

/-- `run` has just come to its loop. -/
structure Start (r : RayonRunner W) (s : RunLoop W) : Prop where
  lastHeartbeat : s.lastHeartbeat = s.now
  shutdown : s.shutdown = false
  position : s.position = .head
  permits : s.permits = r.numThreads
  workerSlots : s.workerSlots.length = r.numThreads
  activeTasks : s.activeTasks = []
  attempts : s.attempts = []

variable (r : RayonRunner W)

/-- Any steps, one after the other. -/
def Run : RunLoop W → RunLoop W → Prop :=
  Relation.ReflTransGen fun s s' => Own r s s' ∨ Foreign s s'

/-- The loop by itself. -/
def OwnRun : RunLoop W → RunLoop W → Prop :=
  Relation.ReflTransGen (Own r)

/-- Nobody asked for a shutdown, an attempt is executing, and the heartbeats are overdue. -/
structure Overdue (s : RunLoop W) : Prop where
  shutdown : s.shutdown = false
  executing : ∃ attempt ∈ s.attempts, attempt.2 = .executing
  elapsed : s.Elapsed r

/-- By its own steps the loop can come to the step that sends the heartbeats. -/
def CanBeat (s : RunLoop W) : Prop :=
  ∃ s', OwnRun r s s' ∧ s'.position = .head ∧ s'.shutdown = false ∧ s'.Elapsed r

/-! ## Blocked loops -/

/-- Claiming in these surroundings leads to an attempt, or to a wait that ends by itself. -/
def Leads (env : Env) (world : W) : Prop :=
  match r.claimNext env world with
  | (.ok (some _), _) => True
  | (.ok none, world') => r.polls = true ∨ r.permit world' = true ∨
      ∃ item ∈ r.queue world', item.isDue env.clock = false
  | (.error _, _) => False

/-- Claiming, now or later, can lead somewhere. -/
def ClaimLeads (s : RunLoop W) : Prop :=
  ∃ env : Env, s.now ≤ env.clock ∧ Leads r env s.world

/-- The loop stands where it goes on without any attempt finishing and without a
notification. -/
def Unblocked (s : RunLoop W) : Prop :=
  match s.position with
  | .head | .claimed _ | .sleeping _ | .waiting .woken => True
  | .acquire => s.attempts.length < r.numThreads ∧ s.ClaimLeads r
  | .claim => s.ClaimLeads r
  | .waiting (.created called) => called = true ∨ r.permit s.world = true ∨
      ∃ item ∈ r.queue s.world, item.isDue s.now = false
  | .waiting (.looked called due) =>
      called = true ∨ r.permit s.world = true ∨ due.isSome = true
  | .waiting (.blocked due) => due.isSome = true
  | .ended => False

/-! ## Permits -/

/-- Permits that the loop itself holds. -/
def held : Position → Nat
  | .claim | .claimed _ => 1
  | _ => 0

/-- Every permit is free, held by the loop, or held by an attempt. -/
def Counted (s : RunLoop W) : Prop :=
  s.permits + held s.position + s.attempts.length = r.numThreads

variable {r}

theorem Start.counted (h : Start r s) : s.Counted r := by
  unfold Counted
  rw [h.permits, h.position, h.attempts]
  rfl

theorem held_waitForWork (now : Timestamp) : held (waitForWork r now) = 0 := by
  unfold waitForWork
  split <;> rfl

theorem Counted.own {s s' : RunLoop W} (h : s.Counted r) (hown : Own r s s') : s'.Counted r := by
  unfold Counted at h ⊢
  cases hown with
  | tick _ => exact h
  | stop hposition _ =>
      have hheld : held s.position = 0 := by
        cases hat : s.position with
        | claim => rw [hat] at hposition; cases hposition
        | claimed id => rw [hat] at hposition; cases hposition
        | _ => rfl
      rw [hheld] at h
      exact h
  | beat hposition _ _ | pass hposition _ _ =>
      rw [hposition] at h
      exact h
  | acquire hposition hpermits =>
      rw [hposition, hpermits] at h
      exact h
  | found hposition _ _ =>
      rw [hposition] at h
      exact h
  | nothing hposition _ _ =>
      rw [hposition] at h
      simp only [held_waitForWork]
      exact h
  | failed hposition _ _ =>
      rw [hposition] at h
      exact h
  | spawn hposition _ =>
      rw [hposition] at h
      simp only [held, List.length_append, List.length_singleton] at h ⊢
      omega
  | noSlot hposition _ =>
      rw [hposition] at h
      exact h
  | @wait wait next hposition _ =>
      rw [hposition] at h
      cases next <;> exact h
  | takePermit hposition _ | wakeUp hposition _ =>
      rw [hposition] at h
      exact h

theorem Counted.foreign {s s' : RunLoop W} (h : s.Counted r) (hforeign : Foreign s s') :
    s'.Counted r := by
  unfold Counted at h ⊢
  cases hforeign with
  | others _ => exact h
  | notifyOne hposition | notifyWaiters hposition =>
      rw [hposition] at h
      exact h
  | deactivate hattempts | release hattempts | drop hattempts | panicked hattempts =>
      rw [hattempts] at h
      simp only [List.length_append, List.length_cons] at h ⊢
      omega
  | requestShutdown => exact h

theorem Counted.run {s s' : RunLoop W} (h : s.Counted r) (hrun : Run r s s') : s'.Counted r := by
  induction hrun with
  | refl => exact h
  | tail _ hlast ih => exact hlast.elim ih.own ih.foreign

/-! ## A blocked loop stays blocked -/

/-- Who reads the queue arms a timer only for an entry that is not due yet. -/
theorem exists_pending_of_nextDue {queue : List QueuedInvocation} {now : Timestamp}
    (h : (nextDue queue now).isSome = true) : ∃ item ∈ queue, item.isDue now = false := by
  obtain ⟨instant, hdue⟩ := Option.isSome_iff_exists.mp h
  have hmem := List.min?_mem hdue
  obtain ⟨item, hitem, hat⟩ := List.mem_filterMap.mp (List.mem_filter.mp hmem).1
  exact ⟨item, hitem, QueuedInvocation.isDue_eq_false.mpr ⟨instant, hat, lt_of_nextDue hdue⟩⟩

/-- An entry that is not due later is not due now. -/
theorem isDue_earlier {item : QueuedInvocation} {now later : Timestamp} (hle : now ≤ later)
    (h : item.isDue later = false) : item.isDue now = false := by
  cases hnow : item.isDue now with
  | false => rfl
  | true =>
      rw [QueuedInvocation.isDue_later hle hnow] at h
      cases h

/-- Time alone unblocks nothing. -/
theorem unblocked_of_tick {later : Timestamp} (hle : s.now ≤ later)
    (h : { s with now := later }.Unblocked r) : s.Unblocked r := by
  have hclaim : { s with now := later }.ClaimLeads r → s.ClaimLeads r := by
    rintro ⟨env, hclock, hleads⟩
    exact ⟨env, Int.le_trans hle hclock, hleads⟩
  unfold Unblocked at h ⊢
  cases hat : s.position with
  | head => exact trivial
  | claimed id => exact trivial
  | sleeping wakeAt => exact trivial
  | acquire =>
      simp only [hat] at h
      exact ⟨h.1, hclaim h.2⟩
  | claim =>
      simp only [hat] at h
      exact hclaim h
  | ended => simp only [hat] at h
  | waiting wait =>
      simp only [hat] at h
      cases wait with
      | created called =>
          refine h.imp_right (Or.imp_right ?_)
          rintro ⟨item, hitem, hpending⟩
          exact ⟨item, hitem, isDue_earlier hle hpending⟩
      | looked called due => exact h
      | blocked due => exact h
      | woken => exact trivial

/-- Where the wait goes on unblocked, it was unblocked. -/
theorem unblocked_of_wait {wait : Wait} {next : Option Wait}
    (hposition : s.position = .waiting wait)
    (hstep : wait.Step (r.queue s.world) s.now (r.permit s.world) next)
    (h : { s with position := next.elim .head .waiting }.Unblocked r) : s.Unblocked r := by
  unfold Unblocked at h ⊢
  rw [hposition]
  cases hstep with
  | look => exact h.imp_right (Or.imp_right exists_pending_of_nextDue)
  | called => exact .inl rfl
  | elapsed _ => exact .inr (.inr rfl)
  | block _ _ => exact .inr (.inr h)
  | timer _ => exact rfl
  | resume => exact trivial

/-- **A blocked loop does not unblock itself.** -/
theorem Own.unblocked_of {s s' : RunLoop W} (hown : Own r s s') (hcounted : s.Counted r)
    (h : s'.Unblocked r) : s.Unblocked r := by
  cases hown with
  | tick hle => exact unblocked_of_tick hle h
  | stop _ _ => exact h.elim
  | beat hposition _ _ | pass hposition _ _ =>
      unfold Unblocked
      rw [hposition]
      exact trivial
  | acquire hposition hpermits =>
      unfold Counted at hcounted
      unfold Unblocked
      rw [hposition]
      refine ⟨?_, h⟩
      omega
  | found hposition hclock hclaim =>
      unfold Unblocked
      rw [hposition]
      refine ⟨_, Int.le_of_eq hclock.symm, ?_⟩
      unfold Leads
      rw [hclaim]
      exact trivial
  | nothing hposition hclock hclaim =>
      unfold Unblocked waitForWork at h
      unfold Unblocked
      rw [hposition]
      refine ⟨_, Int.le_of_eq hclock.symm, ?_⟩
      unfold Leads
      rw [hclaim]
      by_cases hpolls : r.polls = true
      · exact .inl hpolls
      · rw [if_neg hpolls] at h
        rw [hclock]
        exact .inr (h.resolve_left Bool.false_ne_true)
  | failed _ _ _ => exact h.elim
  | spawn hposition _ | noSlot hposition _ =>
      unfold Unblocked
      rw [hposition]
      exact trivial
  | wait hposition hstep => exact unblocked_of_wait hposition hstep h
  | takePermit hposition hpermit =>
      unfold Unblocked
      rw [hposition]
      exact .inr (.inl hpermit)
  | wakeUp hposition _ =>
      unfold Unblocked
      rw [hposition]
      exact trivial

theorem CanBeat.unblocked (hcounted : s.Counted r) (h : s.CanBeat r) :
    s.Unblocked r := by
  obtain ⟨s', hrun, hposition, _⟩ := h
  induction hrun using Relation.ReflTransGen.head_induction_on with
  | refl =>
      unfold Unblocked
      rw [hposition]
      exact trivial
  | head hown _ ih => exact hown.unblocked_of hcounted (ih (hcounted.own hown))

/-! ## An unblocked loop comes to its head -/

/-- Nobody asked for a shutdown, and the interval has elapsed. -/
def Ready (r : RayonRunner W) (s : RunLoop W) : Prop :=
  s.shutdown = false ∧ s.Elapsed r

theorem Ready.later (h : s.Ready r) {later : Timestamp} (hle : s.now ≤ later) :
    { s with now := later }.Ready r :=
  ⟨h.1, Int.le_trans h.2 hle⟩

theorem canBeat_of_own {s s' : RunLoop W} (hown : Own r s s') (h : s'.CanBeat r) :
    s.CanBeat r := by
  obtain ⟨t, hrun, hend⟩ := h
  exact ⟨t, hrun.head hown, hend⟩

theorem canBeat_head (hready : s.Ready r) (hposition : s.position = .head) :
    s.CanBeat r :=
  ⟨s, .refl, hposition, hready⟩

/-- A claimed invocation is given to a worker slot, or there is none. -/
theorem canBeat_claimed (hready : s.Ready r) {id : InvocationId}
    (hposition : s.position = .claimed id) : s.CanBeat r := by
  rcases List.eq_nil_or_concat s.workerSlots with hslots | ⟨rest, worker, hslots⟩
  · exact canBeat_of_own (.noSlot hposition hslots) (canBeat_head hready rfl)
  · rw [List.concat_eq_append] at hslots
    exact canBeat_of_own (.spawn hposition hslots) (canBeat_head hready rfl)

/-- The default wait ends by itself. -/
theorem canBeat_sleeping (hready : s.Ready r) {wakeAt : Timestamp}
    (hposition : s.position = .sleeping wakeAt) : s.CanBeat r := by
  have hle : s.now ≤ max s.now wakeAt := Int.le_max_left _ _
  exact canBeat_of_own (.tick hle) (canBeat_of_own (.wakeUp hposition (Int.le_max_right _ _))
    (canBeat_head (hready.later hle) rfl))

/-- An armed timer goes off. -/
theorem canBeat_armed (hready : s.Ready r) {wait : Wait} {instant : Timestamp}
    (hposition : s.position = .waiting wait)
    (hwait : (∃ called, wait = .looked called (some instant)) ∨ wait = .blocked (some instant)) :
    s.CanBeat r := by
  have hle : s.now ≤ max s.now instant := Int.le_max_left _ _
  have hpast : instant ≤ max s.now instant := Int.le_max_right _ _
  refine canBeat_of_own (.tick hle) ?_
  rcases hwait with ⟨called, rfl⟩ | rfl
  · exact canBeat_of_own (.wait hposition (.elapsed hpast)) (canBeat_head (hready.later hle) rfl)
  · exact canBeat_of_own (.wait hposition (.timer hpast)) (canBeat_head (hready.later hle) rfl)

theorem canBeat_looked (hready : s.Ready r) {called : Bool} {due : Option Timestamp}
    (hposition : s.position = .waiting (.looked called due))
    (h : called = true ∨ r.permit s.world = true ∨ due.isSome = true) : s.CanBeat r := by
  rcases h with rfl | hpermit | hdue
  · exact canBeat_of_own (.wait hposition .called) (canBeat_head hready rfl)
  · exact canBeat_of_own (.takePermit hposition hpermit) (canBeat_head hready rfl)
  · obtain ⟨instant, rfl⟩ := Option.isSome_iff_exists.mp hdue
    exact canBeat_armed hready hposition (.inl ⟨called, rfl⟩)

theorem canBeat_created (hready : s.Ready r) {called : Bool}
    (hposition : s.position = .waiting (.created called))
    (h : called = true ∨ r.permit s.world = true ∨
      ∃ item ∈ r.queue s.world, item.isDue s.now = false) : s.CanBeat r := by
  refine canBeat_of_own (.wait hposition .look) (canBeat_looked hready rfl ?_)
  refine h.imp_right (Or.imp_right ?_)
  rintro ⟨item, hitem, hpending⟩
  exact nextDue_isSome hitem hpending

/-- A claim that leads somewhere leads to the head of the loop. -/
theorem canBeat_claim (hready : s.Ready r) (hposition : s.position = .claim)
    (h : s.ClaimLeads r) : s.CanBeat r := by
  obtain ⟨env, hle, hleads⟩ := h
  refine canBeat_of_own (.tick hle) ?_
  have hlater := hready.later hle
  unfold Leads at hleads
  split at hleads
  · rename_i id world hclaim
    exact canBeat_of_own (.found hposition rfl hclaim) (canBeat_claimed hlater rfl)
  · rename_i world hclaim
    refine canBeat_of_own (.nothing hposition rfl hclaim) ?_
    by_cases hpolls : r.polls = true
    · exact canBeat_sleeping hlater (if_pos hpolls)
    · exact canBeat_created hlater (if_neg hpolls) (.inr (hleads.resolve_left hpolls))
  · exact hleads.elim

/-- A free permit is taken. -/
theorem canBeat_acquire (hready : s.Ready r) (hcounted : s.Counted r)
    (hposition : s.position = .acquire) (hbusy : s.attempts.length < r.numThreads)
    (h : s.ClaimLeads r) : s.CanBeat r := by
  unfold Counted at hcounted
  rw [hposition] at hcounted
  have hpermits : s.permits = s.permits - 1 + 1 := by
    simp only [held] at hcounted
    omega
  exact canBeat_of_own (.acquire hposition hpermits) (canBeat_claim hready rfl h)

/-- **An unblocked loop comes to its head.** -/
theorem Unblocked.canBeat (h : s.Unblocked r) (hready : s.Ready r)
    (hcounted : s.Counted r) : s.CanBeat r := by
  unfold Unblocked at h
  cases hat : s.position with
  | head => exact canBeat_head hready hat
  | claimed id => exact canBeat_claimed hready hat
  | sleeping wakeAt => exact canBeat_sleeping hready hat
  | acquire =>
      simp only [hat] at h
      exact canBeat_acquire hready hcounted hat h.1 h.2
  | claim =>
      simp only [hat] at h
      exact canBeat_claim hready hat h
  | ended => simp only [hat] at h
  | waiting wait =>
      simp only [hat] at h
      cases wait with
      | created called => exact canBeat_created hready hat h
      | looked called due => exact canBeat_looked hready hat h
      | blocked due =>
          obtain ⟨instant, rfl⟩ := Option.isSome_iff_exists.mp h
          exact canBeat_armed hready hat (.inr rfl)
      | woken => exact canBeat_of_own (.wait hat .resume) (canBeat_head hready rfl)

/-- **Overdue heartbeats are sent by an unblocked loop only.**  In every state that a run
reaches while nobody asks for a shutdown, an attempt executes and the heartbeats are overdue, the
loop can come to send them by itself exactly if it is unblocked: not waiting for a permit that
its own attempts hold, and not waiting for a broker that has nothing for it. -/
theorem heartbeat_reachable_iff (r : RayonRunner W) {s₀ s : RunLoop W} (hstart : Start r s₀)
    (hrun : Run r s₀ s) (hoverdue : s.Overdue r) : s.CanBeat r ↔ s.Unblocked r := by
  have hcounted : s.Counted r := hstart.counted.run hrun
  constructor
  · exact CanBeat.unblocked hcounted
  · intro hunblocked
    exact hunblocked.canBeat ⟨hoverdue.shutdown, hoverdue.elapsed⟩ hcounted

end RunLoop

/-! ## The in-memory backends -/

/-- The call stores a permit in the broker's `Notify` when it succeeds. -/
def notifies : PortCall → Bool
  | .routeInvocationWithOptions _ _ _ _ => true
  | _ => false

/-- The in-memory backends, and whether the broker's `Notify` has a permit. -/
abbrev NotifyingRuntime : Type :=
  MemRuntime × Bool

def execNotifying (env : Env) (c : PortCall) (w : NotifyingRuntime) :
    RustvelloResult c.Ans × NotifyingRuntime :=
  let answer := MemRuntime.exec env c w.1
  (answer.1, (answer.2, w.2 || (notifies c && answer.1.isOk)))

/-- A Rayon runner over the in-memory backends. -/
def memRayonRunner (d : Deployment) (runnerId : RunnerId) (numThreads heartbeatInterval : Nat) :
    RayonRunner NotifyingRuntime where
  runnerId := runnerId
  numThreads := numThreads
  heartbeatInterval := heartbeatInterval
  claimNext env w := Prog.aloneE (execNotifying env) (claimNext d .rust runnerId) w
  polls := false
  queue w := w.1.broker.queue
  permit w := w.2
  takePermit w := (w.1, false)

/-- One Rust invocation is queued. -/
def queuedWorld : NotifyingRuntime :=
  ({ broker := ⟨[⟨⟨"i"⟩, none, "default", .finite 0, none⟩]⟩ }, false)

/-- A runner with heartbeats every 30 seconds. -/
def smallRunner (numThreads : Nat) : RayonRunner NotifyingRuntime :=
  memRayonRunner serialDeployment ⟨"runner"⟩ numThreads 30000000000

/-- What is left when the invocation is claimed. -/
def emptiedWorld : NotifyingRuntime :=
  ((smallRunner 1).claimNext {} queuedWorld).2

theorem claim_queued (n : Nat) :
    (smallRunner n).claimNext {} queuedWorld = (.ok (some ⟨"i"⟩), emptiedWorld) :=
  Prod.ext rfl rfl

/-- What is left when nothing is found there. -/
def searchedWorld : NotifyingRuntime :=
  ((smallRunner 1).claimNext {} emptiedWorld).2

theorem claim_emptied (n : Nat) :
    (smallRunner n).claimNext {} emptiedWorld = (.ok none, searchedWorld) :=
  Prod.ext rfl rfl

namespace RunLoop

/-- The loop before the first claim. -/
def started (workers : List RunnerId) (numThreads : Nat) : RunLoop NotifyingRuntime where
  now := 0
  lastHeartbeat := 0
  shutdown := false
  position := .head
  permits := numThreads
  workerSlots := workers
  activeTasks := []
  attempts := []
  world := queuedWorld
  sent := []

variable (rest : List RunnerId) (worker : RunnerId)

theorem started_start :
    Start (smallRunner (rest.length + 1)) (started (rest ++ [worker]) (rest.length + 1)) where
  lastHeartbeat := rfl
  shutdown := rfl
  position := rfl
  permits := rfl
  workerSlots := List.length_append
  activeTasks := rfl
  attempts := rfl

/-- The loop at its head again, after the invocation was given to `worker`. -/
def occupied (rest : List RunnerId) (worker : RunnerId) : RunLoop NotifyingRuntime where
  now := 0
  lastHeartbeat := 0
  shutdown := false
  position := .head
  permits := rest.length
  workerSlots := rest
  activeTasks := [worker]
  attempts := [(worker, .executing)]
  world := emptiedWorld
  sent := [(worker, 0)]

theorem not_elapsed_at_once {s : RunLoop NotifyingRuntime} (n : Nat)
    (hlast : s.lastHeartbeat = s.now) : ¬s.Elapsed (smallRunner n) := by
  intro helapsed
  unfold Elapsed at helapsed
  rw [hlast] at helapsed
  have hle : ∀ now : Int, ¬now + ((30000000000 : Nat) : Int) ≤ now := by
    intro now hle
    omega
  exact hle _ helapsed

theorem run_occupied :
    Run (smallRunner (rest.length + 1)) (started (rest ++ [worker]) (rest.length + 1))
      (occupied rest worker) := by
  let r := smallRunner (rest.length + 1)
  let s := started (rest ++ [worker]) (rest.length + 1)
  let taken := { s with permits := rest.length }
  have hpass : Own r s { s with position := .acquire } :=
    .pass rfl rfl (not_elapsed_at_once _ rfl)
  have hacquire : Own r { s with position := .acquire } { taken with position := .claim } :=
    .acquire rfl rfl
  have hfound : Own r { taken with position := .claim }
      { taken with world := emptiedWorld, position := .claimed ⟨"i"⟩ } :=
    .found rfl rfl (claim_queued _)
  have hspawn : Own r { taken with world := emptiedWorld, position := .claimed ⟨"i"⟩ }
      (occupied rest worker) := .spawn rfl rfl
  exact (((Relation.ReflTransGen.single (.inl hpass)).tail (.inl hacquire)).tail
    (.inl hfound)).tail (.inl hspawn)

/-- The worker is executing, and 30 seconds are over. -/
theorem overdue_occupied (n : Nat) (position : Position) (permits : Nat)
    (world : NotifyingRuntime) :
    Overdue (smallRunner n)
      { occupied rest worker with
        now := 30000000000, position := position, permits := permits, world := world } where
  shutdown := rfl
  executing := ⟨(worker, .executing), List.mem_cons_self .., rfl⟩
  elapsed := Int.le_of_eq (Int.zero_add _)

/-- The heartbeats that fall due while the loop is at its head are sent. -/
theorem heartbeat_reachable_head :
    ∃ s, Run (smallRunner 2) (started [⟨"v"⟩, ⟨"w"⟩] 2) s ∧ s.Overdue (smallRunner 2) ∧
      s.CanBeat (smallRunner 2) := by
  let s := { occupied [⟨"v"⟩] ⟨"w"⟩ with now := 30000000000 }
  have hrun : Run (smallRunner 2) (started [⟨"v"⟩, ⟨"w"⟩] 2) s :=
    (run_occupied [⟨"v"⟩] ⟨"w"⟩).tail (.inl (.tick (by decide)))
  have hoverdue : s.Overdue (smallRunner 2) := overdue_occupied _ _ 2 .head 1 emptiedWorld
  exact ⟨s, hrun, hoverdue, (heartbeat_reachable_iff _ (started_start [⟨"v"⟩] ⟨"w"⟩) hrun
    hoverdue).mpr trivial⟩

/-- The only worker is executing, and the loop waits for its permit. -/
theorem withheld_by_permit : ∃ s, Run (smallRunner 1) (started [⟨"w"⟩] 1) s ∧
    s.Overdue (smallRunner 1) ∧ ¬s.CanBeat (smallRunner 1) := by
  let busy := { occupied [] ⟨"w"⟩ with position := .acquire }
  let s := { busy with now := 30000000000 }
  have hpass : Own (smallRunner 1) (occupied [] ⟨"w"⟩) busy :=
    .pass rfl rfl (not_elapsed_at_once _ rfl)
  have hrun : Run (smallRunner 1) (started [⟨"w"⟩] 1) s :=
    ((run_occupied [] ⟨"w"⟩).tail (.inl hpass)).tail (.inl (.tick (by decide)))
  refine ⟨s, hrun, overdue_occupied _ _ 1 .acquire 0 emptiedWorld, ?_⟩
  intro hbeat
  have hfree : 1 < 1 := (hbeat.unblocked ((started_start [] ⟨"w"⟩).counted.run hrun)).1
  omega

/-- A worker is free, nothing is queued, and the loop waits for the broker. -/
theorem withheld_by_broker : ∃ s, Run (smallRunner 2) (started [⟨"v"⟩, ⟨"w"⟩] 2) s ∧
    s.Overdue (smallRunner 2) ∧ ¬s.CanBeat (smallRunner 2) := by
  let r := smallRunner 2
  let busy := occupied [⟨"v"⟩] ⟨"w"⟩
  let idle := { busy with world := searchedWorld }
  let s := { idle with position := .waiting (.blocked none), now := 30000000000 }
  have hpass : Own r busy { busy with position := .acquire } :=
    .pass rfl rfl (not_elapsed_at_once _ rfl)
  have hacquire : Own r { busy with position := .acquire }
      { busy with permits := 0, position := .claim } := .acquire rfl rfl
  have hnothing : Own r { busy with permits := 0, position := .claim }
      { idle with position := .waiting (.created false) } :=
    .nothing rfl rfl (claim_emptied 2)
  have hlook : Own r { idle with position := .waiting (.created false) }
      { idle with position := .waiting (.looked false none) } := .wait rfl .look
  have hblock : Own r { idle with position := .waiting (.looked false none) }
      { idle with position := .waiting (.blocked none) } :=
    .wait rfl (.block rfl fun _ hinstant => by cases hinstant)
  have hrun : Run r (started [⟨"v"⟩, ⟨"w"⟩] 2) s :=
    ((((((run_occupied [⟨"v"⟩] ⟨"w"⟩).tail (.inl hpass)).tail (.inl hacquire)).tail
      (.inl hnothing)).tail (.inl hlook)).tail (.inl hblock)).tail (.inl (.tick (by decide)))
  refine ⟨s, hrun, overdue_occupied _ _ 2 (.waiting (.blocked none)) 1 searchedWorld, ?_⟩
  intro hbeat
  have harmed := hbeat.unblocked ((started_start [⟨"v"⟩] ⟨"w"⟩).counted.run hrun)
  exact Bool.false_ne_true harmed

/-- **Heartbeats are withheld** by the runner's own workers, and by an idle broker. -/
theorem heartbeat_withheld :
    (¬∀ s₀ s, Start (smallRunner 1) s₀ → Run (smallRunner 1) s₀ s →
      s.Overdue (smallRunner 1) → s.CanBeat (smallRunner 1)) ∧
    ¬∀ s₀ s, Start (smallRunner 2) s₀ → Run (smallRunner 2) s₀ s →
      s.Overdue (smallRunner 2) → s.CanBeat (smallRunner 2) := by
  constructor
  · intro hclaim
    obtain ⟨s, hrun, hoverdue, hwithheld⟩ := withheld_by_permit
    exact hwithheld (hclaim _ s (started_start [] ⟨"w"⟩) hrun hoverdue)
  · intro hclaim
    obtain ⟨s, hrun, hoverdue, hwithheld⟩ := withheld_by_broker
    exact hwithheld (hclaim _ s (started_start [⟨"v"⟩] ⟨"w"⟩) hrun hoverdue)

end RunLoop

end Rustvello.Runner
