import Mathlib.Data.Fintype.Basic
import Mathlib.Data.List.Basic

/-!
# The invocation status machine

The declarative status table of `rustvello-proto` (`status/mod.rs`) and the three
functions that read it (`status/machine.rs`): a requested change is checked
against the transition table, then against the ownership flags, and then gives a
new record with the owner the flags prescribe.

Every backend stores its status records through `statusRecordTransition`, so the
facts at the end of this module are the ones all later modules rely on:

* `statusRecordTransition_ok_iff` — exactly when a request is accepted, and the
  record it yields;
* the reading of the table (`allowed_iff` and the flag lemmas), settled once by
  evaluation over the fourteen statuses.
-/

namespace Rustvello.Proto

/-- Runner identities are opaque strings. -/
structure RunnerId where
  raw : String
deriving DecidableEq, Repr

/-- An instant, in nanoseconds since the epoch. -/
abbrev Timestamp := Int

/-- The lifecycle status of an invocation. -/
inductive InvocationStatus where
  | registered
  | concurrencyControlled
  | concurrencyControlledFinal
  | rerouted
  | pending
  | pendingRecovery
  | running
  | runningRecovery
  | paused
  | killed
  | success
  | failed
  | retry
  | cancelled
deriving DecidableEq, Repr

/-- All status variants, for iteration. -/
def allStatuses : List InvocationStatus :=
  [.registered, .concurrencyControlled, .concurrencyControlledFinal, .rerouted, .pending,
    .pendingRecovery, .running, .runningRecovery, .paused, .killed, .success, .failed, .retry,
    .cancelled]

instance : Fintype InvocationStatus where
  elems := ⟨allStatuses, by decide⟩
  complete status := by cases status <;> decide

/-- Declarative rules of one status; every flag is off unless the table sets it. -/
structure StatusDefinition where
  allowedTransitions : List InvocationStatus := []
  isFinal : Bool := false
  availableForRun : Bool := false
  requiresOwnership : Bool := false
  acquiresOwnership : Bool := false
  releasesOwnership : Bool := false
  overridesOwnership : Bool := false

open InvocationStatus in
/-- The table of `build_config`, entry by entry and in its order. -/
def definitions : List (InvocationStatus × StatusDefinition) :=
  [ (registered,
      { allowedTransitions :=
          [pending, concurrencyControlled, concurrencyControlledFinal, cancelled]
        availableForRun := true
        releasesOwnership := true }),
    (concurrencyControlled,
      { allowedTransitions := [rerouted, cancelled]
        releasesOwnership := true }),
    (rerouted,
      { allowedTransitions := [pending, concurrencyControlled, cancelled]
        availableForRun := true
        releasesOwnership := true }),
    (pending,
      -- `pendingRecovery` is for timeout recovery without ownership validation.
      { allowedTransitions := [running, killed, rerouted, pendingRecovery, cancelled]
        requiresOwnership := true
        acquiresOwnership := true }),
    (pendingRecovery,
      -- `failed`: the recovery limit was reached.
      { allowedTransitions := [rerouted, failed, cancelled]
        releasesOwnership := true
        overridesOwnership := true }),
    (running,
      { allowedTransitions :=
          [paused, killed, retry, success, failed, runningRecovery, cancelled]
        requiresOwnership := true }),
    (runningRecovery,
      { allowedTransitions := [rerouted, failed, cancelled]
        releasesOwnership := true
        overridesOwnership := true }),
    (paused,
      { allowedTransitions := [running, killed, cancelled]
        requiresOwnership := true }),
    (killed,
      { allowedTransitions := [rerouted, cancelled]
        releasesOwnership := true }),
    (retry,
      { allowedTransitions := [pending, cancelled]
        availableForRun := true
        releasesOwnership := true }),
    (success, { isFinal := true, releasesOwnership := true }),
    (failed, { isFinal := true, releasesOwnership := true }),
    (cancelled, { isFinal := true, releasesOwnership := true, overridesOwnership := true }),
    (concurrencyControlledFinal, { isFinal := true, releasesOwnership := true }) ]

/-- The rules of the state before registration: only `registered` may follow. -/
def initialDefinition : StatusDefinition :=
  { allowedTransitions := [.registered] }

namespace InvocationStatus

/-- The table row of a status.  The source panics on a missing row; no row is
missing (`definitions_complete`), so the default is never taken. -/
def definition (status : InvocationStatus) : StatusDefinition :=
  ((definitions.find? fun row => row.1 = status).map Prod.snd).getD {}

def isTerminal (status : InvocationStatus) : Bool :=
  status.definition.isFinal

def isAvailableForRun (status : InvocationStatus) : Bool :=
  status.definition.availableForRun

def canTransitionTo (status next : InvocationStatus) : Bool :=
  status.definition.allowedTransitions.contains next

/-- `Display`: the name under which a status is stored. -/
def toName : InvocationStatus → String
  | registered => "REGISTERED"
  | concurrencyControlled => "CONCURRENCY_CONTROLLED"
  | concurrencyControlledFinal => "CONCURRENCY_CONTROLLED_FINAL"
  | rerouted => "REROUTED"
  | pending => "PENDING"
  | pendingRecovery => "PENDING_RECOVERY"
  | running => "RUNNING"
  | runningRecovery => "RUNNING_RECOVERY"
  | paused => "PAUSED"
  | killed => "KILLED"
  | success => "SUCCESS"
  | failed => "FAILED"
  | retry => "RETRY"
  | cancelled => "CANCELLED"

/-- `Debug`: the name of the variant, under which serde writes it. -/
def debugName : InvocationStatus → String
  | registered => "Registered"
  | concurrencyControlled => "ConcurrencyControlled"
  | concurrencyControlledFinal => "ConcurrencyControlledFinal"
  | rerouted => "Rerouted"
  | pending => "Pending"
  | pendingRecovery => "PendingRecovery"
  | running => "Running"
  | runningRecovery => "RunningRecovery"
  | paused => "Paused"
  | killed => "Killed"
  | success => "Success"
  | failed => "Failed"
  | retry => "Retry"
  | cancelled => "Cancelled"

/-- Every status has a row: the panic of `StatusConfiguration::definition` is dead. -/
theorem definitions_complete (status : InvocationStatus) :
    (definitions.find? fun row => row.1 = status).isSome = true := by
  revert status
  decide

/-- Two statuses with the same stored name are the same status. -/
theorem toName_injective : Function.Injective toName := by
  unfold Function.Injective
  decide

end InvocationStatus

/-- A status with its owner and the time it was set. -/
structure InvocationStatusRecord where
  status : InvocationStatus
  runnerId : Option RunnerId
  timestamp : Timestamp
deriving DecidableEq, Repr

structure StatusTransitionError where
  fromStatus : Option InvocationStatus
  toStatus : InvocationStatus
  allowed : List InvocationStatus
deriving DecidableEq, Repr

structure OwnershipError where
  fromStatus : InvocationStatus
  toStatus : InvocationStatus
  currentOwner : Option String
  attemptedOwner : Option String
  reason : String
deriving DecidableEq, Repr

inductive StatusMachineError where
  | transition (error : StatusTransitionError)
  | ownership (error : OwnershipError)
deriving DecidableEq, Repr

/-- Validate a state transition against the table. -/
def validateTransition (fromStatus : Option InvocationStatus) (toStatus : InvocationStatus) :
    Except StatusTransitionError Unit :=
  let definition := match fromStatus with
    | some s => s.definition
    | none => initialDefinition
  if definition.allowedTransitions.contains toStatus then
    .ok ()
  else
    .error ⟨fromStatus, toStatus, definition.allowedTransitions⟩

/-- Validate the ownership requirements of a transition. -/
def validateOwnership (currentRecord : Option InvocationStatusRecord)
    (newStatus : InvocationStatus) (runnerId : Option RunnerId) : Except OwnershipError Unit :=
  match currentRecord with
  | none => .ok ()
  | some current =>
      let newDef := newStatus.definition
      -- recovery and cancellation take over without being the owner
      if newDef.overridesOwnership then
        .ok ()
      else if current.status.definition.requiresOwnership ∧ runnerId ≠ current.runnerId then
        .error
          { fromStatus := current.status
            toStatus := newStatus
            currentOwner := current.runnerId.map RunnerId.raw
            attemptedOwner := runnerId.map RunnerId.raw
            reason := "status requires ownership by runner '"
              ++ (current.runnerId.map RunnerId.raw).getD "<none>" ++ "'" }
      else if newDef.acquiresOwnership ∧ runnerId = none then
        .error
          { fromStatus := current.status
            toStatus := newStatus
            currentOwner := current.runnerId.map RunnerId.raw
            attemptedOwner := none
            reason := "status " ++ newStatus.toName ++ " requires a runner_id to acquire ownership" }
      else
        .ok ()

/-- The owner after a transition. -/
def computeNewOwner (currentRecord : Option InvocationStatusRecord)
    (newStatus : InvocationStatus) (runnerId : Option RunnerId) : Option RunnerId :=
  let newDef := newStatus.definition
  if newDef.releasesOwnership then
    none
  else if newDef.acquiresOwnership then
    runnerId
  else
    currentRecord.bind InvocationStatusRecord.runnerId

/-- Execute a status change with full validation; `now` is the clock reading of
`InvocationStatusRecord::new`. -/
def statusRecordTransition (now : Timestamp) (currentRecord : Option InvocationStatusRecord)
    (newStatus : InvocationStatus) (runnerId : Option RunnerId) :
    Except StatusMachineError InvocationStatusRecord := do
  (validateTransition (currentRecord.map InvocationStatusRecord.status) newStatus).mapError .transition
  (validateOwnership currentRecord newStatus runnerId).mapError .ownership
  pure ⟨newStatus, computeNewOwner currentRecord newStatus runnerId, now⟩

/-! ## Reading the machine -/

/-- The ownership rule as one proposition: recovery and cancellation override it,
otherwise an owned status moves only for its owner and `pending` needs a runner. -/
def OwnershipOk (current : InvocationStatusRecord) (newStatus : InvocationStatus)
    (runnerId : Option RunnerId) : Prop :=
  newStatus.definition.overridesOwnership = true ∨
    ((current.status.definition.requiresOwnership = true → runnerId = current.runnerId) ∧
      (newStatus.definition.acquiresOwnership = true → runnerId ≠ none))

instance (current : InvocationStatusRecord) (newStatus : InvocationStatus)
    (runnerId : Option RunnerId) : Decidable (OwnershipOk current newStatus runnerId) :=
  inferInstanceAs (Decidable (_ ∨ _))

theorem validateTransition_ok_iff (current newStatus : InvocationStatus) :
    validateTransition (some current) newStatus = .ok () ↔
      current.canTransitionTo newStatus = true := by
  simp only [validateTransition, InvocationStatus.canTransitionTo]
  split <;> simp_all

theorem validateOwnership_ok_iff (current : InvocationStatusRecord) (newStatus : InvocationStatus)
    (runnerId : Option RunnerId) :
    validateOwnership (some current) newStatus runnerId = .ok () ↔
      OwnershipOk current newStatus runnerId := by
  unfold validateOwnership OwnershipOk
  dsimp only
  split
  · simp_all
  · split
    · simp_all
    · split <;> simp_all

/-- **When a request is accepted, and what it stores.** -/
theorem statusRecordTransition_ok_iff (now : Timestamp) (current next : InvocationStatusRecord)
    (newStatus : InvocationStatus) (runnerId : Option RunnerId) :
    statusRecordTransition now (some current) newStatus runnerId = .ok next ↔
      current.status.canTransitionTo newStatus = true ∧ OwnershipOk current newStatus runnerId ∧
        next = ⟨newStatus, computeNewOwner (some current) newStatus runnerId, now⟩ := by
  rw [← validateTransition_ok_iff, ← validateOwnership_ok_iff]
  unfold statusRecordTransition
  simp only [Option.map_some]
  cases validateTransition (some current.status) newStatus with
  | error e => simp [Except.mapError, bind, Except.bind]
  | ok u =>
      cases validateOwnership (some current) newStatus runnerId with
      | error e => simp [Except.mapError, bind, Except.bind]
      | ok v => simp [Except.mapError, bind, Except.bind, pure, Except.pure, eq_comm]

/-- A request is refused by the table before its ownership is looked at. -/
theorem statusRecordTransition_transition_error_iff (now : Timestamp)
    (current : InvocationStatusRecord) (newStatus : InvocationStatus)
    (runnerId : Option RunnerId) :
    (∃ e, statusRecordTransition now (some current) newStatus runnerId = .error (.transition e)) ↔
      current.status.canTransitionTo newStatus = false := by
  have hok := validateTransition_ok_iff current.status newStatus
  unfold statusRecordTransition
  simp only [Option.map_some]
  cases htr : validateTransition (some current.status) newStatus with
  | error e =>
      have hcan : ¬ current.status.canTransitionTo newStatus = true := fun h => by
        simp [hok.mpr h] at htr
      simp [Except.mapError, bind, Except.bind, hcan]
  | ok u =>
      have hcan : current.status.canTransitionTo newStatus = true := hok.mp htr
      cases validateOwnership (some current) newStatus runnerId <;>
        simp [Except.mapError, bind, Except.bind, pure, Except.pure, hcan]

namespace InvocationStatus

/-- The statuses in which an invocation belongs to a runner. -/
def Owned (status : InvocationStatus) : Prop :=
  status = pending ∨ status = running ∨ status = paused

instance (status : InvocationStatus) : Decidable status.Owned :=
  inferInstanceAs (Decidable (_ ∨ _))

/-- The targets that take over an invocation without being its owner. -/
def TakesOver (status : InvocationStatus) : Prop :=
  status = pendingRecovery ∨ status = runningRecovery ∨ status = cancelled

instance (status : InvocationStatus) : Decidable status.TakesOver :=
  inferInstanceAs (Decidable (_ ∨ _))

variable (status : InvocationStatus)

theorem requiresOwnership_iff :
    status.definition.requiresOwnership = true ↔ status.Owned := by
  revert status
  decide

theorem overridesOwnership_iff :
    status.definition.overridesOwnership = true ↔ status.TakesOver := by
  revert status
  decide

theorem acquiresOwnership_iff :
    status.definition.acquiresOwnership = true ↔ status = pending := by
  revert status
  decide

/-- Ownership is dropped on every entry except into the owned statuses. -/
theorem releasesOwnership_iff :
    status.definition.releasesOwnership = true ↔ ¬ status.Owned := by
  revert status
  decide

theorem isAvailableForRun_iff :
    status.isAvailableForRun = true ↔
      status = registered ∨ status = retry ∨ status = rerouted := by
  revert status
  decide

/-- Nothing follows a terminal status. -/
theorem canTransitionTo_of_isTerminal {status : InvocationStatus} (h : status.isTerminal = true)
    (next : InvocationStatus) : status.canTransitionTo next = false := by
  revert status next
  decide

/-- `pending` follows exactly the statuses that are available for a run. -/
theorem canTransitionTo_pending_iff :
    status.canTransitionTo pending = true ↔ status.isAvailableForRun = true := by
  revert status
  decide

/-- Nothing leads back to `registered`. -/
theorem not_canTransitionTo_registered :
    status.canTransitionTo registered = false := by
  revert status
  decide

/-- No status follows itself. -/
theorem not_canTransitionTo_self :
    status.canTransitionTo status = false := by
  revert status
  decide

/-- `running` and `paused` are entered only from an owned status. -/
theorem owned_of_canTransitionTo_owned {status next : InvocationStatus}
    (h : status.canTransitionTo next = true) (hnext : next = running ∨ next = paused) :
    status.Owned := by
  revert status next
  decide

/-- Nobody takes over into an owned status. -/
theorem not_takesOver_of_owned {status : InvocationStatus} (h : status.Owned) :
    ¬ status.TakesOver := by
  revert status
  decide

end InvocationStatus

/-- An accepted request keeps owned records owned by somebody. -/
theorem runnerId_of_owned {now : Timestamp} {current next : InvocationStatusRecord}
    {newStatus : InvocationStatus} {runnerId : Option RunnerId}
    (h : statusRecordTransition now (some current) newStatus runnerId = .ok next)
    (hcurrent : current.status.Owned → current.runnerId ≠ none) (hnext : next.status.Owned) :
    next.runnerId ≠ none := by
  obtain ⟨hcan, hown, rfl⟩ := (statusRecordTransition_ok_iff _ _ _ _ _).mp h
  have hreleases : newStatus.definition.releasesOwnership ≠ true := fun hreleases =>
    (InvocationStatus.releasesOwnership_iff newStatus).mp hreleases hnext
  have htakes : ¬ newStatus.TakesOver := InvocationStatus.not_takesOver_of_owned hnext
  simp only [computeNewOwner, if_neg hreleases]
  split
  · rename_i hacquires
    rcases hown with hoverride | ⟨_, hrunner⟩
    · exact absurd ((InvocationStatus.overridesOwnership_iff newStatus).mp hoverride) htakes
    · exact hrunner hacquires
  · rename_i hacquires
    have hentered : newStatus = .running ∨ newStatus = .paused := by
      rcases hnext with rfl | hnext
      · exact absurd ((InvocationStatus.acquiresOwnership_iff _).mpr rfl) hacquires
      · exact hnext
    exact hcurrent (InvocationStatus.owned_of_canTransitionTo_owned hcan hentered)

/-- A request accepted on one record is accepted on another of the same status, with
the same result, exactly when the owner does not matter or is the requester. -/
theorem transition_same_status_iff {now : Timestamp} {current stored next : InvocationStatusRecord}
    {target : InvocationStatus} {requester : Option RunnerId}
    (hstatus : stored.status = current.status)
    (hnext : statusRecordTransition now (some current) target requester = .ok next) :
    statusRecordTransition now (some stored) target requester = .ok next ↔
      ¬ stored.status.Owned ∨ target.TakesOver ∨ stored.runnerId = requester := by
  obtain ⟨hcan, hown, rfl⟩ := (statusRecordTransition_ok_iff _ _ _ _ _).mp hnext
  rw [statusRecordTransition_ok_iff]
  unfold OwnershipOk at hown ⊢
  rw [InvocationStatus.overridesOwnership_iff, InvocationStatus.requiresOwnership_iff,
    InvocationStatus.acquiresOwnership_iff] at hown ⊢
  constructor
  · rintro ⟨-, hown', -⟩
    rcases hown' with htake | ⟨howner, -⟩
    · exact .inr (.inl htake)
    · by_cases howned : stored.status.Owned
      · exact .inr (.inr (howner howned).symm)
      · exact .inl howned
  · intro hcond
    refine ⟨by rw [hstatus]; exact hcan, ?_, ?_⟩
    · by_cases htake : target.TakesOver
      · exact .inl htake
      · right
        obtain hown := hown.resolve_left htake
        refine ⟨fun howned => ?_, hown.2⟩
        rcases hcond with hno | htake' | howner
        · exact absurd howned hno
        · exact absurd htake' htake
        · exact howner.symm
    · -- the new owner differs only where the target keeps the present owner
      suffices howner : target = .running ∨ target = .paused → stored.runnerId = current.runnerId by
        simp only [computeNewOwner, InvocationStatusRecord.mk.injEq, true_and, and_true]
        split
        · rfl
        · rename_i hrel
          rw [InvocationStatus.releasesOwnership_iff, not_not] at hrel
          split
          · rfl
          · rename_i hacq
            rw [InvocationStatus.acquiresOwnership_iff] at hacq
            simpa using (howner (hrel.resolve_left hacq)).symm
      intro hkeeps
      have howned : stored.status.Owned := by
        rw [hstatus]
        exact InvocationStatus.owned_of_canTransitionTo_owned hcan hkeeps
      have htake : ¬ target.TakesOver := by
        rcases hkeeps with rfl | rfl <;> decide
      have hcurrent := (hown.resolve_left htake).1 (hstatus ▸ howned)
      rcases hcond with hno | htake' | hstored
      · exact absurd howned hno
      · exact absurd htake' htake
      · exact hstored.trans hcurrent

end Rustvello.Proto
