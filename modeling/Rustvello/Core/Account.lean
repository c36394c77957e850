import Mathlib.Data.Set.Basic
import Rustvello.Core.Publication

/-!
# What a publication change does to an invocation

Both publications carry out a change in two parts: they work out the status records it
leads to, and then write these with everything that belongs to the new status.  This module
says what the two parts are, apart from the tables or keys that hold the data.

* `Account` — everything a backend holds about one invocation;
* `Moves`, `plan` — the records a change leads to, from the current one;
* `Updates` — a write touches one account;
* `Account.commit` — the effects of a change, up to a `Policy` for the two points at which
  backends can differ: which statuses end a delivery, and whether a routed change gives the
  argument pairs back.
-/

namespace Rustvello.Core

open Proto

/-! ## Accounts -/

/-- An entry of the audit trail. -/
structure HistoryEntry where
  status : InvocationStatus
  runnerId : Option RunnerId
  timestamp : Timestamp
  message : Option String
deriving DecidableEq

/-- A queue entry, with its route. -/
structure Delivery where
  queue : String
  priority : F64
  /-- The text of the task id; empty without one. -/
  task : List Char
deriving DecidableEq

def taskText (taskId : Option TaskId) : List Char :=
  (taskId.map fun t => t.toText.toList).getD []

structure Account where
  /-- Status and owner. -/
  record : Option InvocationStatusRecord
  invocation : Option InvocationDTO
  /-- Oldest first. -/
  history : List HistoryEntry
  retries : Nat
  result : Option String
  error : Option TaskError
  deliveries : List Delivery
  /-- Who waits on the invocation. -/
  waiters : Set InvocationId
  /-- The argument pairs it holds, each under a task. -/
  pairs : Set (TaskId × String × String)
  purgeAt : Option Timestamp

/-! ## The records of a change -/

/-- One transition, or a first one and then the final one. -/
structure Moves where
  first : Option InvocationStatusRecord
  final : InvocationStatusRecord

def Moves.records (moves : Moves) : List InvocationStatusRecord :=
  moves.first.toList ++ [moves.final]

section Plan

variable (now : Timestamp) (id : InvocationId) (runner : RunnerId)

/-- One transition. -/
def moveTo (old : InvocationStatusRecord) (status : InvocationStatus) :
    RustvelloResult InvocationStatusRecord :=
  match statusRecordTransition now (some old) status (some runner) with
  | .error e => .error (statusMachineErrorToRustvello e id old.status)
  | .ok record => .ok record

/-- A transition, and from there to `rerouted`. -/
def moveTwice (old : InvocationStatusRecord) (status : InvocationStatus) :
    RustvelloResult Moves := do
  let first ← moveTo now id runner old status
  let final ← moveTo now id runner first .rerouted
  pure ⟨some first, final⟩

/-- Completion payloads need the running owner; each backend has its own words for it. -/
def requireOwner (reason : String) (old : InvocationStatusRecord) (change : PublicationChange) :
    RustvelloResult Unit :=
  if hasPayload change = true ∧ (old.status ≠ .running ∨ old.runnerId ≠ some runner) then
    .error (.ownershipViolation id old.status (targetOf change)
      ((old.runnerId.map RunnerId.raw).getD "") runner.raw reason)
  else .ok ()

/-- The record of a change of one transition. -/
def planOnce (reason : String) (old : InvocationStatusRecord) (change : PublicationChange) :
    RustvelloResult (Option Moves) := do
  requireOwner id runner reason old change
  let final ← moveTo now id runner old (targetOf change)
  pure (some ⟨none, final⟩)

/-- The records a change leads to; `none` when there is nothing to recover.  `alive` is the
backend's verdict on the owner that a recovery would replace. -/
def plan (reason : String) (alive : RustvelloResult Bool) (old : InvocationStatusRecord)
    (change : PublicationChange) : RustvelloResult (Option Moves) :=
  match change with
  | .recover status _ _ =>
      match takenOverFrom status with
      | none => .error (.configuration "invalid recovery status")
      | some expected =>
          if old.status ≠ expected then .ok none
          else do
            let seen ← alive
            if seen then pure none
            else
              let moves ← moveTwice now id runner old status
              pure (some moves)
  | .concurrencyReroute _ => do
      let moves ← moveTwice now id runner old .concurrencyControlled
      pure (some moves)
  | change => planOnce now id runner reason old change

/-- The status machine lets the runner move the invocation there. -/
def Permitted (old : InvocationStatusRecord) (status : InvocationStatus) : Prop :=
  old.status.canTransitionTo status = true ∧ OwnershipOk old status (some runner)

instance (old : InvocationStatusRecord) (status : InvocationStatus) :
    Decidable (Permitted runner old status) :=
  inferInstanceAs (Decidable (_ ∧ _))

end Plan

/-! ## The effects of a change -/

/-- Where backends can differ. -/
structure Policy where
  /-- An unrouted change to this status ends the delivery. -/
  ends : InvocationStatus → Bool
  /-- A routed change gives the argument pairs back. -/
  freesRouted : Bool

namespace Account

/-- The new entries of the audit trail. -/
def entry (runner : RunnerId) (record : InvocationStatusRecord) : HistoryEntry :=
  ⟨record.status, some runner, record.timestamp, none⟩

/-- Retries, with that of the change. -/
def attempts (a : Account) : PublicationChange → Nat
  | .retry _ | .delayedRetry _ _ => a.retries + 1
  | _ => a.retries

/-- Result and error, with that of the change. -/
def payload (a : Account) : PublicationChange → Option String × Option TaskError
  | .success result => (some result, a.error)
  | .failure error => (a.result, some error)
  | _ => (a.result, a.error)

/-- A routed change replaces the delivery, another one keeps or ends it. -/
def redeliver (policy : Policy) (status : InvocationStatus) (change : PublicationChange)
    (a : Account) : List Delivery :=
  match routeOf change with
  | some route => [⟨route.queue, route.priority, taskText (a.invocation.map InvocationDTO.taskId)⟩]
  | none => if policy.ends status then [] else a.deliveries

/-- The end of an invocation. -/
def finish (final : InvocationStatusRecord) (autoPurge : Bool) (a : Account) : Account :=
  if final.status.isTerminal then
    { a with
      waiters := ∅
      pairs := ∅
      purgeAt := if autoPurge then some final.timestamp else a.purgeAt }
  else a

/-- Carry a change out. -/
def commit (policy : Policy) (runner : RunnerId) (moves : Moves) (change : PublicationChange)
    (autoPurge : Bool) (a : Account) : Account where
  record := some moves.final
  invocation := a.invocation.map fun invocation =>
    { invocation with status := moves.final.status, updatedAt := moves.final.timestamp }
  history := a.history ++ moves.records.map (entry runner)
  retries := a.attempts change
  result := (a.payload change).1
  error := (a.payload change).2
  deliveries := a.redeliver policy moves.final.status change
  waiters := if moves.final.status.isTerminal then ∅ else a.waiters
  pairs :=
    if moves.final.status.isTerminal || policy.freesRouted && (routeOf change).isSome then ∅
    else a.pairs
  purgeAt := if moves.final.status.isTerminal && autoPurge then some moves.final.timestamp
    else a.purgeAt

end Account

/-! ## Writes to one account -/

/-- A step from one state to another changes the account of one invocation only, and
leaves `kept` alone. -/
structure Updates {σ κ : Type} (view : σ → InvocationId → Account) (kept : σ → κ)
    (id : InvocationId) (f : Account → Account) (s s' : σ) : Prop where
  account : ∀ x, view s' x = if x = id then f (view s x) else view s x
  same : kept s' = kept s

namespace Updates

variable {σ κ : Type} {view : σ → InvocationId → Account} {kept : σ → κ} {id : InvocationId}
  {f g : Account → Account} {s s' s'' : σ}

theorem refl (view : σ → InvocationId → Account) (kept : σ → κ) (id : InvocationId) (s : σ) :
    Updates view kept id (fun a => a) s s where
  account x := by rw [ite_self]
  same := rfl

theorem trans (h : Updates view kept id f s s') (h' : Updates view kept id g s' s'') :
    Updates view kept id (fun a => g (f a)) s s'' where
  account x := by
    rw [h'.account, h.account]
    by_cases hx : x = id
    · simp [hx]
    · simp [hx]
  same := h'.same.trans h.same

/-- Another way to say what happens to the account. -/
theorem congr (h : Updates view kept id f s s') (hfg : f (view s id) = g (view s id)) :
    Updates view kept id g s s' where
  account x := by
    rw [h.account]
    by_cases hx : x = id
    · rw [if_pos hx, if_pos hx, hx, hfg]
    · rw [if_neg hx, if_neg hx]
  same := h.same

end Updates

/-! ## When a change goes ahead -/

section Lemmas

variable {now : Timestamp} {id : InvocationId} {runner : RunnerId}
  {old record : InvocationStatusRecord} {status : InvocationStatus} {moves : Moves}
  {change : PublicationChange} {reason : String} {alive : RustvelloResult Bool}

theorem moveTo_ok_iff :
    moveTo now id runner old status = .ok record ↔
      statusRecordTransition now (some old) status (some runner) = .ok record := by
  unfold moveTo
  split
  · rename_i e herror
    simp [herror]
  · rename_i new hok
    simp [hok]

theorem moveTo_permitted (now : Timestamp) (id : InvocationId) (h : Permitted runner old status) :
    moveTo now id runner old status =
      .ok ⟨status, computeNewOwner (some old) status (some runner), now⟩ :=
  moveTo_ok_iff.mpr ((statusRecordTransition_ok_iff _ _ _ _ _).mpr ⟨h.1, h.2, rfl⟩)

theorem permitted_of_moveTo (h : moveTo now id runner old status = .ok record) :
    Permitted runner old status ∧ record.status = status := by
  obtain ⟨hcan, hown, rfl⟩ := (statusRecordTransition_ok_iff _ _ _ _ _).mp (moveTo_ok_iff.mp h)
  exact ⟨⟨hcan, hown⟩, rfl⟩

/-- Between two transitions nobody owns the invocation, so the second follows the first. -/
theorem moveTwice_permitted (now : Timestamp) (id : InvocationId)
    (h : Permitted runner old status) (hnext : status.canTransitionTo .rerouted = true)
    (hfree : status.definition.requiresOwnership = false) :
    ∃ moves, moveTwice now id runner old status = .ok moves ∧ moves.final.status = .rerouted := by
  have hfirst := moveTo_permitted now id h
  have hsecond : Permitted runner
      ⟨status, computeNewOwner (some old) status (some runner), now⟩ .rerouted := by
    refine ⟨hnext, .inr ⟨fun howned => ?_, fun _ => Option.some_ne_none _⟩⟩
    rw [hfree] at howned
    cases howned
  have htwice : moveTwice now id runner old status = (do
      let final ← moveTo now id runner
        ⟨status, computeNewOwner (some old) status (some runner), now⟩ .rerouted
      pure ⟨some ⟨status, computeNewOwner (some old) status (some runner), now⟩, final⟩) := by
    unfold moveTwice
    rw [hfirst]
    rfl
  rw [moveTo_permitted now id hsecond] at htwice
  exact ⟨_, htwice, rfl⟩

theorem permitted_of_moveTwice (h : moveTwice now id runner old status = .ok moves) :
    Permitted runner old status ∧ moves.final.status = .rerouted := by
  obtain ⟨first, hfirst, h⟩ := bind_eq_ok.mp h
  obtain ⟨final, hfinal, h⟩ := bind_eq_ok.mp h
  cases h
  exact ⟨(permitted_of_moveTo hfirst).1, (permitted_of_moveTo hfinal).2⟩

/-- A recovery may take over from the status it expects. -/
theorem permitted_takenOverFrom (h : takenOverFrom status = some old.status) :
    Permitted runner old status ∧ status.canTransitionTo .rerouted = true ∧
      status.definition.requiresOwnership = false := by
  unfold takenOverFrom at h
  split at h
  · have hold := Option.some.inj h
    refine ⟨⟨?_, .inl (by decide)⟩, by decide, by decide⟩
    rw [← hold]
    decide
  · have hold := Option.some.inj h
    refine ⟨⟨?_, .inl (by decide)⟩, by decide, by decide⟩
    rw [← hold]
    decide
  · cases h

/-- Every record of a planned change ends in its target. -/
theorem plan_final (h : plan now id runner reason alive old change = .ok (some moves)) :
    moves.final.status = targetOf change := by
  have hone : planOnce now id runner reason old change = .ok (some moves) →
      moves.final.status = targetOf change := by
    intro h
    obtain ⟨_, -, h⟩ := bind_eq_ok.mp h
    obtain ⟨final, hfinal, h⟩ := bind_eq_ok.mp h
    cases h
    exact (permitted_of_moveTo hfinal).2
  cases change with
  | recover status stale route =>
      simp only [plan] at h
      split at h
      · cases h
      · split at h
        · cases h
        · obtain ⟨seen, -, h⟩ := bind_eq_ok.mp h
          split at h
          · cases h
          · obtain ⟨twice, htwice, h⟩ := bind_eq_ok.mp h
            cases h
            exact (permitted_of_moveTwice htwice).2
  | concurrencyReroute route =>
      obtain ⟨twice, htwice, h⟩ := bind_eq_ok.mp h
      cases h
      exact (permitted_of_moveTwice htwice).2
  | status s => exact hone h
  | retry route => exact hone h
  | delayedRetry route delayMs => exact hone h
  | reroute route => exact hone h
  | success result => exact hone h
  | failure error => exact hone h

/-- Only a routed change makes two transitions. -/
theorem plan_first (h : plan now id runner reason alive old change = .ok (some moves))
    (hroute : routeOf change = none) : moves.first = none := by
  have hone : planOnce now id runner reason old change = .ok (some moves) →
      moves.first = none := by
    intro h
    obtain ⟨_, -, h⟩ := bind_eq_ok.mp h
    obtain ⟨final, -, h⟩ := bind_eq_ok.mp h
    cases h
    rfl
  cases change with
  | status s => exact hone h
  | success result => exact hone h
  | failure error => exact hone h
  | recover status stale route => cases hroute
  | concurrencyReroute route => cases hroute
  | retry route => cases hroute
  | delayedRetry route delayMs => cases hroute
  | reroute route => cases hroute

end Lemmas

end Rustvello.Core
