import Rustvello.Orchestration.Calls

/-!
# No invocation is lost between the queue and its worker

On the in-memory backends the broker entry of an invocation is gone before the
worker has claimed it, and the status is written before the entry is there again.
In between an operation holds the invocation.  This module follows those hands:

* `delivery` — the book of an operation is the invocation it holds: a dequeued one
  until its `pending` write or its denial, and one that was just made available
  until it is routed;
* `Delivered` — every available invocation is queued or in some hand;
* `Strands` — the one way in which a hand drops an available invocation: a dequeued
  candidate is denied in a status from which the denial is not allowed;
* `delivered_of_denials` — in every run without such a denial nothing is lost;
* `retryDenied_lost` — a run with one, where an invocation is lost for good.
-/

namespace Rustvello.Mem

open Concurrency Proto Rustvello.Core Orchestration

/-- A status in which an invocation waits to be delivered again. -/
def makesAvailable (status : InvocationStatus) : Prop :=
  status = .retry ∨ status = .rerouted

instance (status : InvocationStatus) : Decidable (makesAvailable status) :=
  inferInstanceAs (Decidable (_ ∨ _))

/-- The writes by which a worker lets go of a candidate. -/
def letsGo (status : InvocationStatus) : Prop :=
  status = .pending ∨ status = .concurrencyControlled ∨ status = .concurrencyControlledFinal

/-- Forget `id` if it is the invocation in hand. -/
def drop (id : InvocationId) (hand : Option InvocationId) : Option InvocationId :=
  if hand = some id then none else hand

/-- The invocation in hand after a call. -/
def nextHand : (c : PortCall) → RustvelloResult c.Ans → Option InvocationId → Option InvocationId
  | .retrieveInvocationForLanguageFromQueue _ _, .ok (some id), _ => some id
  | .registerInvocationWithId id _ _, .ok _, _ => some id
  | .setInvocationStatus id status _, .ok _, hand =>
      if makesAvailable status then some id else drop id hand
  | .setInvocationStatus id _ _, .error _, hand => drop id hand
  | .routeInvocationWithOptions id _ _ _, .ok _, hand => drop id hand
  | .routeInvocationAfter id _ _ _ _, .ok _, hand => drop id hand
  | _, _, hand => hand

/-- The calls that fail on the in-memory backends at most for a reason the caller
looks at: unknown invocations and refused status changes, and what user code does. -/
def mayFail : PortCall → Bool
  | .getInvocationStatus _ | .setInvocationStatus _ _ _ | .getInvocation _ | .getCall _
  | .retrieveInvocationForLanguageFromQueue _ _ | .middlewareBefore _ _
  | .publicationSubmit _ | .publicationChange _ _ _ _
  | .publicationBeginExecution _ _ _ _ => true
  | _ => false

/-- How operations keep hold of invocations.  One at a time; a held one is only
claimed, denied or routed. -/
def delivery : Discipline ports Operation (Option InvocationId) where
  start _ := none
  next := nextHand
  pre
    | .retrieveInvocationForLanguageFromQueue _ _, hand => hand = none
    | .registerInvocationWithId _ _ _, hand => hand = none
    | .setInvocationStatus id status runnerId, hand =>
        hand = none ∨ (hand = some id ∧ letsGo status ∧ (status = .pending → runnerId ≠ none))
    | _, _ => True
  resp c _ r := mayFail c = false → ∃ a, r = .ok a

/-! ## Calls that have nothing to do with hands -/

/-- The calls that move an invocation between queue, hands and status. -/
def handles : PortCall → Bool
  | .retrieveInvocationForLanguageFromQueue _ _ | .registerInvocationWithId _ _ _
  | .setInvocationStatus _ _ _ | .routeInvocationWithOptions _ _ _ _
  | .routeInvocationAfter _ _ _ _ _ => true
  | _ => false

variable {c : PortCall}

theorem quiet_of_not_handles (h : handles c = false) : delivery.Quiet c := by
  intro hand
  cases c <;> first | (simp [handles] at h; done) | exact ⟨trivial, fun _ => rfl⟩

theorem lookups_quiet : Lookups delivery.Quiet :=
  ⟨fun _ => quiet_of_not_handles rfl, fun _ => quiet_of_not_handles rfl⟩

theorem identities_quiet : Identities delivery.Quiet :=
  ⟨fun _ => quiet_of_not_handles rfl, fun _ _ => quiet_of_not_handles rfl,
    fun _ => quiet_of_not_handles rfl⟩

variable {hand : Option InvocationId} {d : Deployment} {id : InvocationId} {runnerId : RunnerId}
  {status : InvocationStatus}

/-- A quiet call that cannot fail, then the rest. -/
theorem obeysE_quiet_bind {β : Type} (hquiet : handles c = false) (htotal : mayFail c = false)
    {f : c.Ans → Orch β} {Q : β → Option InvocationId → Prop}
    {E : RustvelloError → Option InvocationId → Prop}
    (hf : ∀ a, delivery.ObeysE (f a) Q E hand) : delivery.ObeysE (port c >>= f) Q E hand := by
  obtain ⟨hpre, hnext⟩ := quiet_of_not_handles hquiet hand
  refine obeysE_port_bind.mpr ⟨hpre, fun a _ => ?_, fun e hr => ?_⟩
  · rw [hnext]
    exact hf a
  · obtain ⟨a, ha⟩ := hr htotal
    cases ha

/-- A quiet call that cannot fail, as the last one. -/
theorem obeysE_quiet (hquiet : handles c = false) (htotal : mayFail c = false)
    (hand : Option InvocationId) :
    delivery.ObeysE (port c) (fun _ hand' => hand' = hand) (fun _ _ => False) hand := by
  obtain ⟨hpre, hnext⟩ := quiet_of_not_handles hquiet hand
  refine obeysE_port.mpr ⟨hpre, fun r hr => ?_⟩
  obtain ⟨a, rfl⟩ := hr htotal
  exact hnext _

theorem terminalEffects_obeys (d : Deployment) (id : InvocationId) (status : InvocationStatus)
    (hand : Option InvocationId) :
    delivery.ObeysE (terminalEffects d id status) (fun _ hand' => hand' = hand)
      (fun _ _ => False) hand := by
  unfold terminalEffects
  split
  · refine obeysE_quiet_bind rfl rfl fun _ => ?_
    split
    · exact obeysE_quiet rfl rfl hand
    · rfl
  · rfl

theorem reportPublishedStatus_obeys (d : Deployment) (id : InvocationId)
    (status : InvocationStatus) (taskId : TaskId) (arguments : SerializedArguments)
    (hand : Option InvocationId) :
    delivery.ObeysE (reportPublishedStatus d id status taskId arguments)
      (fun _ hand' => hand' = hand) (fun _ _ => False) hand := by
  unfold reportPublishedStatus
  split
  · exact obeysE_quiet rfl rfl hand
  · rfl

/-! ## Operations and their hands -/

/-- The hand of an operation is empty or holds this invocation. -/
def AtMost (id : InvocationId) (hand : Option InvocationId) : Prop :=
  hand = none ∨ hand = some id

@[simp] theorem drop_of_atMost {id : InvocationId} {hand : Option InvocationId}
    (h : AtMost id hand) : drop id hand = none := by
  rcases h with rfl | rfl <;> simp [drop]

/-- The hand after an accepted status write. -/
def heldAfter (id : InvocationId) (status : InvocationStatus) : Option InvocationId :=
  if makesAvailable status then some id else none

/-- A status write that the discipline permits leaves the hand empty, except that
an invocation that was just made available is held until it is routed. -/
structure MayWrite (id : InvocationId) (status : InvocationStatus)
    (hand : Option InvocationId) : Prop where
  atMost : AtMost id hand
  letsGo : hand = some id → letsGo status

theorem MayWrite.of_empty (id : InvocationId) (status : InvocationStatus) :
    MayWrite id status none :=
  ⟨.inl rfl, fun h => by cases h⟩

theorem setInvocationStatus_call_obeys {runnerId : Option RunnerId} (h : MayWrite id status hand)
    (hrunner : status = .pending → runnerId ≠ none) :
    delivery.ObeysE (port (.setInvocationStatus id status runnerId))
      (fun _ hand' => hand' = heldAfter id status) (fun _ hand' => hand' = none) hand := by
  refine obeysE_port.mpr ⟨?_, fun r _ => ?_⟩
  · rcases h.atMost with rfl | rfl
    · exact .inl rfl
    · exact .inr ⟨rfl, h.letsGo rfl, hrunner⟩
  · cases r with
    | error e => exact drop_of_atMost h.atMost
    | ok record =>
        change (if makesAvailable status then some id else drop id hand) = heldAfter id status
        rw [drop_of_atMost h.atMost]
        rfl

variable {taskId : TaskId}

theorem setInvocationStatusWithContext_obeys (hd : d.publication = false)
    {arguments : SerializedArguments} (h : MayWrite id status hand) :
    delivery.ObeysE (setInvocationStatusWithContext d id status runnerId taskId arguments)
      (fun _ hand' => hand' = heldAfter id status) (fun _ hand' => hand' = none) hand := by
  unfold setInvocationStatusWithContext
  rw [if_neg (by simp [hd])]
  refine (setInvocationStatus_call_obeys h (by simp)).bind ?_
  rintro record _ rfl
  refine (terminalEffects_obeys d id status _).bind_of_total ?_
  rintro _ _ rfl
  refine obeysE_quiet_bind rfl rfl fun _ => ?_
  refine (reportPublishedStatus_obeys d id status taskId arguments _).bind_of_total ?_
  rintro _ _ rfl
  rfl

/-- Looking up the trigger context neither fails nor changes the hand. -/
theorem triggerContextFor_obeys (d : Deployment) (id : InvocationId)
    (hand : Option InvocationId) :
    delivery.ObeysE (triggerContextFor d id) (fun _ hand' => hand' = hand) (fun _ _ => False)
      hand := by
  unfold triggerContextFor getTriggerContext
  split
  · refine obeysE_attempt_bind.mpr (obeysE_port.mpr ⟨trivial, ?_⟩)
    rintro (_ | invocation) _
    · rfl
    · refine obeysE_attempt_bind.mpr (obeysE_port.mpr ⟨trivial, ?_⟩)
      rintro (_ | call) _ <;> rfl
  · rfl

theorem setInvocationStatus_obeys (hd : d.publication = false) (h : MayWrite id status hand) :
    delivery.ObeysE (setInvocationStatus d id status runnerId)
      (fun _ hand' => hand' = heldAfter id status) (fun _ hand' => hand' = none) hand := by
  unfold Orchestration.setInvocationStatus
  refine (triggerContextFor_obeys d id hand).bind_of_total ?_
  rintro context _ rfl
  exact setInvocationStatusWithContext_obeys hd h

theorem routeInvocationWithOptions_obeys (taskId : Option TaskId) (queue : String) (priority : F64)
    (h : AtMost id hand) :
    delivery.ObeysE (port (.routeInvocationWithOptions id taskId queue priority))
      (fun _ hand' => hand' = none) (fun _ _ => False) hand := by
  refine obeysE_port.mpr ⟨trivial, fun r hr => ?_⟩
  obtain ⟨a, rfl⟩ := hr rfl
  exact drop_of_atMost h

theorem routeInvocationAfter_obeys (taskId : Option TaskId) (queue : String) (priority : F64)
    (delayMs : Nat) (h : AtMost id hand) :
    delivery.ObeysE (port (.routeInvocationAfter id taskId queue priority delayMs))
      (fun _ hand' => hand' = none) (fun _ _ => False) hand := by
  refine obeysE_port.mpr ⟨trivial, fun r hr => ?_⟩
  obtain ⟨a, rfl⟩ := hr rfl
  exact drop_of_atMost h

theorem submitWithId_obeys (hd : d.publication = false) (s : Submission) :
    delivery.ObeysE (submitWithId d s) (fun _ hand => hand = none) (fun _ hand => hand = none)
      none := by
  unfold submitWithId
  split
  · rfl
  · refine obeysE_quiet_bind rfl rfl fun now => ?_
    rw [if_neg (by simp [hd])]
    unfold submitOrdered
    refine Discipline.obeysE_bind.mpr (obeysE_port_bind.mpr ⟨rfl, fun record _ => ?_, ?_⟩)
    · refine obeysE_quiet_bind rfl rfl fun _ => ?_
      refine obeysE_quiet_bind rfl rfl fun _ => ?_
      refine obeysE_quiet_bind rfl rfl fun _ => ?_
      refine (routeInvocationWithOptions_obeys _ _ _ (.inr rfl)).mono ?_ fun _ _ h => h.elim
      intro _ _ h
      exact h
    · intro e hr
      obtain ⟨a, ha⟩ := hr rfl
      cases ha

/-! ### Dispatch -/

theorem denyByReroute_obeys (hd : d.publication = false) {config : TaskConfig}
    (h : AtMost id hand) :
    delivery.ObeysE (denyByReroute d id taskId config runnerId) (fun _ hand' => hand' = none)
      (fun _ hand' => hand' = none) hand := by
  unfold denyByReroute
  rw [if_neg (by simp [hd])]
  refine obeysE_attempt_bind.mpr
    ((setInvocationStatus_call_obeys ⟨h, fun _ => .inr (.inl rfl)⟩ (by simp)).mono ?_ ?_)
  · rintro record _ rfl
    refine (setInvocationStatus_call_obeys (.of_empty _ _) (by simp)).bind ?_
    rintro _ _ rfl
    exact (routeInvocationWithOptions_obeys _ _ _ (.inr rfl)).mono (fun _ _ h => h)
      fun _ _ h => h.elim
  · rintro e _ rfl
    dsimp only
    split <;> rfl

theorem denyFinally_obeys (h : AtMost id hand) :
    delivery.ObeysE (denyFinally id) (fun _ hand' => hand' = none)
      (fun _ hand' => hand' = none) hand := by
  unfold denyFinally
  refine obeysE_attempt_bind.mpr
    ((setInvocationStatus_call_obeys ⟨h, fun _ => .inr (.inr rfl)⟩ (by simp)).mono ?_ ?_)
  · rintro record _ rfl
    rfl
  · rintro e _ rfl
    dsimp only
    split <;> rfl

theorem denyCandidate_obeys (hd : d.publication = false) {config : TaskConfig}
    (h : AtMost id hand) :
    delivery.ObeysE (denyCandidate d id taskId config runnerId) (fun _ hand' => hand' = none)
      (fun _ hand' => hand' = none) hand := by
  unfold denyCandidate
  split
  · exact denyByReroute_obeys hd h
  · exact denyFinally_obeys h

/-- An admitted candidate stays in hand; a denied one does not. -/
theorem admitCandidate_obeys (hd : d.publication = false) (h : AtMost id hand) :
    delivery.ObeysE (admitCandidate d id runnerId)
      (fun admitted hand' => hand' = if admitted then hand else none)
      (fun _ hand' => hand' = none) hand := by
  unfold admitCandidate
  refine obeysE_attempt_bind.mpr (obeysE_port.mpr ⟨trivial, ?_⟩)
  rintro (e | invocation) _
  · rfl
  · dsimp only [Discipline.outcome_ok]
    split
    · rfl
    · split
      · rfl
      · refine obeysE_attempt_bind.mpr (obeysE_port.mpr ⟨trivial, ?_⟩)
        rintro (e | call) _
        · rfl
        · refine obeysE_quiet_bind (c := .tryAcquireConcurrencySlot _ _ _ _) rfl rfl
            fun admitted => ?_
          cases admitted with
          | true => rfl
          | false =>
              refine (denyCandidate_obeys hd h).bind ?_
              rintro _ _ rfl
              rfl

/-- Waited-for candidates are not dequeued: no hand holds them. -/
theorem admitBlocking_obeys (hd : d.publication = false) (language : TaskLanguage)
    (runnerId : RunnerId) (ids : List InvocationId) :
    delivery.ObeysE (admitBlocking d language runnerId ids) (fun _ hand => hand = none)
      (fun _ hand => hand = none) none := by
  induction ids with
  | nil => rfl
  | cons id rest ih =>
      unfold admitBlocking
      refine Discipline.ObeysE.bind_of_uses (lookups_quiet.candidateMatchesLanguage id language)
        (fun _ => rfl) fun isMatch => ?_
      cases isMatch with
      | false => exact ih
      | true =>
          refine (admitCandidate_obeys hd (.inl rfl)).bind ?_
          rintro admitted _ rfl
          cases admitted with
          | true => rfl
          | false => exact ih

/-- What a retrieval answered is in hand. -/
theorem retrieveFromQueues_obeys (language : TaskLanguage) (queues : List String) :
    delivery.ObeysE (retrieveFromQueues language queues) (fun found hand => hand = found)
      (fun _ hand => hand = none) none := by
  induction queues with
  | nil => rfl
  | cons queue rest ih =>
      refine obeysE_port_bind.mpr ⟨rfl, fun found _ => ?_, fun e _ => rfl⟩
      cases found with
      | none => exact ih
      | some id => rfl

theorem claimFromBroker_obeys (hd : d.publication = false) (language : TaskLanguage)
    (runnerId : RunnerId) (n : Nat) :
    delivery.ObeysE (claimFromBroker d language runnerId n) (fun found hand => hand = found)
      (fun _ hand => hand = none) none := by
  induction n with
  | zero => rfl
  | succ n ih =>
      refine obeysE_quiet_bind (c := .queueNamesForRetrieval _) rfl rfl fun queues => ?_
      refine (retrieveFromQueues_obeys language queues).bind ?_
      rintro _ found rfl
      cases found with
      | none => rfl
      | some id =>
          refine (admitCandidate_obeys hd (.inr rfl)).bind ?_
          rintro admitted _ rfl
          cases admitted with
          | true => rfl
          | false => exact ih

/-- A claimed invocation was dequeued and is in hand, or it was waited for. -/
theorem claimNext_obeys (hd : d.publication = false) (language : TaskLanguage)
    (runnerId : RunnerId) :
    delivery.ObeysE (claimNext d language runnerId)
      (fun found hand => hand = none ∨ hand = found) (fun _ hand => hand = none) none := by
  have hbroker := (claimFromBroker_obeys hd language runnerId maxCcRetries).mono
    (fun found hand (h : hand = found) => (.inr h : hand = none ∨ hand = found)) fun _ _ h => h
  unfold claimNext
  refine obeysE_attempt_bind.mpr (obeysE_port.mpr ⟨trivial, ?_⟩)
  rintro (e | blocking) _
  · exact hbroker
  · refine (admitBlocking_obeys hd language runnerId blocking).bind ?_
    rintro found _ rfl
    cases found with
    | none => exact hbroker
    | some id => exact .inl rfl

/-! ### Execution -/

/-- An operation that starts and ends with an empty hand, however it ends. -/
def KeepsEmpty {α : Type} (p : Orch α) : Prop :=
  delivery.ObeysE p (fun _ hand => hand = none) (fun _ hand => hand = none) none

namespace KeepsEmpty

variable {α β : Type}

theorem bind {p : Orch α} {f : α → Orch β} (hp : KeepsEmpty p) (hf : ∀ a, KeepsEmpty (f a)) :
    KeepsEmpty (p >>= f) := by
  refine Discipline.ObeysE.bind hp ?_
  rintro a _ rfl
  exact hf a

theorem attempt {p : Orch α} (hp : KeepsEmpty p) : KeepsEmpty (attempt p) := by
  refine Discipline.obeysE_lift.mpr (Discipline.Obeys.mono hp ?_)
  rintro (e | a) hand h
  · exact h
  · exact h

theorem of_uses {p : Orch α} (hp : Prog.UsesE delivery.Answers delivery.Quiet p) : KeepsEmpty p :=
  Discipline.ObeysE.of_uses hp none

theorem port {c : PortCall} (h : handles c = false) : KeepsEmpty (port c) :=
  of_uses (usesE_port (quiet_of_not_handles h))

theorem pure (a : α) : KeepsEmpty (Pure.pure a : Orch α) :=
  rfl

theorem throw (e : RustvelloError) : KeepsEmpty (MonadExcept.throw e : Orch α) :=
  rfl

end KeepsEmpty

section Execution

variable {d : Deployment} (hd : d.publication = false) (id : InvocationId) (runnerId : RunnerId)
  {recoveryStatus : InvocationStatus} (worker : RunnerId) (taskId : TaskId) (resuming : Bool)
  (arguments : SerializedArguments)
include hd

theorem keepsEmpty_setInvocationStatus {id : InvocationId} {status : InvocationStatus}
    {runnerId : RunnerId} (h : ¬ makesAvailable status) :
    KeepsEmpty (setInvocationStatus d id status runnerId) := by
  refine (setInvocationStatus_obeys hd (.of_empty id status)).mono ?_ fun _ _ h => h
  rintro _ _ rfl
  simp [heldAfter, h]

theorem keepsEmpty_setInvocationStatusWithContext {id : InvocationId}
    {status : InvocationStatus} {runnerId : RunnerId} {taskId : TaskId}
    {arguments : SerializedArguments} (h : ¬ makesAvailable status) :
    KeepsEmpty (setInvocationStatusWithContext d id status runnerId taskId arguments) := by
  refine (setInvocationStatusWithContext_obeys hd (.of_empty id status)).mono ?_ fun _ _ h => h
  rintro _ _ rfl
  simp [heldAfter, h]

theorem keepsEmpty_setInvocationResultWithContext (result : String) (runnerId : RunnerId)
    (taskId : TaskId) (arguments : SerializedArguments) :
    KeepsEmpty (setInvocationResultWithContext d id result runnerId taskId arguments) := by
  unfold setInvocationResultWithContext commitResult
  rw [if_neg (by simp [hd])]
  refine KeepsEmpty.bind (.bind (.port rfl) fun _ => .bind
    (keepsEmpty_setInvocationStatusWithContext hd (by decide)) fun _ => .pure _) fun _ => ?_
  split
  · exact .port rfl
  · exact .pure _

theorem keepsEmpty_setInvocationExceptionWithContext (errorType errorMessage : String)
    (runnerId : RunnerId) (taskId : TaskId) (arguments : SerializedArguments) :
    KeepsEmpty (setInvocationExceptionWithContext d id errorType errorMessage runnerId taskId
      arguments) := by
  unfold setInvocationExceptionWithContext commitException
  rw [if_neg (by simp [hd])]
  refine KeepsEmpty.bind (.bind (.port rfl) fun _ => .bind
    (keepsEmpty_setInvocationStatusWithContext hd (by decide)) fun _ => .pure _) fun _ => ?_
  split
  · exact .port rfl
  · exact .pure _

/-- A retry holds the invocation from its status write to its route. -/
theorem keepsEmpty_setInvocationRetryAfterWithContext (queueName : String) (priority : F64)
    (delayMs : Nat) :
    KeepsEmpty (setInvocationRetryAfterWithContext d id runnerId taskId arguments queueName
      priority delayMs) := by
  unfold setInvocationRetryAfterWithContext setInvocationRetryWithContext
  rw [if_neg (c := d.publication = true) (by simp [hd]),
    if_neg (c := d.publication = true) (by simp [hd])]
  split
  · refine (setInvocationStatusWithContext_obeys hd (.of_empty id .retry)).bind ?_
    rintro _ _ rfl
    refine obeysE_quiet_bind rfl rfl fun _ => ?_
    exact (routeInvocationWithOptions_obeys _ _ _ (.inr rfl)).mono (fun _ _ h => h)
      fun _ _ h => h.elim
  · refine (setInvocationStatusWithContext_obeys hd (.of_empty id .retry)).bind ?_
    rintro _ _ rfl
    refine obeysE_quiet_bind rfl rfl fun _ => ?_
    exact (routeInvocationAfter_obeys _ _ _ _ (.inr rfl)).mono (fun _ _ h => h)
      fun _ _ h => h.elim

theorem keepsEmpty_releaseSlot :
    KeepsEmpty (releaseNontransactionalConcurrencySlot d id) := by
  unfold releaseNontransactionalConcurrencySlot
  rw [if_neg (by simp [hd])]
  exact .port rfl

theorem keepsEmpty_settleOutcome (written : RustvelloResult Unit) {accepted : Orch Unit}
    (h : KeepsEmpty accepted) :
    KeepsEmpty (settleOutcome d id worker written accepted) := by
  refine .bind (.of_uses (usesE_discardedOutcome (fun _ => quiet_of_not_handles rfl) _ _ _)) ?_
  rintro (_ | reason)
  · exact h
  · dsimp only
    unfold finishDiscarded
    split
    · exact .pure _
    · exact .bind (.attempt (keepsEmpty_releaseSlot hd id)) fun _ => .pure _

theorem keepsEmpty_releaseFinished : KeepsEmpty (releaseFinished d id) :=
  .bind (.attempt (keepsEmpty_releaseSlot hd id)) fun _ => .pure _

theorem keepsEmpty_finishAttempt (base resolved : TaskConfig) (retryCount attemptNumber : Nat)
    (outcome : AttemptOutcome) :
    KeepsEmpty (finishAttempt d id worker taskId arguments base resolved retryCount attemptNumber
      outcome) := by
  unfold finishAttempt
  split
  · exact .bind (.attempt (keepsEmpty_releaseSlot hd id)) fun _ => .pure _
  · split
    · exact .bind (.attempt (keepsEmpty_setInvocationResultWithContext hd _ _ _ _ _)) fun _ =>
        keepsEmpty_settleOutcome hd _ _ _ (keepsEmpty_releaseFinished hd id)
    · dsimp only
      split
      · unfold finishRetry
        split
        · exact .throw _
        · refine .bind (keepsEmpty_releaseSlot hd id) fun _ => .bind (.port rfl) fun unit => ?_
          exact .bind (.attempt (keepsEmpty_setInvocationRetryAfterWithContext hd _ _ _ _ _ _ _))
            fun _ => keepsEmpty_settleOutcome hd _ _ _ (.pure _)
      · exact .bind (.attempt (keepsEmpty_setInvocationExceptionWithContext hd _ _ _ _ _ _))
          fun _ => keepsEmpty_settleOutcome hd _ _ _ (keepsEmpty_releaseFinished hd id)

theorem keepsEmpty_executeClaimed :
    KeepsEmpty (executeClaimed d id worker) := by
  refine .bind (keepsEmpty_setInvocationStatus hd (by decide)) fun _ => ?_
  refine .bind (.port rfl) fun invocation => .bind (.port rfl) fun call => ?_
  split
  · exact .bind (.attempt (keepsEmpty_setInvocationExceptionWithContext hd _ _ _ _ _ _))
      fun _ => keepsEmpty_settleOutcome hd _ _ _ (keepsEmpty_releaseFinished hd id)
  · refine .bind (.port rfl) fun history => ?_
    refine .bind (.of_uses (identities_quiet.beginExecution hd _ _ _ _)) fun identity => ?_
    refine .bind (.port rfl) fun _ => .bind (.port rfl) fun outcome => ?_
    exact keepsEmpty_finishAttempt hd _ _ _ _ _ _ _ _ _

theorem executeInvocation_obeys {hand : Option InvocationId} (h : AtMost id hand) :
    delivery.ObeysE (executeInvocation d id worker) (fun _ hand' => hand' = none)
      (fun _ hand' => hand' = none) hand := by
  unfold executeInvocation
  refine obeysE_attempt_bind.mpr
    ((setInvocationStatus_obeys hd ⟨h, fun _ => .inl rfl⟩).mono ?_ ?_)
  · rintro record _ rfl
    exact keepsEmpty_executeClaimed hd id worker
  · rintro e _ rfl
    dsimp only
    split
    · exact keepsEmpty_releaseSlot hd id
    · exact KeepsEmpty.bind (.attempt (keepsEmpty_releaseSlot hd id)) fun _ => .throw _

theorem keepsEmpty_workerRound (language : TaskLanguage) (worker : RunnerId) :
    KeepsEmpty (workerRound d language worker) := by
  refine (claimNext_obeys hd language worker).bind ?_
  rintro found hand hfound
  cases found with
  | none => rcases hfound with rfl | rfl <;> rfl
  | some id => exact executeInvocation_obeys hd id worker hfound

/-! ### Maintenance -/

theorem keepsEmpty_takeOver (h : ¬ makesAvailable recoveryStatus) :
    KeepsEmpty (takeOver d id runnerId recoveryStatus resuming) := by
  unfold takeOver
  split
  · exact .pure _
  · refine .bind (.attempt (keepsEmpty_setInvocationStatus hd h)) ?_
    rintro (e | record)
    · dsimp only
      split
      · exact .pure _
      · exact .throw _
    · exact .pure _

theorem keepsEmpty_failRecoveryLimit (previous : Nat) (h : ¬ makesAvailable recoveryStatus) :
    KeepsEmpty (failRecoveryLimit d id runnerId recoveryStatus resuming previous) := by
  refine .bind (keepsEmpty_takeOver hd _ _ _ h) fun taken => ?_
  split
  · exact .bind (.port rfl) fun _ =>
      .bind (keepsEmpty_setInvocationStatus hd (by decide)) fun _ => .pure _
  · exact .pure _

theorem keepsEmpty_recoverOrdered (route : PublicationRoute) (h : ¬ makesAvailable recoveryStatus) :
    KeepsEmpty (recoverOrdered d id runnerId taskId recoveryStatus resuming route) := by
  refine .bind (keepsEmpty_takeOver hd _ _ _ h) fun taken => ?_
  split
  · refine (setInvocationStatus_obeys hd (.of_empty id .rerouted)).bind ?_
    rintro _ _ rfl
    refine (routeInvocationWithOptions_obeys _ _ _ (.inr rfl)).bind_of_total ?_
    rintro _ _ rfl
    rfl
  · exact .pure _

theorem keepsEmpty_recoverOne (id : InvocationId) (h : ¬ makesAvailable recoveryStatus) :
    KeepsEmpty (recoverOne d runnerId id recoveryStatus) := by
  unfold recoverOne
  refine .bind (.port rfl) fun invocation => .bind (.port rfl) fun current => ?_
  refine .bind (.of_uses (usesE_recoveryCount (fun _ => quiet_of_not_handles rfl) id))
    fun previous => ?_
  dsimp only
  generalize (if isRecoveryStatus current.status = true then previous else previous + 1)
    = attempts
  split
  · exact keepsEmpty_failRecoveryLimit hd _ _ _ _ h
  · split
    · exact .throw _
    · rw [if_neg (by simp [hd])]
      exact keepsEmpty_recoverOrdered hd _ _ _ _ _ h

theorem keepsEmpty_cancelInvocation :
    KeepsEmpty (cancelInvocation d id runnerId) := by
  unfold cancelInvocation
  refine .bind (.port rfl) fun current => ?_
  split
  · exact .pure _
  · refine .bind (.attempt (keepsEmpty_setInvocationStatus hd (by decide))) ?_
    rintro (error | record)
    · dsimp only
      split
      · refine .bind (.port rfl) fun now => ?_
        split <;> exact .pure _
      · exact .throw _
    · exact .bind (.attempt (keepsEmpty_releaseSlot hd id)) fun _ => .pure _

end Execution

/-! ## Runs -/

theorem program_obeys (hd : d.publication = false) {op : Operation} (h : Considered op) :
    delivery.Obeys (op.program d) (fun _ hand => hand = none) none := by
  have htoUnit : ∀ {α : Type} {p : Orch α}, KeepsEmpty p →
      delivery.Obeys p.run.toUnit (fun _ hand => hand = none) none := by
    intro α p hp
    refine Discipline.Obeys.toUnit (Discipline.Obeys.mono hp ?_)
    rintro (e | a) hand h
    · exact h
    · exact h
  cases op with
  | submit submission => exact htoUnit (submitWithId_obeys hd submission)
  | work language worker => exact htoUnit (keepsEmpty_workerRound hd language worker)
  | recover runnerId id status =>
      refine htoUnit (keepsEmpty_recoverOne hd runnerId id ?_)
      revert h
      change isRecoveryStatus status = true → _
      revert status
      decide
  | cancel id runnerId => exact htoUnit (keepsEmpty_cancelInvocation hd id runnerId)
  | waitFor waiter waitedOn => exact htoUnit (.port (c := .setWaitingFor waiter waitedOn) rfl)
  | evaluateTriggers runnerId => exact h.elim

/-- Every call succeeds or fails only with a status-machine error: routes are valid. -/
def healthy : Guard ports MemRuntime Operation where
  start _ op := Considered op
  call _ _ c := ∀ route ∈ c.route?, validateRouting route.1 route.2 = .ok ()

instance (s : System ports MemRuntime Operation) (op : Operation) :
    Decidable (healthy.start s op) :=
  inferInstanceAs (Decidable (Considered op))

instance (s : System ports MemRuntime Operation) (i : Nat) (c : PortCall) :
    Decidable (healthy.call s i c) :=
  inferInstanceAs (Decidable (∀ route ∈ c.route?, validateRouting route.1 route.2 = .ok ()))

/-- The denials the transition table refuses in an available status. -/
def Strands (current target : InvocationStatus) : Prop :=
  (current = .retry ∧
    (target = .concurrencyControlled ∨ target = .concurrencyControlledFinal)) ∨
  (current = .rerouted ∧ target = .concurrencyControlledFinal)

instance (current target : InvocationStatus) : Decidable (Strands current target) :=
  inferInstanceAs (Decidable (_ ∨ _))

/-- No candidate in an operation's hand is denied in a status that refuses the denial. -/
def noStrandingDenial : Guard ports MemRuntime Operation where
  start _ _ := True
  call s i c := ∀ write ∈ c.statusWrite?, ∀ t ∈ s.threads[i]?, delivery.book t = some write.1 →
    ∀ current ∈ s.shared.orchestrator.statusOf write.1, ¬ Strands current write.2

instance (s : System ports MemRuntime Operation) (op : Operation) :
    Decidable (noStrandingDenial.start s op) :=
  inferInstanceAs (Decidable True)

instance (s : System ports MemRuntime Operation) (i : Nat) (c : PortCall) :
    Decidable (noStrandingDenial.call s i c) :=
  inferInstanceAs (Decidable (∀ write ∈ c.statusWrite?, ∀ t ∈ s.threads[i]?, _ → _))

/-- Every available invocation has a queue entry or is in some hand. -/
def Delivered (s : MemRuntime) (hands : List (Option InvocationId)) : Prop :=
  ∀ id status, s.orchestrator.statusOf id = some status → status.isAvailableForRun = true →
    s.broker.Queued id ∨ some id ∈ hands

/-! ### What one call does to deliveries -/

theorem canTransitionTo_of_not_strands {current target : InvocationStatus}
    (havail : current.isAvailableForRun = true) (hgo : letsGo target)
    (h : ¬ Strands current target) : current.canTransitionTo target = true := by
  have hall : ∀ current target : InvocationStatus, current.isAvailableForRun = true →
      (target = .pending ∨ target = .concurrencyControlled ∨
        target = .concurrencyControlledFinal) →
      ¬ Strands current target → current.canTransitionTo target = true := by
    decide
  exact hall current target havail hgo h

/-- The ownership rule refuses no candidate that is available. -/
theorem ownershipOk_of_available {current : InvocationStatusRecord} {target : InvocationStatus}
    {runnerId : Option RunnerId} (havail : current.status.isAvailableForRun = true)
    (hrunner : target = .pending → runnerId ≠ none) : OwnershipOk current target runnerId := by
  right
  refine ⟨fun howned => ?_, fun hacquires => ?_⟩
  · rw [InvocationStatus.requiresOwnership_iff] at howned
    rw [InvocationStatus.isAvailableForRun_iff] at havail
    rcases howned with h | h | h <;> rw [h] at havail <;> simp at havail
  · exact hrunner ((InvocationStatus.acquiresOwnership_iff target).mp hacquires)

theorem exec_frame (env : Env) (h : handles c = false) (s : MemRuntime) :
    (MemRuntime.exec env c s).2.orchestrator.statusRecords = s.orchestrator.statusRecords ∧
      (MemRuntime.exec env c s).2.broker = s.broker := by
  cases c <;> first | (simp [handles] at h; done) | exact ⟨rfl, rfl⟩ | skip
  · exact ⟨s.orchestrator.tryAcquireConcurrencySlot_statusRecords _ _ _ _, rfl⟩
  · exact ⟨s.orchestrator.removeFromConcurrencyIndex_statusRecords _, rfl⟩

theorem exec_total (env : Env) (h : mayFail c = false) {pool : System ports MemRuntime Operation}
    {i : Nat} (hroute : healthy.call pool i c) (s : MemRuntime) :
    ∃ a, (MemRuntime.exec env c s).1 = .ok a := by
  cases c <;> first | (simp [mayFail] at h; done) | exact ⟨_, rfl⟩ | skip
  · exact ⟨(), by simp [MemRuntime.exec, MemBroker.routeInvocationWithOptions,
      show validateRouting _ _ = _ from hroute _ rfl]⟩
  · exact ⟨(), by simp [MemRuntime.exec, MemBroker.routeInvocationAfter,
      show validateRouting _ _ = _ from hroute _ rfl]⟩

section Calls

variable {s : MemRuntime} {before after : List (Option InvocationId)}
  {hand : Option InvocationId}

theorem mem_hands {hand' x : Option InvocationId} (hx : x ∈ before ++ hand :: after)
    (hne : x ≠ hand) : x ∈ before ++ hand' :: after := by
  simp only [List.mem_append, List.mem_cons] at hx ⊢
  rcases hx with h | h | h
  · exact .inl h
  · exact absurd h hne
  · exact .inr (.inr h)

/-- A dropped hand only gives up its own invocation. -/
theorem mem_hands_drop {id x : InvocationId} (hx : some x ∈ before ++ hand :: after)
    (hne : x ≠ id) : some x ∈ before ++ drop id hand :: after := by
  by_cases hhand : hand = some id
  · refine mem_hands hx ?_
    rw [hhand]
    exact fun h => hne (Option.some.inj h)
  · rw [drop, if_neg hhand]
    exact hx

theorem delivered_register (hinv : Delivered s (before ++ none :: after)) (env : Env)
    (id : InvocationId) (call : CallDTO) (runnerId : Option RunnerId) :
    Delivered (MemRuntime.exec env (.registerInvocationWithId id call runnerId) s).2
      (before ++ some id :: after) := by
  intro x status hstatus havail
  by_cases hx : x = id
  · subst hx
    exact .inr (by simp)
  · have hold : s.orchestrator.statusOf x = some status := by
      rw [s.orchestrator.statusOf_of_insert id _ rfl x, if_neg hx] at hstatus
      exact hstatus
    exact (hinv x status hold havail).imp (fun h => h) fun h => mem_hands h (by simp)

theorem delivered_retrieve (hinv : Delivered s (before ++ none :: after)) (env : Env)
    (language : TaskLanguage) (queue : String) :
    Delivered (MemRuntime.exec env (.retrieveInvocationForLanguageFromQueue language queue) s).2
      (before ++ nextHand (.retrieveInvocationForLanguageFromQueue language queue)
        (MemRuntime.exec env (.retrieveInvocationForLanguageFromQueue language queue) s).1
        none :: after) := by
  obtain ⟨e, h⟩ | h | ⟨id, b', h, -, hkeeps, -⟩ :=
    s.broker.retrieve_cases env.clock language queue
  · simp only [MemRuntime.exec, h]
    exact hinv
  · simp only [MemRuntime.exec, h]
    exact hinv
  · simp only [MemRuntime.exec, h]
    intro x status hstatus havail
    change b'.Queued x ∨ some x ∈ before ++ some id :: after
    by_cases hx : x = id
    · subst hx
      exact .inr (by simp)
    · exact (hinv x status hstatus havail).imp (hkeeps x hx) fun h => mem_hands h (by simp)

theorem delivered_route (hinv : Delivered s (before ++ hand :: after)) (env : Env)
    (id : InvocationId) (taskId : Option TaskId) {queue : String} {priority : F64}
    (hvalid : validateRouting queue priority = .ok ()) :
    Delivered (MemRuntime.exec env (.routeInvocationWithOptions id taskId queue priority) s).2
      (before ++ drop id hand :: after) := by
  intro x status hstatus havail
  have hqueued := s.broker.queued_routeInvocationWithOptions id taskId hvalid x
  by_cases hx : id = x
  · exact .inl (hqueued.mpr (.inr hx))
  · exact (hinv x status hstatus havail).imp (fun h => hqueued.mpr (.inl h))
      fun h => mem_hands_drop h (Ne.symm hx)

theorem delivered_routeAfter (hinv : Delivered s (before ++ hand :: after)) (env : Env)
    (id : InvocationId) (taskId : Option TaskId) {queue : String} {priority : F64}
    (delayMs : Nat) (hvalid : validateRouting queue priority = .ok ()) :
    Delivered (MemRuntime.exec env (.routeInvocationAfter id taskId queue priority delayMs) s).2
      (before ++ drop id hand :: after) := by
  intro x status hstatus havail
  have hqueued := s.broker.queued_routeInvocationAfter env.clock id taskId
    (MemBroker.nanoseconds delayMs) hvalid x
  by_cases hx : id = x
  · exact .inl (hqueued.mpr (.inr hx))
  · exact (hinv x status hstatus havail).imp (fun h => hqueued.mpr (.inl h))
      fun h => mem_hands_drop h (Ne.symm hx)

/-- **The step that could lose an invocation.**  A status write moves an available
invocation out of a hand only if it is accepted, or refused because the invocation
is not available; a stranding denial is the case in between. -/
theorem delivered_setInvocationStatus (hinv : Delivered s (before ++ hand :: after)) (env : Env)
    {id : InvocationId} {target : InvocationStatus} {runnerId : Option RunnerId}
    (hpre : hand = none ∨
      (hand = some id ∧ letsGo target ∧ (target = .pending → runnerId ≠ none)))
    (hdeny : ∀ current, hand = some id → s.orchestrator.statusOf id = some current →
      ¬ Strands current target) :
    Delivered (MemRuntime.exec env (.setInvocationStatus id target runnerId) s).2
      (before ++ nextHand (.setInvocationStatus id target runnerId)
        (MemRuntime.exec env (.setInvocationStatus id target runnerId) s).1 hand :: after) := by
  have hmost : AtMost id hand := hpre.imp (fun h => h) And.left
  obtain ⟨current, record, ccIndex, ccReverse, hlookup, htrans, h⟩ | ⟨current, e, hlookup, htrans, h⟩ |
    ⟨hlookup, h⟩ := s.orchestrator.setInvocationStatus_cases env.clock id target runnerId
  · simp only [MemRuntime.exec, h]
    obtain ⟨-, -, rfl⟩ := (statusRecordTransition_ok_iff _ _ _ _ _).mp htrans
    intro x status hstatus havail
    rw [s.orchestrator.statusOf_of_insert id _ rfl x] at hstatus
    by_cases hx : x = id
    · -- the written invocation: held if it was made available
      subst hx
      rw [if_pos rfl] at hstatus
      obtain rfl : target = status := Option.some.inj hstatus
      right
      have havailable : makesAvailable target := by
        rcases (InvocationStatus.isAvailableForRun_iff _).mp havail with rfl | hretry | hrerouted
        · exact absurd ((statusRecordTransition_ok_iff _ _ _ _ _).mp htrans).1
            (by rw [InvocationStatus.not_canTransitionTo_registered]; decide)
        · exact .inl hretry
        · exact .inr hrerouted
      simp [nextHand, havailable]
    · rw [if_neg hx] at hstatus
      refine (hinv x status hstatus havail).imp (fun h => h) fun h => ?_
      simp only [nextHand]
      split
      · refine mem_hands h ?_
        rcases hmost with rfl | rfl
        · simp
        · exact fun h => hx (Option.some.inj h)
      · exact mem_hands_drop h hx
  · simp only [MemRuntime.exec, h]
    intro x status hstatus havail
    rcases hinv x status hstatus havail with hqueued | hheld
    · exact .inl hqueued
    · by_cases hx : x = id
      · -- refused: then it is not the available invocation in this hand
        subst hx
        by_cases hhand : hand = some x
        · have hcurrent : s.orchestrator.statusOf x = some current.status := by
            rw [OrchestratorState.statusOf, hlookup]
            rfl
          obtain rfl : current.status = status := by
            rw [hcurrent] at hstatus
            exact Option.some.inj hstatus
          obtain ⟨-, hgo, hrunner⟩ := hpre.resolve_left (by rw [hhand]; simp)
          have hok := (statusRecordTransition_ok_iff env.clock current
            ⟨target, computeNewOwner (some current) target runnerId, env.clock⟩ target
            runnerId).mpr ⟨canTransitionTo_of_not_strands havail hgo (hdeny _ hhand hcurrent),
              ownershipOk_of_available havail hrunner, rfl⟩
          rw [hok] at htrans
          cases htrans
        · exact .inr (by
            simp only [nextHand, drop, if_neg hhand]
            exact hheld)
      · exact .inr (mem_hands_drop hheld hx)
  · simp only [MemRuntime.exec, h]
    intro x status hstatus havail
    have hx : x ≠ id := by
      rintro rfl
      rw [OrchestratorState.statusOf, hlookup] at hstatus
      cases hstatus
    exact (hinv x status hstatus havail).imp (fun h => h) fun h => mem_hands_drop h hx

end Calls

variable {s : System ports MemRuntime Operation}

/-- One call of the pool keeps every available invocation delivered. -/
theorem delivered_exec {i : Nat} {t : Thread ports Operation}
    {before after : List (Option InvocationId)} (env : Env) (ht : s.threads[i]? = some t)
    (hallowed : (healthy.and noStrandingDenial).call s i c)
    (hpre : delivery.pre c (delivery.book t))
    (hinv : Delivered s.shared (before ++ delivery.book t :: after)) :
    delivery.resp c (delivery.book t) (MemRuntime.exec env c s.shared).1 ∧
      Delivered (MemRuntime.exec env c s.shared).2
        (before ++ delivery.next c (MemRuntime.exec env c s.shared).1 (delivery.book t) ::
          after) := by
  obtain ⟨hhealthy, hdenial⟩ := hallowed
  refine ⟨fun htotal => exec_total env htotal hhealthy s.shared, ?_⟩
  by_cases hhandles : handles c = false
  · obtain ⟨hrecords, hbroker⟩ := exec_frame env hhandles s.shared
    rw [(quiet_of_not_handles hhandles _).2]
    intro x status hstatus havail
    rw [OrchestratorState.statusOf, hrecords] at hstatus
    rw [hbroker]
    exact hinv x status hstatus havail
  · cases c <;> first | exact absurd rfl hhandles | skip
    case registerInvocationWithId id call runnerId =>
        have hempty : delivery.book t = none := hpre
        rw [hempty] at hinv
        exact delivered_register hinv env id call runnerId
    case setInvocationStatus id target runnerId =>
        exact delivered_setInvocationStatus hinv env hpre fun current hhand hcurrent =>
          hdenial (id, target) rfl t ht hhand current hcurrent
    case routeInvocationWithOptions id taskId queue priority =>
        have hvalid : validateRouting queue priority = .ok () := hhealthy (queue, priority) rfl
        have := delivered_route hinv env id taskId hvalid
        obtain ⟨a, ha⟩ := exec_total (c := .routeInvocationWithOptions id taskId queue priority)
          env rfl hhealthy s.shared
        rw [ha]
        exact this
    case routeInvocationAfter id taskId queue priority delayMs =>
        have hvalid : validateRouting queue priority = .ok () := hhealthy (queue, priority) rfl
        have := delivered_routeAfter hinv env id taskId delayMs hvalid
        obtain ⟨a, ha⟩ := exec_total
          (c := .routeInvocationAfter id taskId queue priority delayMs) env rfl hhealthy s.shared
        rw [ha]
        exact this
    case retrieveInvocationForLanguageFromQueue language queue =>
        have hempty : delivery.book t = none := hpre
        rw [hempty] at hinv ⊢
        exact delivered_retrieve hinv env language queue

/-- In every run without a stranding denial all operations keep to `delivery`, and
every available invocation is queued or in a hand. -/
theorem reachable_delivered (hd : d.publication = false)
    (hreach : Reachable (memMachine d) (healthy.and noStrandingDenial) memStart s) :
    Discipline.AllObey delivery (fun hand => hand = none) s ∧
      Delivered s.shared (s.books delivery.toMonitor) := by
  refine delivery.invariant (fun hand => hand = none) Delivered ?_ ?_ ?_ ?_ hreach
  · intro _ _ hstart
    exact program_obeys hd hstart.1
  · refine ⟨by simp [Discipline.AllObey, memStart], ?_⟩
    intro x status hstatus
    simp [memStart, OrchestratorState.statusOf] at hstatus
  · intro _ _ _ hinv x status hstatus havail
    exact (hinv x status hstatus havail).imp (fun h => h) (List.mem_append_left _)
  · intro _ _ env _ _ _ _ hturn hinv
    exact delivered_exec env hturn.thread hturn.allowed hturn.permitted hinv

/-- Some operation that has not finished holds the invocation. -/
def Held (s : System ports MemRuntime Operation) (id : InvocationId) : Prop :=
  ∃ t ∈ s.threads, t.next?.isSome = true ∧ delivery.book t = some id

instance (s : System ports MemRuntime Operation) (id : InvocationId) : Decidable (Held s id) :=
  inferInstanceAs (Decidable (∃ t ∈ s.threads, _))

/-- **No lost delivery.**  In every interleaving of submitters, workers, recoveries,
cancellations and waits in which no candidate is denied in a status that refuses the
denial, every available invocation is queued or held by an operation in progress. -/
theorem delivered_of_denials {d : Deployment} (hd : d.publication = false)
    {s : System ports MemRuntime Operation}
    (hreach : Reachable (memMachine d) (healthy.and noStrandingDenial) memStart s)
    {id : InvocationId} {status : InvocationStatus}
    (hstatus : s.shared.orchestrator.statusOf id = some status)
    (havail : status.isAvailableForRun = true) :
    s.shared.broker.Queued id ∨ Held s id := by
  obtain ⟨hobeys, hdelivered⟩ := reachable_delivered hd hreach
  refine (hdelivered id status hstatus havail).imp (fun h => h) fun hmem => ?_
  obtain ⟨t, ht, hbook⟩ := List.mem_map.mp hmem
  refine ⟨t, ht, ?_, hbook⟩
  -- a finished operation has an empty hand
  have hob := hobeys t ht
  cases hprog : t.prog with
  | call c k => simp [Thread.next?, hprog]
  | done a =>
      rw [hprog] at hob
      have hempty : delivery.book t = none := hob
      rw [hempty] at hbook
      cases hbook

/-! ### A lost retry -/

/-- `a` and `b` are submitted, and the first worker's attempt of `a` fails: `a` is
in `retry` and queued behind `b`. -/
def failedAttempt : List (Label Env Operation) :=
  [.start (submitSerial "a"), .start (submitSerial "b")] ++ Label.steps 0 6 idleEnv ++
    Label.steps 1 6 idleEnv ++ .start (.work .rust ⟨"w1"⟩) ::
    Label.steps 2 24 { result := .error (.internal "boom") }

/-- A second worker takes `b` and its slot; a third one dequeues `a` and is denied. -/
def denial : List (Label Env Operation) :=
  .start (.work .rust ⟨"w2"⟩) :: Label.steps 3 9 idleEnv ++
    .start (.work .rust ⟨"w3"⟩) :: Label.steps 4 9 idleEnv

/-- The retried invocation is still there before the second worker takes the slot. -/
theorem delivered_failedAttempt :
    ∃ s, Reachable (memMachine serialDeployment) (healthy.and noStrandingDenial) memStart s ∧
      s.shared.orchestrator.statusOf ⟨"a"⟩ = some .retry ∧
      (s.shared.broker.Queued ⟨"a"⟩ ∨ Held s ⟨"a"⟩) := by
  obtain ⟨s, hreach, hstatus⟩ := Reachable.exists_of_run (memMachine serialDeployment)
    (healthy.and noStrandingDenial) memStart failedAttempt
    (fun s => s.shared.orchestrator.statusOf ⟨"a"⟩ = some .retry)
    (by decide +kernel) (by decide +kernel)
  exact ⟨s, hreach, hstatus, delivered_of_denials rfl hreach hstatus rfl⟩

/-- **A denied retry is lost.**  `retry → concurrencyControlled` is not a transition,
the refusal is swallowed, and the entry is gone: nobody holds `a` any more. -/
theorem retryDenied_lost :
    ∃ s, Reachable (memMachine serialDeployment) healthy memStart s ∧
      s.shared.orchestrator.statusOf ⟨"a"⟩ = some .retry ∧
      ¬ s.shared.broker.Queued ⟨"a"⟩ ∧ ¬ Held s ⟨"a"⟩ := by
  exact Reachable.exists_of_run (memMachine serialDeployment) healthy memStart
    (failedAttempt ++ denial)
    (fun s => s.shared.orchestrator.statusOf ⟨"a"⟩ = some .retry ∧
      ¬ s.shared.broker.Queued ⟨"a"⟩ ∧ ¬ Held s ⟨"a"⟩)
    (by decide +kernel) (by decide +kernel)

end Rustvello.Mem
