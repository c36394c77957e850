import Rustvello.Orchestration.Calls
import Rustvello.Orchestration.Recovery
import Rustvello.Orchestration.Retrieval
import Rustvello.Orchestration.Routing

/-!
# Which statuses the operations of a runner write

For each operation that a runner or a client can start, the statuses it asks for.  A
discipline that looks at some of them only passes over every operation that asks for none
of these.  Recovery passes are left out: what they ask for depends on what they list.
-/

namespace Rustvello.Orchestration

open Concurrency Proto Rustvello.Core

/-- A status write asks for one of these. -/
def WritesStatus (targets : InvocationStatus → Prop) : runnerPorts.Op → Prop
  | .inl (.setInvocationStatus _ status _) => targets status
  | _ => True

/-- A status write asks for one of these; no call asks for stale invocations. -/
def Writes (targets : InvocationStatus → Prop) : runnerPorts.Op → Prop
  | .inl (.setInvocationStatus _ status _) => targets status
  | .inr (.getStalePendingInvocations _) | .inr (.getStaleRunningInvocations _) => False
  | _ => True

/-- `Truthful`, among the calls of runners. -/
def RunnerTruthful : (c : runnerPorts.Op) → runnerPorts.Ret c → Prop
  | .inl c, r => Truthful c r
  | .inr _, _ => True

section Writes

variable {targets : InvocationStatus → Prop} {d : Deployment} {α β : Type} {p : Orch α}
  (id : InvocationId)

/-- A part of the orchestrator that writes only these statuses. -/
abbrev WritesOnly (targets : InvocationStatus → Prop) (p : Orch α) : Prop :=
  Prog.UsesE Truthful (fun c => Writes targets (.inl c)) p

theorem writesOnly_of_updates {id : InvocationId} {runner : RunnerId}
    (h : Prog.UsesE Truthful (Updates targets id runner) p) : WritesOnly targets p := by
  refine Prog.Uses.mono h (fun _ _ h => h) fun c hc => ?_
  cases c <;> first | trivial | exact hc.2.1

theorem writesOnly_of_actsOn {id : InvocationId} {runner : RunnerId}
    (h : Prog.UsesE Truthful (ActsOn targets id runner) p) : WritesOnly targets p := by
  refine Prog.Uses.mono h (fun _ _ h => h) fun c hc => ?_
  rcases hc with hc | hc
  · cases c <;> first | trivial | exact hc.2.1
  · cases c <;> trivial

/-- What admission may write about a candidate it denies. -/
structure DenialTargets (targets : InvocationStatus → Prop) : Prop where
  controlled : targets .concurrencyControlled
  final : targets .concurrencyControlledFinal
  rerouted : targets .rerouted

theorem DenialTargets.writesOnly (h : DenialTargets targets)
    (hp : Prog.UsesE Truthful Dispatches p) : WritesOnly targets p := by
  refine Prog.Uses.mono hp (fun _ _ h => h) fun c hc => ?_
  cases c <;> first | trivial | skip
  case setInvocationStatus id status runnerId =>
      obtain ⟨-, rfl | rfl | rfl⟩ := hc
      · exact h.controlled
      · exact h.final
      · exact h.rerouted

theorem submitWithId_writesOnly (hd : d.publication = false) (s : Submission) :
    WritesOnly targets (submitWithId d s) := by
  refine Prog.Uses.mono (submitWithId_submits hd s) (fun _ _ h => h) fun c hc => ?_
  cases c <;> trivial

theorem workerRound_writesOnly (hd : d.publication = false) (hdenial : DenialTargets targets)
    (hattempt : AttemptTargets targets) (hpending : targets .pending) (language : TaskLanguage)
    (worker : RunnerId) : WritesOnly targets (workerRound d language worker) := by
  refine Prog.usesE_bind (hdenial.writesOnly (claimNext_dispatches hd language worker)) ?_
  rintro (_ | id)
  · exact usesE_pure _
  · have hrelease : WritesOnly targets (releaseNontransactionalConcurrencySlot d id) :=
      writesOnly_of_updates (releaseSlot_updates hd id worker)
    refine Prog.usesE_bind (usesE_attempt (writesOnly_of_updates
      (setInvocationStatus_updates hd id worker hpending))) ?_
    rintro (e | record)
    · dsimp only
      split
      · exact hrelease
      · exact Prog.usesE_bind (usesE_attempt hrelease) fun _ => usesE_throw _
    · exact writesOnly_of_actsOn (executeClaimed_actsOn hd id worker hattempt)

/-! ### Creation writes no status -/

theorem reportPublishedStatus_writesOnly (status : InvocationStatus) (taskId : TaskId)
    (arguments : SerializedArguments) :
    WritesOnly targets (reportPublishedStatus d id status taskId arguments) := by
  have hreports : Reports fun c => Writes targets (.inl c) :=
    ⟨fun _ _ _ _ => trivial, fun _ _ _ _ => trivial, fun _ _ _ _ _ => trivial⟩
  exact hreports.reportPublishedStatus d id status taskId arguments

theorem createInvocation_writesOnly (invocation : InvocationDTO) (call : CallDTO)
    (runnerId : RunnerId) : WritesOnly targets (createInvocation d invocation call runnerId) := by
  refine Prog.usesE_bind (usesE_port trivial) fun _ => ?_
  refine Prog.usesE_bind (usesE_port trivial) fun record => ?_
  exact Prog.usesE_bind (usesE_port trivial) fun _ => reportPublishedStatus_writesOnly _ _ _ _

theorem registerInvocations_writesOnly (hd : d.publication = false)
    (invocations : List (InvocationDTO × CallDTO)) (runnerId : RunnerId)
    (routes : List (String × F64)) :
    WritesOnly targets (registerInvocations d invocations runnerId routes) := by
  have hcreate : ∀ invocations, WritesOnly targets (createAll d runnerId invocations) := by
    intro invocations
    induction invocations with
    | nil => exact usesE_pure _
    | cons entry rest ih =>
        exact Prog.usesE_bind (createInvocation_writesOnly entry.1 entry.2 runnerId) fun _ => ih
  have hroute : ∀ routed, WritesOnly targets (routeAll routed) := by
    intro routed
    induction routed with
    | nil => exact usesE_pure _
    | cons entry rest ih => exact Prog.usesE_bind (usesE_port trivial) fun _ => ih
  unfold registerInvocations
  split
  · exact usesE_throw _
  · rw [if_neg (by simp [hd])]
    exact Prog.usesE_bind (hcreate invocations) fun _ => hroute _

theorem publishTriggerRun_writesOnly (hd : d.publication = false) (run : TriggerRunRecord)
    (id : InvocationId) (runnerId : RunnerId) (route : PublicationRoute) :
    WritesOnly targets (publishTriggerRun d run id runnerId route) := by
  have hrecord : WritesOnly targets (recordRegistered id runnerId) := by
    refine Prog.usesE_bind (usesE_port trivial) fun history => ?_
    split
    · exact usesE_pure _
    · exact Prog.usesE_bind (usesE_port trivial) fun _ => usesE_port trivial
  have hcomplete : ∀ call, WritesOnly targets (completePublication run id call runnerId route) := by
    intro call
    refine Prog.usesE_bind (usesE_port trivial) fun now => ?_
    refine Prog.usesE_bind (usesE_port trivial) fun _ => ?_
    exact Prog.usesE_bind hrecord fun _ => usesE_port trivial
  have hexisting : WritesOnly targets (existingStatus id) := by
    refine Prog.usesE_bind (usesE_attempt (usesE_port trivial)) ?_
    rintro (e | record)
    · dsimp only
      split
      · exact usesE_pure _
      · exact usesE_throw _
    · exact usesE_pure _
  unfold publishTriggerRun
  refine Prog.usesE_bind hexisting fun existing => ?_
  rw [if_neg (by simp [hd])]
  cases existing with
  | none => exact Prog.usesE_bind (usesE_port trivial) fun _ => hcomplete _
  | some status =>
      dsimp only
      split
      · exact hcomplete _
      · exact usesE_pure _

theorem triggerLoopIteration_writesOnly (hd : d.publication = false) (runnerId : RunnerId) :
    WritesOnly targets (triggerLoopIteration d runnerId) := by
  have hcomplete : ∀ key id, WritesOnly targets (completeTriggerRun key id) := by
    intro key id
    refine Prog.usesE_bind (usesE_port trivial) ?_
    rintro (_ | run)
    · exact usesE_pure _
    · exact Prog.usesE_bind (usesE_port trivial) fun _ => usesE_port trivial
  have hpublish : ∀ runs, WritesOnly targets (publishPending d runnerId runs) := by
    intro runs
    induction runs with
    | nil => exact usesE_pure _
    | cons run rest ih =>
        unfold publishPending
        split
        · refine Prog.usesE_bind (publishTriggerRun_writesOnly hd run _ runnerId _) fun _ => ?_
          exact Prog.usesE_bind (hcomplete _ _) fun _ => ih
        · exact ih
  unfold triggerLoopIteration
  split
  · refine Prog.usesE_bind (usesE_port trivial) fun firings => ?_
    refine Prog.usesE_bind (usesE_port trivial) fun now => ?_
    refine Prog.usesE_bind (usesE_port trivial) fun _ => ?_
    exact Prog.usesE_bind (usesE_port trivial) fun runs => hpublish runs
  · exact usesE_pure _

/-! ### Operations with calls of their own -/

/-- An operation of a runner that writes only these statuses. -/
abbrev RunnerWritesOnly (targets : InvocationStatus → Prop) (p : Runner α) : Prop :=
  Prog.UsesE RunnerTruthful (Writes targets) p

theorem RunnerWritesOnly.lift (h : WritesOnly targets p) :
    RunnerWritesOnly targets (lift p) :=
  usesE_lift h

theorem RunnerWritesOnly.lift_bind {f : α → Runner β} (h : WritesOnly targets p)
    (hf : ∀ a, RunnerWritesOnly targets (f a)) : RunnerWritesOnly targets (Core.lift p >>= f) :=
  Prog.usesE_bind (usesE_lift h) hf

theorem RunnerWritesOnly.call_bind {c : RunnerCall} {f : c.Ans → Runner β}
    (hc : Writes targets (.inr c)) (hf : ∀ a, RunnerWritesOnly targets (f a)) :
    RunnerWritesOnly targets (runnerPort c >>= f) :=
  usesE_runnerPort_bind hc fun a _ => hf a

theorem routeCall_writesOnly (hd : d.publication = false) (r : RoutedCall) :
    RunnerWritesOnly targets (routeCall d r) := by
  have hcreate : RunnerWritesOnly targets (createAndRouteInvocation d r) := by
    unfold createAndRouteInvocation
    refine RunnerWritesOnly.lift_bind (usesE_port trivial) fun now => ?_
    rw [if_neg (by simp [hd])]
    refine RunnerWritesOnly.lift_bind (createInvocation_writesOnly _ _ _) fun _ => ?_
    split
    · refine RunnerWritesOnly.call_bind trivial fun _ => ?_
      exact RunnerWritesOnly.lift_bind (usesE_port trivial) fun _ => trivial
    · exact RunnerWritesOnly.lift_bind (usesE_port trivial) fun _ => trivial
  unfold routeCall
  split
  · exact Prog.usesE_bind hcreate fun _ => trivial
  · refine RunnerWritesOnly.call_bind trivial fun existing => ?_
    split
    · refine RunnerWritesOnly.lift_bind (usesE_port trivial) fun invocation => ?_
      split <;> trivial
    · exact Prog.usesE_bind hcreate fun _ => trivial

/-! ### Retrieval -/

theorem checkCcForInvocation_writesOnly :
    RunnerWritesOnly targets (checkCcForInvocation d id) := by
  refine RunnerWritesOnly.lift_bind (usesE_attempt (usesE_port trivial)) ?_
  rintro (e | invocation)
  · trivial
  · dsimp only
    split
    · trivial
    · split
      · trivial
      · refine RunnerWritesOnly.lift_bind (usesE_attempt (usesE_port trivial)) ?_
        rintro (e | call)
        · trivial
        · exact ⟨trivial, fun r _ => by cases r <;> trivial⟩

theorem recordClaim_writesOnly (runnerId : RunnerId) (record : InvocationStatusRecord) :
    WritesOnly targets (recordClaim d id runnerId record) := by
  have hlookups : Lookups fun c => Writes targets (.inl c) := ⟨fun _ => trivial, fun _ => trivial⟩
  refine Prog.usesE_bind (usesE_attempt (usesE_port trivial)) fun invocation => ?_
  refine Prog.usesE_bind (usesE_attempt (usesE_port trivial)) fun _ => ?_
  split
  · refine Prog.usesE_bind (hlookups.getInvocationArguments id) fun arguments => ?_
    exact Prog.usesE_bind (usesE_attempt (usesE_port trivial)) fun _ => usesE_pure _
  · exact usesE_pure _

theorem tryTransitionToPending_writesOnly (hpending : targets .pending) (id : InvocationId)
    (runnerId : RunnerId) (result : List InvocationId) :
    WritesOnly targets (tryTransitionToPending d id runnerId result) := by
  refine Prog.usesE_bind (usesE_attempt (usesE_port hpending)) ?_
  rintro (e | record)
  · dsimp only
    split
    · exact usesE_pure _
    · exact usesE_throw _
  · exact Prog.usesE_bind (recordClaim_writesOnly id runnerId record) fun _ => usesE_pure _

theorem retrieveBlocking_writesOnly (hpending : targets .pending) (maxNum : Nat)
    (runnerId : RunnerId) (result ids : List InvocationId) :
    RunnerWritesOnly targets (retrieveBlocking d maxNum runnerId result ids) := by
  induction ids generalizing result with
  | nil => trivial
  | cons id rest ih =>
      unfold retrieveBlocking
      split
      · trivial
      · refine RunnerWritesOnly.lift_bind (usesE_attempt (usesE_port trivial)) ?_
        rintro (e | record)
        · exact ih result
        · dsimp only
          split
          · exact ih result
          · refine Prog.usesE_bind (checkCcForInvocation_writesOnly id) fun cleared => ?_
            split
            · exact RunnerWritesOnly.lift_bind
                (tryTransitionToPending_writesOnly hpending id runnerId result) fun result =>
                ih result
            · exact ih result

theorem dequeueFirst_writesOnly (queues : List String) :
    RunnerWritesOnly targets (dequeueFirst queues) := by
  induction queues with
  | nil => trivial
  | cons queue rest ih =>
      refine RunnerWritesOnly.call_bind trivial ?_
      rintro (_ | id)
      · exact ih
      · trivial

theorem denyRetrieved_writesOnly (hd : d.publication = false) (hdenial : DenialTargets targets)
    (id : InvocationId) (runnerId : RunnerId) (rerouteIds : List InvocationId) :
    WritesOnly targets (denyRetrieved d id runnerId rerouteIds) := by
  have hdenied : ∀ written reroute, WritesOnly targets (denied rerouteIds written reroute) := by
    intro written reroute
    cases written with
    | ok _ => exact usesE_pure _
    | error e =>
        simp only [denied]
        split
        · exact usesE_pure _
        · exact usesE_throw _
  refine Prog.usesE_bind (usesE_attempt (usesE_port trivial)) ?_
  rintro (e | invocation)
  · exact usesE_pure _
  · dsimp only
    split
    · rw [if_neg (by simp [hd])]
      exact Prog.usesE_bind (usesE_attempt (usesE_port hdenial.controlled)) fun written =>
        hdenied written _
    · exact Prog.usesE_bind (usesE_attempt (usesE_port hdenial.final)) fun written =>
        hdenied written _

theorem retrieveFromBroker_writesOnly (hd : d.publication = false)
    (hdenial : DenialTargets targets) (hpending : targets .pending) (maxNum : Nat)
    (runnerId : RunnerId) (queues : List String) (n : Nat) (result rerouteIds : List InvocationId) :
    RunnerWritesOnly targets
      (retrieveFromBroker d maxNum runnerId queues n result rerouteIds) := by
  induction n generalizing result rerouteIds with
  | zero => trivial
  | succ n ih =>
      unfold retrieveFromBroker
      split
      · trivial
      · refine Prog.usesE_bind (dequeueFirst_writesOnly queues) ?_
        rintro (_ | id)
        · trivial
        · dsimp only
          split
          · exact ih _ _
          · refine RunnerWritesOnly.lift_bind (usesE_attempt (usesE_port trivial)) ?_
            rintro (e | record)
            · exact ih _ _
            · dsimp only
              split
              · refine Prog.usesE_bind (checkCcForInvocation_writesOnly id) fun cleared => ?_
                split
                · exact RunnerWritesOnly.lift_bind
                    (tryTransitionToPending_writesOnly hpending id runnerId result) fun _ => ih _ _
                · exact RunnerWritesOnly.lift_bind
                    (denyRetrieved_writesOnly hd hdenial id runnerId rerouteIds) fun _ => ih _ _
              · exact ih _ _

theorem rerouteDenied_writesOnly (hrerouted : targets .rerouted) (runnerId : RunnerId)
    (ids : List InvocationId) : WritesOnly targets (rerouteDenied d runnerId ids) := by
  induction ids with
  | nil => exact usesE_pure _
  | cons id rest ih =>
      refine Prog.usesE_bind (usesE_attempt (usesE_port hrerouted)) ?_
      rintro (e | record)
      · dsimp only
        split
        · exact ih
        · exact usesE_throw _
      · refine Prog.usesE_bind ?_ fun _ => ih
        refine Prog.usesE_bind (usesE_attempt (usesE_port trivial)) ?_
        rintro (e | invocation)
        · exact usesE_pure _
        · dsimp only
          split
          · exact usesE_pure _
          · exact Prog.usesE_bind (usesE_attempt (usesE_port trivial)) fun _ => usesE_pure _

theorem getInvocationsToRun_writesOnly (hd : d.publication = false)
    (hdenial : DenialTargets targets) (hpending : targets .pending) (maxNum : Nat)
    (runnerId : RunnerId) (queues : List String) :
    RunnerWritesOnly targets (getInvocationsToRun d maxNum runnerId queues) := by
  have hrest : ∀ result, RunnerWritesOnly targets (do
      let retrieved ← retrieveFromBroker d maxNum runnerId queues (maxNum * 2 + 8) result []
      lift (rerouteDenied d runnerId retrieved.2)
      pure retrieved.1) := by
    intro result
    refine Prog.usesE_bind
      (retrieveFromBroker_writesOnly hd hdenial hpending maxNum runnerId queues _ _ _) ?_
    intro retrieved
    exact RunnerWritesOnly.lift_bind (rerouteDenied_writesOnly hdenial.rerouted runnerId _)
      fun _ => trivial
  unfold getInvocationsToRun
  refine RunnerWritesOnly.lift_bind (usesE_attempt (usesE_port trivial)) ?_
  rintro (e | blocking)
  · exact hrest []
  · exact Prog.usesE_bind (retrieveBlocking_writesOnly hpending maxNum runnerId [] blocking) hrest

theorem Writes.status {c : runnerPorts.Op} (h : Writes targets c) : WritesStatus targets c := by
  rcases c with c | c
  · cases c <;> trivial
  · trivial

end Writes

/-! ### Recovery passes -/

section Passes

variable {targets : InvocationStatus → Prop} {d : Deployment}

/-- A pass makes the calls of its listings, and those of the recoveries. -/
theorem recoverStaleInvocations_uses {A : (c : runnerPorts.Op) → runnerPorts.Ret c → Prop}
    {P : runnerPorts.Op → Prop} (hlistings : ∀ c, P (.inr c)) (hclock : P (.inl .utcNow))
    (hstatus : ∀ id, P (.inl (.getInvocationStatus id))) (runnerId : RunnerId)
    (hrecover : ∀ id recoveryStatus, Prog.UsesE (fun c r => A (.inl c) r) (fun c => P (.inl c))
      (recoverOne d runnerId id recoveryStatus)) :
    Prog.UsesE A P (recoverStaleInvocations d runnerId) := by
  have hsince : ∀ status cutoff ids, Prog.UsesE (fun c r => A (.inl c) r) (fun c => P (.inl c))
      (interruptedSince status cutoff ids) := by
    intro status cutoff ids
    induction ids with
    | nil => exact usesE_pure _
    | cons id ids ih =>
        refine Prog.usesE_bind (usesE_attempt (usesE_port (hstatus id))) ?_
        rintro (e | record)
        · exact ih
        · refine Prog.usesE_bind ih fun found => ?_
          dsimp only
          split <;> exact usesE_pure _
  have hinterrupted : ∀ statuses, Prog.UsesE A P (interruptedRecoveries statuses) := by
    intro statuses
    induction statuses with
    | nil => trivial
    | cons entry rest ih =>
        obtain ⟨status, staleAfter⟩ := entry
        have hlist : Prog.UsesE A P (runnerPort (.getInvocationsByStatus status)) :=
          ⟨hlistings _, fun _ _ => trivial⟩
        refine Prog.usesE_bind (usesE_outcome hlist) ?_
        rintro (e | ids)
        · exact ih
        · refine Prog.usesE_bind (usesE_lift (usesE_port hclock)) fun now => ?_
          refine Prog.usesE_bind (usesE_lift (hsince status _ ids)) fun found => ?_
          exact Prog.usesE_bind ih fun others => trivial
  have hall : ∀ candidates, Prog.UsesE (fun c r => A (.inl c) r) (fun c => P (.inl c))
      (recoverAll d runnerId candidates) := by
    intro candidates
    induction candidates with
    | nil => exact usesE_pure _
    | cons entry rest ih =>
        refine Prog.usesE_bind (usesE_attempt (hrecover entry.1 entry.2)) fun written => ?_
        refine Prog.usesE_bind ih fun others => ?_
        split <;> exact usesE_pure _
  unfold recoverStaleInvocations
  refine usesE_runnerPort_bind (hlistings _) fun pending _ => ?_
  refine usesE_runnerPort_bind (hlistings _) fun running _ => ?_
  exact Prog.usesE_bind (hinterrupted _) fun interrupted => usesE_lift (hall _)

/-- A discipline without books: every status write asks for one of these. -/
def asking (targets : InvocationStatus → Prop) : Discipline runnerPorts Unit Unit where
  start _ := ()
  next _ _ _ := ()
  pre c _ := WritesStatus targets c
  resp c _ r := RunnerTruthful c r

theorem asking_of_writesOnly {α : Type} {p : Orch α} (h : WritesOnly targets p) :
    (asking targets).ObeysE (lift p) (fun _ _ => True) (fun _ _ => True) () := by
  refine (Discipline.ObeysE.of_keeps (K := fun _ => True)
    (Prog.Uses.mono (usesE_lift h) (fun _ _ ⟨_, h⟩ => h) fun c hc => ?_) trivial).mono
    (fun _ _ h => h) fun _ _ h => h
  exact fun _ _ => ⟨Writes.status hc, fun _ _ => trivial⟩

/-- What is found interrupted has a recovery status. -/
theorem interruptedRecoveries_asking {statuses : List (InvocationStatus × Nat)}
    (hstatuses : ∀ entry ∈ statuses, isRecoveryStatus entry.1 = true) :
    (asking targets).ObeysE (interruptedRecoveries statuses)
      (fun found _ => ∀ entry ∈ found, isRecoveryStatus entry.2 = true) (fun _ _ => True) () := by
  induction statuses with
  | nil => exact fun entry hentry => by cases hentry
  | cons entry rest ih =>
      obtain ⟨status, staleAfter⟩ := entry
      have hstatus := hstatuses (status, staleAfter) List.mem_cons_self
      have hrest := ih fun x hx => hstatuses x (List.mem_cons_of_mem _ hx)
      have hsince : ∀ cutoff ids, (asking targets).left.ObeysE (interruptedSince status cutoff ids)
          (fun found _ => ∀ entry ∈ found, entry.2 = status) (fun _ _ => True) () := by
        intro cutoff ids
        induction ids with
        | nil => exact fun entry hentry => by cases hentry
        | cons id ids ihids =>
            unfold interruptedSince
            refine obeysE_attempt_bind.mpr (obeysE_port.mpr ⟨trivial, ?_⟩)
            rintro (e | record) _
            · exact ihids
            · refine Discipline.ObeysE.bind ihids fun found _ hfound => ?_
              split
              · exact List.forall_mem_cons.mpr ⟨rfl, hfound⟩
              · exact hfound
      unfold interruptedRecoveries
      refine obeysE_outcome_bind.mpr ⟨trivial, ?_⟩
      rintro (e | ids) _
      · exact hrest
      · refine Discipline.ObeysE.bind (R := fun _ _ => True)
          (obeysE_lift.mpr (obeysE_port.mpr ⟨trivial, ?_⟩)) ?_
        · rintro (e | now) _ <;> trivial
        intro now _ _
        refine Discipline.ObeysE.bind (obeysE_lift.mpr (hsince _ ids)) ?_
        intro found _ hfound
        refine Discipline.ObeysE.bind hrest ?_
        intro others _ hothers entry hentry
        rcases List.mem_append.mp hentry with hentry | hentry
        · rw [hfound entry hentry]
          exact hstatus
        · exact hothers entry hentry

theorem recoverAll_writesOnly (hd : d.publication = false)
    (hrecovery : ∀ status, isRecoveryStatus status = true → targets status)
    (hfailed : targets .failed) (hrerouted : targets .rerouted) (runnerId : RunnerId)
    {candidates : List (InvocationId × InvocationStatus)}
    (hcandidates : ∀ entry ∈ candidates, isRecoveryStatus entry.2 = true) :
    WritesOnly targets (recoverAll d runnerId candidates) := by
  induction candidates with
  | nil => exact usesE_pure _
  | cons entry rest ih =>
      have hentry := hrecovery _ (hcandidates entry List.mem_cons_self)
      refine Prog.usesE_bind (usesE_attempt (writesOnly_of_actsOn
        (recoverOne_actsOn hd entry.1 runnerId hentry hfailed hrerouted))) fun written => ?_
      refine Prog.usesE_bind (ih fun x hx => hcandidates x (List.mem_cons_of_mem _ hx)) ?_
      intro others
      split <;> exact usesE_pure _

theorem recoverStaleInvocations_writes (hd : d.publication = false)
    (hrecovery : ∀ status, isRecoveryStatus status = true → targets status)
    (hfailed : targets .failed) (hrerouted : targets .rerouted) (runnerId : RunnerId) :
    Prog.UsesE RunnerTruthful (WritesStatus targets) (recoverStaleInvocations d runnerId) := by
  have hobeys : (asking targets).ObeysE (recoverStaleInvocations d runnerId) (fun _ _ => True)
      (fun _ _ => True) () := by
    unfold recoverStaleInvocations
    refine obeysE_runnerPort_bind.mpr ⟨trivial, fun pending _ => ?_, fun _ _ => trivial⟩
    refine obeysE_runnerPort_bind.mpr ⟨trivial, fun running _ => ?_, fun _ _ => trivial⟩
    refine Discipline.ObeysE.bind (interruptedRecoveries_asking ?_) ?_
    · intro entry hentry
      simp only [List.mem_cons, List.not_mem_nil, or_false] at hentry
      obtain rfl | rfl := hentry <;> rfl
    intro interrupted _ hinterrupted
    refine asking_of_writesOnly (recoverAll_writesOnly hd hrecovery hfailed hrerouted runnerId ?_)
    intro entry hentry
    rcases List.mem_append.mp hentry with hentry | hentry
    · rcases List.mem_append.mp hentry with hentry | hentry
      · obtain ⟨id, _, rfl⟩ := List.mem_map.mp hentry
        rfl
      · obtain ⟨id, _, rfl⟩ := List.mem_map.mp hentry
        rfl
    · exact hinterrupted entry hentry
  exact Discipline.Obeys.uses hobeys (fun _ _ h => h) fun _ _ _ h => h

end Passes

end Rustvello.Orchestration
