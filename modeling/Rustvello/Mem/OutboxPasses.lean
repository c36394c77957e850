import Rustvello.Orchestration.Operations
import Rustvello.Queue.Passes

/-!
# Draining the trigger outbox

`trigger_loop_iteration`, called again and again by one runner while no trigger fires.
Each call looks at the `PENDING_TRIGGER_RUN_BATCH` oldest pending runs, leaves those whose
task is not in its routes map where they are, and ends at the first publication that is
refused.

* `Unrouted`, `Publishable` — what a call skips, and what it would publish;
* `RunSettled` — published, and attached to its run;
* `publishTriggerRun_ends`, `publishPending_ends` — one publication, one batch;
* `pending_calls` — after some calls the pending runs are what as many passes over the head
  of the queue leave (`Queue.passes`);
* `settled_iff` — which publishable runs the calls settle;
* `publishable_run_starves` — a refused run at the head holds back every run behind it.
-/

namespace Rustvello.Mem

open Concurrency Proto Rustvello.Core Orchestration Queue

/-! ## Calls with nothing to claim -/

/-- Nothing fires, and the hash map of the runs keeps its iteration order: storing a run
under a key that is there does not change it. -/
abbrev StillEnv (order : List String) :=
  { env : Env // env.firings = [] ∧ env.runOrder = order }

instance (order : List String) : Nonempty (StillEnv order) :=
  ⟨⟨{ runOrder := order }, rfl, rfl⟩⟩

abbrev execStill (order : List String) (env : StillEnv order) :
    (c : PortCall) → MemRuntime → RustvelloResult c.Ans × MemRuntime :=
  MemRuntime.exec env.1

/-- The states after `n` complete calls of one runner, failed ones included. -/
def AfterCalls (d : Deployment) (runnerId : RunnerId) (order : List String) :
    Nat → MemRuntime → MemRuntime → Prop
  | 0, s, s' => s' = s
  | n + 1, s, s' => ∃ t, AfterCalls d runnerId order n s t ∧
      ∃ r, Prog.EndsE (execStill order) (triggerLoopIteration d runnerId) t r s'

/-- The outbox in the order in which the calls look at it. -/
def pendingRuns (order : List String) (t : TriggerState) : List TriggerRunRecord :=
  (((arrange order t.runs.keys).filterMap fun key => t.runs.lookup key).filter
    TriggerRunRecord.isPending).insertionSort fun left right => left.claimedAt ≤ right.claimedAt

/-- The task is not in the routes map. -/
def Unrouted (d : Deployment) (run : TriggerRunRecord) : Bool :=
  (d.catalog.routingFor d.appConfig run.taskId).isNone

/-- The publication of an invocation is accepted: it is past `registered`, so that nothing is
left to do, or its route is valid. -/
def RouteAccepted (s : MemRuntime) (id : InvocationId) (queue : String) (priority : F64) : Prop :=
  (∃ status ∈ s.orchestrator.statusOf id, status ≠ .registered) ∨
    validateRouting queue priority = .ok ()

instance (s : MemRuntime) (id : InvocationId) (queue : String) (priority : F64) :
    Decidable (RouteAccepted s id queue priority) :=
  inferInstanceAs (Decidable (_ ∨ _))

/-- The publication of a run is accepted. -/
def Publishable (d : Deployment) (s : MemRuntime) (run : TriggerRunRecord) : Bool :=
  match run.plannedInvocationId, d.catalog.routingFor d.appConfig run.taskId with
  | some id, some (queue, priority) => decide (RouteAccepted s id queue priority)
  | _, _ => false

/-- The invocation is published: a worker has moved it on, or it is registered, stored,
recorded and queued. -/
structure Published (s : MemRuntime) (id : InvocationId) : Prop where
  known : (s.orchestrator.statusOf id).isSome
  stored : s.orchestrator.statusOf id = some .registered →
    (s.backend.invocations.lookup id).isSome
  recorded : s.orchestrator.statusOf id = some .registered →
    ∃ entry ∈ s.backend.historyOf id, entry.statusRecord.status = .registered
  queued : s.orchestrator.statusOf id = some .registered → s.broker.Queued id

/-- The planned invocation is published, and attached to the run. -/
def RunSettled (s : MemRuntime) (run : TriggerRunRecord) : Prop :=
  ∃ id ∈ run.plannedInvocationId, Published s id ∧
    ∃ stored ∈ s.triggers.runs.lookup run.triggerRunId, stored.triggeredInvocationId = some id

/-! ## One publication -/

/-- What publications do beside the outbox: invocations are registered, and what is published
stays so. -/
structure Publishes (s s' : MemRuntime) : Prop where
  status : ∀ x, s'.orchestrator.statusOf x = s.orchestrator.statusOf x ∨
    s.orchestrator.statusOf x = none ∧ s'.orchestrator.statusOf x = some .registered
  published : ∀ x, Published s x → Published s' x

namespace Publishes

variable {s s' s'' : MemRuntime} {d : Deployment}

theorem refl (s : MemRuntime) : Publishes s s :=
  ⟨fun _ => .inl rfl, fun _ h => h⟩

theorem trans (h : Publishes s s') (h' : Publishes s' s'') : Publishes s s'' where
  status x := by
    rcases h.status x with heq | ⟨hnone, hregistered⟩
    · rw [← heq]
      exact h'.status x
    · rcases h'.status x with heq' | ⟨hnone', -⟩
      · exact .inr ⟨hnone, heq'.trans hregistered⟩
      · rw [hregistered] at hnone'
        cases hnone'
  published x hx := h'.published x (h.published x hx)

/-- Publications do not decide over each other. -/
theorem routeAccepted_iff (h : Publishes s s') (id : InvocationId) (queue : String)
    (priority : F64) :
    RouteAccepted s' id queue priority ↔ RouteAccepted s id queue priority := by
  unfold RouteAccepted
  rcases h.status id with heq | ⟨hnone, hregistered⟩
  · rw [heq]
  · rw [hnone, hregistered]
    simp

theorem publishable (h : Publishes s s') : Publishable d s' = Publishable d s := by
  funext run
  unfold Publishable
  split
  · exact decide_eq_decide.mpr (h.routeAccepted_iff _ _ _)
  · rfl

end Publishes

section Publication

variable {d : Deployment} {order : List String} {s s' : MemRuntime} {run : TriggerRunRecord}
  {id : InvocationId} {runnerId : RunnerId} {route : PublicationRoute} {r : RustvelloResult Unit}

/-- The `registered` entry is there when `record_registered` has ended. -/
theorem recordRegistered_ends (hstatus : s.orchestrator.statusOf id = some .registered)
    (h : Prog.EndsE (execStill order) (recordRegistered id runnerId) s r s') :
    r = .ok () ∧ ∃ backend, s' = { s with backend := backend } ∧
      backend.invocations = s.backend.invocations ∧
      (∀ x, ∀ entry ∈ s.backend.historyOf x, entry ∈ backend.historyOf x) ∧
      ∃ entry ∈ backend.historyOf id, entry.statusRecord.status = .registered := by
  obtain ⟨env, history, t, hread, h⟩ | ⟨env, e, hread, -⟩ := endsE_port_bind.mp h
  swap
  · cases hread
  cases hread
  split at h
  · rename_i hfound
    obtain ⟨rfl, rfl⟩ := Prog.endsE_pure.mp h
    obtain ⟨entry, hentry, hregistered⟩ := List.any_eq_true.mp hfound
    exact ⟨rfl, _, rfl, rfl, fun _ _ hx => hx, entry, hentry, by simpa using hregistered⟩
  · obtain ⟨record, hrecord, hregistered⟩ := Option.map_eq_some_iff.mp hstatus
    obtain ⟨env, found, t, hget, h⟩ | ⟨env, e, hget, -⟩ := endsE_port_bind.mp h
    swap
    · simp [MemRuntime.exec, OrchestratorState.getInvocationStatus, hrecord] at hget
    simp only [MemRuntime.exec, OrchestratorState.getInvocationStatus, hrecord, Prod.mk.injEq,
      Except.ok.injEq] at hget
    obtain ⟨rfl, rfl⟩ := hget
    obtain ⟨env, hwrite⟩ := endsE_port.mp h
    cases hwrite
    refine ⟨rfl, _, rfl, rfl, ?_, ?_⟩
    · intro x entry hentry
      by_cases hx : x = id
      · subst hx
        simp [BackendState.historyOf, BackendState.addHistory, InvocationHistory.new,
          InvocationHistory.withRunner] at hentry ⊢
        exact .inl hentry
      · simpa [BackendState.historyOf, BackendState.addHistory, InvocationHistory.new,
          InvocationHistory.withRunner, AList.lookup_insert_ne hx] using hentry
    · refine ⟨(InvocationHistory.new id record none).withRunner runnerId, ?_, hregistered⟩
      simp [BackendState.historyOf, BackendState.addHistory, InvocationHistory.new,
        InvocationHistory.withRunner]

/-- The writes after registration end with an error exactly when the route is refused. -/
theorem completePublication_ends {call : CallDTO}
    (hstatus : s.orchestrator.statusOf id = some .registered)
    (h : Prog.EndsE (execStill order) (completePublication run id call runnerId route) s r s') :
    s'.triggers = s.triggers ∧ Publishes s s' ∧ r = validateRouting route.queue route.priority ∧
      (r = .ok () → Published s' id) := by
  obtain ⟨env, now, t, hnow, h⟩ | ⟨env, e, hnow, -⟩ := endsE_port_bind.mp h
  swap
  · cases hnow
  cases hnow
  obtain ⟨env, _, t, hupsert, h⟩ | ⟨env, e, hupsert, -⟩ := endsE_port_bind.mp h
  swap
  · cases hupsert
  cases hupsert
  obtain ⟨_, t, hrecorded, h⟩ | ⟨e, hrecorded, -⟩ := Prog.endsE_bind.mp h
  swap
  · obtain ⟨he, -⟩ := recordRegistered_ends (by exact hstatus) hrecorded
    cases he
  obtain ⟨-, backend, rfl, hinvocations, hhistory, hentry⟩ :=
    recordRegistered_ends (by exact hstatus) hrecorded
  obtain ⟨env, hroute⟩ := endsE_port.mp h
  -- the new record beside those that were there
  have hstored : ∀ x, (s.backend.invocations.lookup x).isSome ∨ x = id →
      (backend.invocations.lookup x).isSome := by
    intro x hx
    rw [hinvocations]
    show (AList.lookup x (s.backend.invocations.insert id _)).isSome
    by_cases hid : x = id
    · rw [hid, AList.lookup_insert]
      rfl
    · rw [AList.lookup_insert_ne hid]
      exact hx.resolve_right hid
  have hkept : ∀ broker : MemBroker, (∀ x, s.broker.Queued x → broker.Queued x) →
      Publishes s { s with backend := backend, broker := broker } := by
    intro broker hbroker
    refine ⟨fun _ => .inl rfl, fun x hx => ⟨hx.known, ?_, ?_, ?_⟩⟩
    · exact fun hregistered => hstored x (.inl (hx.stored hregistered))
    · intro hregistered
      obtain ⟨entry, hmem, hentry⟩ := hx.recorded hregistered
      exact ⟨entry, hhistory x entry hmem, hentry⟩
    · exact fun hregistered => hbroker x (hx.queued hregistered)
  cases hvalid : validateRouting route.queue route.priority with
  | error e =>
      simp only [MemRuntime.exec, MemBroker.routeInvocationWithOptions, hvalid,
        Prod.mk.injEq] at hroute
      obtain ⟨rfl, rfl⟩ := hroute
      exact ⟨rfl, hkept s.broker fun _ hx => hx, rfl, fun hok => by cases hok⟩
  | ok a =>
      have hqueued := s.broker.queued_routeInvocationWithOptions id (some run.taskId) hvalid
      simp only [MemRuntime.exec, Prod.mk.injEq] at hroute
      obtain ⟨hr, rfl⟩ := hroute
      have hresult : r = .ok a := by
        rw [← hr]
        simp [MemBroker.routeInvocationWithOptions, hvalid]
      refine ⟨rfl, hkept _ fun x hx => (hqueued x).mpr (.inl hx), hresult, fun _ => ?_⟩
      exact ⟨by rw [show _ = some InvocationStatus.registered from hstatus]; rfl,
        fun _ => hstored id (.inr rfl), fun _ => hentry, fun _ => (hqueued id).mpr (.inr rfl)⟩

/-- The status read before a publication. -/
theorem existingStatus_ends {r : RustvelloResult (Option InvocationStatus)}
    (h : Prog.EndsE (execStill order) (existingStatus id) s r s') :
    s' = s ∧ r = .ok (s.orchestrator.statusOf id) := by
  obtain ⟨x, t, hread, h⟩ := endsE_attempt_bind.mp h
  obtain ⟨env, hread⟩ := endsE_port.mp hread
  cases hrecord : s.orchestrator.statusRecords.lookup id with
  | none =>
      simp only [MemRuntime.exec, OrchestratorState.getInvocationStatus, hrecord,
        Prod.mk.injEq] at hread
      obtain ⟨rfl, rfl⟩ := hread
      obtain ⟨rfl, rfl⟩ := Prog.endsE_pure.mp h
      exact ⟨rfl, by simp [OrchestratorState.statusOf, hrecord]⟩
  | some record =>
      simp only [MemRuntime.exec, OrchestratorState.getInvocationStatus, hrecord,
        Prod.mk.injEq] at hread
      obtain ⟨rfl, rfl⟩ := hread
      obtain ⟨rfl, rfl⟩ := Prog.endsE_pure.mp h
      exact ⟨rfl, by simp [OrchestratorState.statusOf, hrecord]⟩

/-- **One publication.**  It succeeds exactly when it is accepted, and then the invocation
is published. -/
theorem publishTriggerRun_ends (hd : d.publication = false)
    (h : Prog.EndsE (execStill order) (publishTriggerRun d run id runnerId route) s r s') :
    s'.triggers = s.triggers ∧ Publishes s s' ∧
      (r = .ok () ↔ RouteAccepted s id route.queue route.priority) ∧
      (r = .ok () → Published s' id) := by
  obtain ⟨existing, t, hread, h⟩ | ⟨e, hread, -⟩ := Prog.endsE_bind.mp h
  swap
  · cases (existingStatus_ends hread).2
  obtain ⟨rfl, hexisting⟩ := existingStatus_ends hread
  cases hexisting
  rw [if_neg (by simp [hd])] at h
  cases hstatus : t.orchestrator.statusOf id with
  | some status =>
      rw [hstatus] at h
      by_cases hregistered : status = .registered
      · subst hregistered
        obtain ⟨htriggers, hpublishes, rfl, hpublished⟩ := completePublication_ends hstatus h
        exact ⟨htriggers, hpublishes, by simp [RouteAccepted, hstatus], hpublished⟩
      · simp only [if_neg hregistered] at h
        obtain ⟨rfl, rfl⟩ := Prog.endsE_pure.mp h
        refine ⟨rfl, .refl _, iff_of_true rfl (.inl ⟨status, hstatus, hregistered⟩), fun _ => ?_⟩
        have hpast : s'.orchestrator.statusOf id ≠ some .registered := by
          rw [hstatus]
          simpa using hregistered
        exact ⟨by rw [hstatus]; rfl, fun h => absurd h hpast, fun h => absurd h hpast,
          fun h => absurd h hpast⟩
  | none =>
      rw [hstatus] at h
      obtain ⟨env, _, u, hregister, h⟩ | ⟨env, e, hregister, -⟩ := endsE_port_bind.mp h
      swap
      · cases hregister
      cases hregister
      -- registering shows an invocation that was unknown
      have hregisters : Publishes t (MemRuntime.exec env.1 (.registerInvocationWithId id
          (CallDTO.new d.sha256Hex run.taskId run.arguments) (some runnerId)) t).2 := by
        have hnew : ∀ x, OrchestratorState.statusOf (MemRuntime.exec env.1
            (.registerInvocationWithId id (CallDTO.new d.sha256Hex run.taskId run.arguments)
              (some runnerId)) t).2.orchestrator x =
            if x = id then some .registered else t.orchestrator.statusOf x := fun x =>
          t.orchestrator.statusOf_of_insert id ⟨.registered, some runnerId, env.1.clock⟩ rfl x
        refine ⟨fun x => ?_, fun x hx => ?_⟩
        · rw [hnew x]
          by_cases hid : x = id
          · exact .inr ⟨hid ▸ hstatus, if_pos hid⟩
          · exact .inl (if_neg hid)
        · have hid : x ≠ id := by
            rintro rfl
            have hknown := hx.known
            rw [hstatus] at hknown
            cases hknown
          have hsame := (hnew x).trans (if_neg hid)
          exact ⟨hsame ▸ hx.known, fun h => hx.stored (hsame ▸ h),
            fun h => hx.recorded (hsame ▸ h), fun h => hx.queued (hsame ▸ h)⟩
      have hregistered : (MemRuntime.exec env.1 (.registerInvocationWithId id
          (CallDTO.new d.sha256Hex run.taskId run.arguments) (some runnerId))
            t).2.orchestrator.statusOf id = some .registered :=
        (t.orchestrator.statusOf_of_insert id _ rfl id).trans (if_pos rfl)
      obtain ⟨htriggers, hpublishes, rfl, hpublished⟩ := completePublication_ends hregistered h
      exact ⟨htriggers, hregisters.trans hpublishes, by simp [RouteAccepted, hstatus], hpublished⟩

/-- Completing a stored run only attaches the invocation to it. -/
theorem completeTriggerRun_ends {runId : String} (hstored : s.triggers.runs.lookup runId = some run)
    (h : Prog.EndsE (execStill order) (completeTriggerRun runId id) s r s') :
    r = .ok () ∧ ∃ now, s' = { s with triggers := { s.triggers with
      runs := s.triggers.runs.insert run.triggerRunId
        { run with triggeredInvocationId := some id, executedAt := some now } } } := by
  obtain ⟨env, found, t, hread, h⟩ | ⟨env, e, hread, -⟩ := endsE_port_bind.mp h
  swap
  · cases hread
  simp only [MemRuntime.exec, hstored, Prod.mk.injEq, Except.ok.injEq] at hread
  obtain ⟨rfl, rfl⟩ := hread
  obtain ⟨env, now, t, hnow, h⟩ | ⟨env, e, hnow, -⟩ := endsE_port_bind.mp h
  swap
  · cases hnow
  cases hnow
  obtain ⟨env, hstore⟩ := endsE_port.mp h
  cases hstore
  exact ⟨rfl, _, rfl⟩

end Publication

/-! ## One batch -/

/-- These runs were published and completed; the others were left as they are. -/
structure Drains (settled : List TriggerRunRecord) (s s' : MemRuntime) : Prop where
  publishes : Publishes s s'
  completed : ∀ run ∈ settled, ∃ now, s'.triggers.runs.lookup run.triggerRunId = some
    { run with triggeredInvocationId := run.plannedInvocationId, executedAt := some now }
  others : ∀ key, (∀ run ∈ settled, run.triggerRunId ≠ key) →
    s'.triggers.runs.lookup key = s.triggers.runs.lookup key
  published : ∀ run ∈ settled, ∀ id ∈ run.plannedInvocationId, Published s' id

section Batch

variable {d : Deployment} {order : List String} {s s' : MemRuntime} {runnerId : RunnerId}

theorem Drains.nothing (hpublishes : Publishes s s') (htriggers : s'.triggers = s.triggers) :
    Drains [] s s' :=
  ⟨hpublishes, fun _ h => (List.not_mem_nil h).elim, fun _ _ => by rw [htriggers],
    fun _ h => (List.not_mem_nil h).elim⟩

/-- One run is published and completed, then the rest of the batch is drained. -/
theorem Drains.cons {run : TriggerRunRecord} {rest : List TriggerRunRecord} {t : MemRuntime}
    {id : InvocationId} (now : Timestamp) (hid : run.plannedInvocationId = some id)
    (hfresh : ∀ later ∈ rest, later.triggerRunId ≠ run.triggerRunId)
    (htriggers : t.triggers = s.triggers) (hpublishes : Publishes s t) (hpublished : Published t id)
    (hrest : Drains rest { t with triggers := { t.triggers with
      runs := t.triggers.runs.insert run.triggerRunId
        { run with triggeredInvocationId := some id, executedAt := some now } } } s') :
    Drains (run :: rest) s s' where
  publishes := hpublishes.trans ⟨hrest.publishes.status,
    fun x hx => hrest.publishes.published x ⟨hx.known, hx.stored, hx.recorded, hx.queued⟩⟩
  completed := by
    rw [List.forall_mem_cons]
    refine ⟨⟨now, ?_⟩, hrest.completed⟩
    rw [hrest.others _ hfresh, hid]
    exact AList.lookup_insert _
  others key hkey := by
    rw [List.forall_mem_cons] at hkey
    rw [hrest.others key hkey.2, ← htriggers]
    exact AList.lookup_insert_ne (Ne.symm hkey.1)
  published := by
    rw [List.forall_mem_cons]
    refine ⟨fun x hx => ?_, hrest.published⟩
    rw [hid] at hx
    cases hx
    exact hrest.publishes.published id
      ⟨hpublished.known, hpublished.stored, hpublished.recorded, hpublished.queued⟩

/-- **One batch.**  What is settled are the runs that a pass takes. -/
theorem publishPending_ends (hd : d.publication = false) {batch : List TriggerRunRecord}
    {r : RustvelloResult Unit} (hdistinct : (batch.map TriggerRunRecord.triggerRunId).Nodup)
    (hpending : ∀ run ∈ batch, run.isPending = true ∧
      s.triggers.runs.lookup run.triggerRunId = some run)
    (h : Prog.EndsE (execStill order) (publishPending d runnerId batch) s r s') :
    Drains (taken (Unrouted d) (Publishable d s) batch) s s' := by
  induction batch generalizing s with
  | nil =>
      obtain ⟨-, rfl⟩ := Prog.endsE_pure.mp h
      exact .nothing (.refl _) rfl
  | cons run rest ih =>
      rw [List.map_cons, List.nodup_cons] at hdistinct
      rw [List.forall_mem_cons] at hpending
      obtain ⟨⟨hrun, hstored⟩, hrest⟩ := hpending
      obtain ⟨id, hid⟩ : ∃ id, run.plannedInvocationId = some id := by
        simp only [TriggerRunRecord.isPending, Bool.and_eq_true] at hrun
        exact Option.isSome_iff_exists.mp hrun.1
      have hfresh : ∀ later ∈ taken (Unrouted d) (Publishable d s) rest,
          later.triggerRunId ≠ run.triggerRunId := fun later hlater heq =>
        hdistinct.1 (heq ▸ List.mem_map_of_mem (of_mem_taken hlater).1)
      rw [publishPending, hid] at h
      cases hrouting : d.catalog.routingFor d.appConfig run.taskId with
      | none =>
          have hskip : Unrouted d run = true := by simp [Unrouted, hrouting]
          rw [hrouting] at h
          rw [taken, if_pos hskip]
          exact ih hdistinct.2 hrest h
      | some route =>
          obtain ⟨queue, priority⟩ := route
          have hskip : ¬Unrouted d run = true := by simp [Unrouted, hrouting]
          have haccepted : Publishable d s run = true ↔ RouteAccepted s id queue priority := by
            simp [Publishable, hid, hrouting]
          rw [hrouting] at h
          rw [taken, if_neg hskip]
          obtain ⟨_, t, hpublish, h⟩ | ⟨e, hpublish, -⟩ := Prog.endsE_bind.mp h
          · obtain ⟨htriggers, hpublishes, hiff, hpublished⟩ := publishTriggerRun_ends hd hpublish
            obtain ⟨_, u, hcomplete, h⟩ | ⟨e, hcomplete, -⟩ := Prog.endsE_bind.mp h
            swap
            · cases (completeTriggerRun_ends (htriggers ▸ hstored) hcomplete).1
            obtain ⟨-, now, rfl⟩ := completeTriggerRun_ends (htriggers ▸ hstored) hcomplete
            rw [if_pos (haccepted.mpr (hiff.mp rfl))]
            refine .cons now hid hfresh htriggers hpublishes (hpublished rfl) ?_
            have hown := ih hdistinct.2 (fun later hlater => ⟨(hrest later hlater).1, ?_⟩) h
            · rw [← hpublishes.publishable]
              exact hown
            · have hne : later.triggerRunId ≠ run.triggerRunId := fun heq =>
                hdistinct.1 (heq ▸ List.mem_map_of_mem hlater)
              show AList.lookup _ (t.triggers.runs.insert _ _) = _
              rw [AList.lookup_insert_ne hne, htriggers]
              exact (hrest later hlater).2
          · obtain ⟨htriggers, hpublishes, hiff, -⟩ := publishTriggerRun_ends hd hpublish
            have hrefused : ¬Publishable d s run = true := by
              rw [haccepted, ← hiff]
              intro hok
              cases hok
            rw [if_neg hrefused]
            exact .nothing hpublishes htriggers

end Batch

/-! ## The queue of pending runs -/

/-- The runs are stored under their ids, and the iteration order has them all. -/
structure IteratedBy (order : List String) (t : TriggerState) : Prop where
  keyed : ∀ key run, t.runs.lookup key = some run → run.triggerRunId = key
  ordered : ∀ key run, t.runs.lookup key = some run → key ∈ order

section Queues

variable {order : List String} {t : TriggerState} {s s' : MemRuntime}
  {settled : List TriggerRunRecord} {run : TriggerRunRecord}

theorem pendingRuns_eq (h : IteratedBy order t) :
    pendingRuns order t = ((order.dedup.filterMap fun key => t.runs.lookup key).filter
      TriggerRunRecord.isPending).insertionSort
        fun left right => left.claimedAt ≤ right.claimedAt := by
  have hstored : ∀ key ∈ t.runs.keys, ∃ run, t.runs.lookup key = some run := fun key hkey =>
    Option.isSome_iff_exists.mp (AList.lookup_isSome.mpr (AList.mem_keys.mp hkey))
  have hrest : t.runs.keys.filter (fun key => key ∉ order) = [] := by
    refine List.filter_eq_nil_iff.mpr fun key hkey => ?_
    obtain ⟨run, hrun⟩ := hstored key hkey
    simpa using h.ordered key run hrun
  unfold pendingRuns arrange
  rw [hrest, List.append_nil, List.filterMap_filter]
  congr 2
  refine List.filterMap_congr fun key _ => ?_
  split
  · rfl
  · rename_i hkey
    simp only [decide_eq_true_eq] at hkey
    exact (AList.lookup_eq_none.mpr hkey).symm

theorem mem_pendingRuns (h : IteratedBy order t) :
    run ∈ pendingRuns order t ↔
      run.isPending = true ∧ t.runs.lookup run.triggerRunId = some run := by
  rw [pendingRuns_eq h, List.mem_insertionSort, List.mem_filter, List.mem_filterMap, and_comm]
  refine and_congr_right fun _ => ⟨?_, fun hstored => ?_⟩
  · rintro ⟨key, -, hkey⟩
    rw [h.keyed key run hkey]
    exact hkey
  · exact ⟨_, List.mem_dedup.mpr (h.ordered _ run hstored), hstored⟩

theorem nodup_pendingRuns (h : IteratedBy order t) :
    ((pendingRuns order t).map TriggerRunRecord.triggerRunId).Nodup := by
  have hperm := ((List.perm_insertionSort (fun left right : TriggerRunRecord =>
    left.claimedAt ≤ right.claimedAt) ((order.dedup.filterMap fun key =>
      t.runs.lookup key).filter TriggerRunRecord.isPending)).map
        TriggerRunRecord.triggerRunId).nodup_iff
  rw [pendingRuns_eq h, hperm]
  have hids : ((order.dedup.filterMap fun key => t.runs.lookup key).map
      TriggerRunRecord.triggerRunId).Nodup := by
    refine List.pairwise_map.mpr (List.Pairwise.filterMap _ ?_ (List.nodup_dedup order))
    intro key key' hne run hrun run' hrun' heq
    exact hne ((h.keyed key run hrun).symm.trans (heq.trans (h.keyed key' run' hrun')))
  exact hids.sublist (List.filter_sublist.map _)

variable (hdrains : Drains settled s s')
  (hsettled : ∀ run ∈ settled, run ∈ pendingRuns order s.triggers)
include hdrains hsettled

theorem Drains.lookup_cases (h : IteratedBy order s.triggers) (key : String) :
    (∃ run ∈ settled, s.triggers.runs.lookup key = some run ∧
      ∃ now, s'.triggers.runs.lookup key = some
        { run with triggeredInvocationId := run.plannedInvocationId, executedAt := some now }) ∨
    ((∀ run, s.triggers.runs.lookup key = some run → run ∉ settled) ∧
      s'.triggers.runs.lookup key = s.triggers.runs.lookup key) := by
  by_cases hkey : ∃ run ∈ settled, run.triggerRunId = key
  · obtain ⟨run, hrun, rfl⟩ := hkey
    exact .inl ⟨run, hrun, ((mem_pendingRuns h).mp (hsettled run hrun)).2,
      hdrains.completed run hrun⟩
  · refine .inr ⟨fun run hrun hmem => hkey ⟨run, hmem, h.keyed key run hrun⟩, ?_⟩
    exact hdrains.others key fun run hrun heq => hkey ⟨run, hrun, heq⟩

theorem Drains.iteratedBy (h : IteratedBy order s.triggers) : IteratedBy order s'.triggers := by
  constructor
  · intro key run hrun
    rcases hdrains.lookup_cases hsettled h key with ⟨old, -, hold, now, hnew⟩ | ⟨-, hsame⟩
    · rw [hnew] at hrun
      cases hrun
      exact h.keyed key old hold
    · exact h.keyed key run (hsame ▸ hrun)
  · intro key run hrun
    rcases hdrains.lookup_cases hsettled h key with ⟨old, -, hold, -⟩ | ⟨-, hsame⟩
    · exact h.ordered key old hold
    · exact h.ordered key run (hsame ▸ hrun)

/-- What was settled leaves the queue. -/
theorem Drains.pendingRuns_eq (h : IteratedBy order s.triggers) :
    pendingRuns order s'.triggers =
      (pendingRuns order s.triggers).filter fun run => run ∉ settled := by
  have : Std.Total fun left right : TriggerRunRecord => left.claimedAt ≤ right.claimedAt :=
    ⟨fun left right => le_total left.claimedAt right.claimedAt⟩
  have : IsTrans TriggerRunRecord fun left right => left.claimedAt ≤ right.claimedAt :=
    ⟨fun _ _ _ => le_trans⟩
  rw [Mem.pendingRuns_eq h, Mem.pendingRuns_eq (hdrains.iteratedBy hsettled h),
    filter_insertionSort, List.filter_filterMap, List.filter_filterMap, List.filter_filterMap]
  congr 1
  refine List.filterMap_congr fun key _ => ?_
  rcases hdrains.lookup_cases hsettled h key with ⟨run, hrun, hold, now, hnew⟩ | ⟨hout, hsame⟩
  · have hpending := ((mem_pendingRuns h).mp (hsettled run hrun)).1
    simp only [TriggerRunRecord.isPending, Bool.and_eq_true] at hpending
    have hfree := Option.isNone_iff_eq_none.mp hpending.2
    obtain ⟨id, hid⟩ := Option.isSome_iff_exists.mp hpending.1
    rw [hold, hnew]
    simp [Option.filter, hrun, TriggerRunRecord.isPending, hid, hfree]
  · rw [hsame]
    cases hrun : s.triggers.runs.lookup key with
    | none => rfl
    | some run =>
        have hkept := hout run hrun
        by_cases hpending : run.isPending = true <;> simp [Option.filter, hpending, hkept]

end Queues

/-! ## Calls one after the other -/

section Calls

variable {d : Deployment} {order : List String} {s s' : MemRuntime} {runnerId : RunnerId}
  {n : Nat} {run : TriggerRunRecord}

/-- One complete call drains what one pass over the oldest pending runs takes. -/
theorem triggerLoopIteration_ends (hd : d.publication = false) (hmanager : d.triggerManager = true)
    {r : RustvelloResult Unit} (hiterated : IteratedBy order s.triggers)
    (h : Prog.EndsE (execStill order) (triggerLoopIteration d runnerId) s r s') :
    Drains (taken (Unrouted d) (Publishable d s)
      ((pendingRuns order s.triggers).take pendingTriggerRunBatch)) s s' := by
  rw [triggerLoopIteration, if_pos hmanager] at h
  obtain ⟨env, firings, t, hfirings, h⟩ | ⟨env, e, hfirings, -⟩ := endsE_port_bind.mp h
  swap
  · cases hfirings
  obtain ⟨hempty, -⟩ := env.2
  simp only [MemRuntime.exec, hempty, Prod.mk.injEq, Except.ok.injEq] at hfirings
  obtain ⟨rfl, rfl⟩ := hfirings
  obtain ⟨env, now, t, hnow, h⟩ | ⟨env, e, hnow, -⟩ := endsE_port_bind.mp h
  swap
  · cases hnow
  cases hnow
  obtain ⟨env, _, t, hclaim, h⟩ | ⟨env, e, hclaim, -⟩ := endsE_port_bind.mp h
  swap
  · cases hclaim
  cases hclaim
  obtain ⟨env, runs, t, hread, h⟩ | ⟨env, e, hread, -⟩ := endsE_port_bind.mp h
  swap
  · cases hread
  have horder := env.2.2
  simp only [MemRuntime.exec, horder, Prod.mk.injEq, Except.ok.injEq] at hread
  obtain ⟨rfl, rfl⟩ := hread
  refine publishPending_ends hd ?_ ?_ h
  · exact (nodup_pendingRuns hiterated).sublist ((List.take_sublist _ _).map _)
  · exact fun run hrun => (mem_pendingRuns hiterated).mp (List.mem_of_mem_take hrun)

/-- What is settled stays so: only pending runs are written. -/
theorem RunSettled.drains {settled : List TriggerRunRecord} (h : RunSettled s run)
    (hdrains : Drains settled s s') (hiterated : IteratedBy order s.triggers)
    (hsettled : ∀ run ∈ settled, run ∈ pendingRuns order s.triggers) : RunSettled s' run := by
  obtain ⟨id, hid, hpublished, stored, hstored, htriggered⟩ := h
  refine ⟨id, hid, hdrains.publishes.published id hpublished, stored, ?_, htriggered⟩
  rcases hdrains.lookup_cases hsettled hiterated run.triggerRunId with
    ⟨other, hother, hold, -⟩ | ⟨-, hsame⟩
  · -- a run that is settled now has been pending
    have hpending := ((mem_pendingRuns hiterated).mp (hsettled other hother)).1
    obtain rfl := Option.some.inj (hold.symm.trans hstored)
    simp [TriggerRunRecord.isPending, htriggered] at hpending
  · rw [hsame]
    exact hstored

/-- **The outbox after some calls.**  What is still pending is what as many passes over the
head of the queue leave, and the rest has been settled. -/
theorem pending_calls (hd : d.publication = false) (hmanager : d.triggerManager = true)
    (hiterated : IteratedBy order s.triggers) (h : AfterCalls d runnerId order n s s') :
    IteratedBy order s'.triggers ∧ Publishes s s' ∧
      pendingRuns order s'.triggers = passes (Unrouted d) (Publishable d s) pendingTriggerRunBatch
        n (pendingRuns order s.triggers) ∧
      ∀ run ∈ pendingRuns order s.triggers, run ∉ pendingRuns order s'.triggers →
        RunSettled s' run := by
  induction n generalizing s' with
  | zero =>
      obtain rfl : s' = s := h
      exact ⟨hiterated, .refl _, rfl, fun run hrun hout => absurd hrun hout⟩
  | succ n ih =>
      obtain ⟨t, ht, r, hcall⟩ := h
      obtain ⟨hmid, hpublishes, hqueue, hdone⟩ := ih ht
      have hdrains := triggerLoopIteration_ends hd hmanager hmid hcall
      rw [hpublishes.publishable] at hdrains
      have hsettled : ∀ run ∈ taken (Unrouted d) (Publishable d s)
          ((pendingRuns order t.triggers).take pendingTriggerRunBatch),
          run ∈ pendingRuns order t.triggers := fun run hrun =>
        List.mem_of_mem_take (of_mem_taken hrun).1
      have hnext := hdrains.pendingRuns_eq hsettled hmid
      refine ⟨hdrains.iteratedBy hsettled hmid, hpublishes.trans hdrains.publishes, ?_, ?_⟩
      · rw [hnext, passes, ← hqueue]
        rfl
      · intro run hrun hout
        by_cases hbefore : run ∈ pendingRuns order t.triggers
        · have htaken : run ∈ taken (Unrouted d) (Publishable d s)
              ((pendingRuns order t.triggers).take pendingTriggerRunBatch) := by
            by_contra hleft
            rw [hnext] at hout
            exact hout (List.mem_filter.mpr ⟨hbefore, by simpa using hleft⟩)
          have hpending := ((mem_pendingRuns hmid).mp hbefore).1
          simp only [TriggerRunRecord.isPending, Bool.and_eq_true] at hpending
          obtain ⟨id, hid⟩ := Option.isSome_iff_exists.mp hpending.1
          obtain ⟨now, hstored⟩ := hdrains.completed run htaken
          exact ⟨id, hid, hdrains.published run htaken id hid, _, hstored, hid⟩
        · exact (hdone run hrun hbefore).drains hdrains hmid hsettled

/-- A run that is still pending is not settled. -/
theorem not_settled_of_pending (hiterated : IteratedBy order s.triggers)
    (hrun : run ∈ pendingRuns order s.triggers) : ¬RunSettled s run := by
  rintro ⟨id, -, -, stored, hstored, htriggered⟩
  obtain ⟨hpending, hown⟩ := (mem_pendingRuns hiterated).mp hrun
  obtain rfl := Option.some.inj (hown.symm.trans hstored)
  simp [TriggerRunRecord.isPending, htriggered] at hpending

/-- **Which runs the calls settle.**  Every publishable run of a routed task is settled
exactly when none of them stands behind a refused run of a routed task, and the calls get as
far as its place: the unrouted runs that they have passed take up room in every later
batch. -/
theorem settled_iff (hd : d.publication = false) (hmanager : d.triggerManager = true)
    (hiterated : IteratedBy order s.triggers) (h : AfterCalls d runnerId order n s s') :
    (∀ run ∈ pendingRuns order s.triggers, Unrouted d run = false → Publishable d s run = true →
      RunSettled s' run) ↔
    ∀ front run back, pendingRuns order s.triggers = front ++ run :: back →
      Unrouted d run = false → Publishable d s run = true →
      (∀ older ∈ front, Unrouted d older = true ∨ Publishable d s older = true) ∧
        front.length < reach (Unrouted d) pendingTriggerRunBatch (pendingRuns order s.triggers) n
    := by
  obtain ⟨hafter, -, hqueue, hdone⟩ := pending_calls hd hmanager hiterated h
  have hnodup : (pendingRuns order s.triggers).Nodup := (nodup_pendingRuns hiterated).of_map
  have hsettled : ∀ run ∈ pendingRuns order s.triggers,
      RunSettled s' run ↔ run ∉ pendingRuns order s'.triggers := fun run hrun =>
    ⟨fun hsettled hpending => not_settled_of_pending hafter hpending hsettled, hdone run hrun⟩
  constructor
  · intro hall front run back hsplit hrouted haccepted
    have hrun : run ∈ pendingRuns order s.triggers := by simp [hsplit]
    have hout := (hsettled run hrun).mp (hall run hrun hrouted haccepted)
    rw [hqueue, hsplit] at hout
    rw [hsplit]
    exact (notMem_passes_iff (hsplit ▸ hnodup) hrouted haccepted).mp hout
  · intro hall run hrun hrouted haccepted
    obtain ⟨front, back, hsplit⟩ := List.append_of_mem hrun
    refine (hsettled run hrun).mpr ?_
    have hreached := hall front run back hsplit hrouted haccepted
    rw [hsplit] at hreached
    rw [hqueue, hsplit]
    exact (notMem_passes_iff (hsplit ▸ hnodup) hrouted haccepted).mpr hreached

/-- Calls always end. -/
theorem afterCalls_total (d : Deployment) (runnerId : RunnerId) (order : List String) (n : Nat)
    (s : MemRuntime) : ∃ s', AfterCalls d runnerId order n s s' := by
  induction n with
  | zero => exact ⟨s, rfl⟩
  | succ n ih =>
      obtain ⟨t, ht⟩ := ih
      obtain ⟨r, s', h⟩ := Prog.ends_total (execStill order)
        (triggerLoopIteration d runnerId).run t
      exact ⟨s', t, ht, r, h⟩

end Calls

/-! ## A refused run at the head -/

def mailTask : TaskId := ⟨.rust, "mail", "send"⟩

/-- The queue name of `mailTask` is not valid. -/
def mailDeployment : Deployment :=
  { serialDeployment with
    triggerManager := true
    catalog := { registry := fun taskId =>
      if taskId = serialTask then some serialConfig
      else if taskId = mailTask then some { queue := "mail queue" } else none } }

/-- A pending run, claimed at an instant. -/
def claimedRun (runId : String) (taskId : TaskId) (claimedAt : Timestamp) : TriggerRunRecord where
  triggerRunId := runId
  taskId := taskId
  arguments := .empty
  claimedAt := claimedAt
  executedAt := none
  plannedInvocationId := some ⟨runId⟩
  triggeredInvocationId := none

/-- The outbox with one run of the serial task, and other runs. -/
def outboxOf (others : List TriggerRunRecord) : MemRuntime where
  triggers :=
    { runs := others.foldl (fun runs run => runs.insert run.triggerRunId run)
        (AList.insert "serial" (claimedRun "serial" serialTask 2) ∅) }

theorem outboxOf_iteratedBy {order : List String} (hserial : "serial" ∈ order)
    {others : List TriggerRunRecord} (hothers : ∀ run ∈ others, run.triggerRunId ∈ order) :
    IteratedBy order (outboxOf others).triggers := by
  have hfold : ∀ (others : List TriggerRunRecord) (runs : HashMap String TriggerRunRecord),
      (∀ run ∈ others, run.triggerRunId ∈ order) →
      (∀ key run, runs.lookup key = some run → run.triggerRunId = key ∧ key ∈ order) →
      ∀ key run, (others.foldl (fun runs run => runs.insert run.triggerRunId run) runs).lookup key =
        some run → run.triggerRunId = key ∧ key ∈ order := by
    intro others
    induction others with
    | nil => exact fun _ _ h => h
    | cons first rest ih =>
        intro runs hothers h
        refine ih _ (fun run hrun => hothers run (List.mem_cons_of_mem _ hrun)) ?_
        intro key run hrun
        by_cases hkey : key = first.triggerRunId
        · rw [hkey, AList.lookup_insert] at hrun
          obtain rfl := Option.some.inj hrun
          exact ⟨hkey.symm, hkey ▸ hothers _ List.mem_cons_self⟩
        · rw [AList.lookup_insert_ne hkey] at hrun
          exact h key run hrun
  have hruns := hfold others (AList.insert "serial" (claimedRun "serial" serialTask 2) ∅) hothers
    fun key run hrun => by
      by_cases hkey : key = "serial"
      · rw [hkey, AList.lookup_insert] at hrun
        obtain rfl := Option.some.inj hrun
        exact ⟨hkey.symm, hkey ▸ hserial⟩
      · rw [AList.lookup_insert_ne hkey] at hrun
        cases hrun
  exact ⟨fun key run hrun => (hruns key run hrun).1, fun key run hrun => (hruns key run hrun).2⟩

/-- A run of a task that is registered nowhere, and a second one of the serial task. -/
def mixedRuns : List TriggerRunRecord :=
  [claimedRun "lost" ⟨.rust, "mail", "drop"⟩ 1, claimedRun "late" serialTask 3]

theorem settled_iff_mixed :
    ∃ s', AfterCalls mailDeployment ⟨"w1"⟩ ["lost", "serial", "late"] 1 (outboxOf mixedRuns) s' ∧
      RunSettled s' (claimedRun "serial" serialTask 2) ∧
      RunSettled s' (claimedRun "late" serialTask 3) := by
  obtain ⟨s', hcalls⟩ := afterCalls_total mailDeployment ⟨"w1"⟩ ["lost", "serial", "late"] 1
    (outboxOf mixedRuns)
  have hqueue : pendingRuns ["lost", "serial", "late"] (outboxOf mixedRuns).triggers =
      [claimedRun "lost" ⟨.rust, "mail", "drop"⟩ 1, claimedRun "serial" serialTask 2,
        claimedRun "late" serialTask 3] := by decide
  have hiterated : IteratedBy ["lost", "serial", "late"] (outboxOf mixedRuns).triggers :=
    outboxOf_iteratedBy (by decide) (by decide)
  have hsettled := (settled_iff rfl rfl hiterated hcalls).mpr fun front run back hsplit _ _ => by
    have haccepted : ∀ older ∈ pendingRuns ["lost", "serial", "late"] (outboxOf mixedRuns).triggers,
        Unrouted mailDeployment older = true ∨
          Publishable mailDeployment (outboxOf mixedRuns) older = true := by
      rw [hqueue]
      decide
    refine ⟨fun older holder => haccepted older (hsplit ▸ List.mem_append_left _ holder), ?_⟩
    -- one pass comes to the end of the queue
    have hlength := congrArg List.length hsplit
    have hreach : (pendingRuns ["lost", "serial", "late"] (outboxOf mixedRuns).triggers).length ≤
        reach (Unrouted mailDeployment) pendingTriggerRunBatch
          (pendingRuns ["lost", "serial", "late"] (outboxOf mixedRuns).triggers) 1 := by
      rw [hqueue]
      decide
    rw [List.length_append, List.length_cons] at hlength
    omega
  refine ⟨s', hcalls, hsettled _ ?_ (by decide) (by decide), hsettled _ ?_ (by decide) (by decide)⟩
  all_goals
    rw [hqueue]
    simp

theorem publishable_run_starves :
    ∃ s order, IteratedBy order s.triggers ∧
      ∃ run ∈ pendingRuns order s.triggers, Unrouted mailDeployment run = false ∧
        Publishable mailDeployment s run = true ∧
        (pendingRuns order s.triggers).length ≤ 1 * pendingTriggerRunBatch ∧
        ∀ n, ∃ s', AfterCalls mailDeployment ⟨"w1"⟩ order n s s' ∧ ¬RunSettled s' run := by
  have hqueue : pendingRuns ["mail", "serial"] (outboxOf [claimedRun "mail" mailTask 1]).triggers =
      [claimedRun "mail" mailTask 1, claimedRun "serial" serialTask 2] := by decide
  have hiterated : IteratedBy ["mail", "serial"]
      (outboxOf [claimedRun "mail" mailTask 1]).triggers :=
    outboxOf_iteratedBy (by decide) (by decide)
  refine ⟨_, _, hiterated, claimedRun "serial" serialTask 2, ?_, by decide, by decide, ?_, ?_⟩
  · rw [hqueue]
    exact List.mem_cons_of_mem _ List.mem_cons_self
  · rw [hqueue]
    decide
  · intro n
    obtain ⟨s', hcalls⟩ := afterCalls_total mailDeployment ⟨"w1"⟩ ["mail", "serial"] n
      (outboxOf [claimedRun "mail" mailTask 1])
    refine ⟨s', hcalls, ?_⟩
    obtain ⟨hafter, -, hleft, -⟩ := pending_calls rfl rfl hiterated hcalls
    have hnodup : ([] ++ claimedRun "mail" mailTask 1 ::
        [claimedRun "serial" serialTask 2]).Nodup := by decide
    have hheld : ∃ front back, passes (Unrouted mailDeployment)
        (Publishable mailDeployment (outboxOf [claimedRun "mail" mailTask 1]))
        pendingTriggerRunBatch n ([] ++ claimedRun "mail" mailTask 1 ::
          [claimedRun "serial" serialTask 2]) = front ++ claimedRun "mail" mailTask 1 :: back ∧
        ∀ x ∈ [claimedRun "serial" serialTask 2], x ∈ back :=
      passes_of_refused hnodup (by decide) (by decide)
    obtain ⟨front, back, hpasses, hback⟩ := hheld
    rw [hqueue] at hleft
    refine not_settled_of_pending hafter ?_
    rw [hleft]
    show _ ∈ passes _ _ _ _ ([] ++ _ :: _)
    rw [hpasses]
    exact List.mem_append_right _ (List.mem_cons_of_mem _ (hback _ List.mem_cons_self))

end Rustvello.Mem
