import Rustvello.Orchestration.Calls

/-!
# Outcomes that are refused

Without a transaction an outcome is two writes: the payload first, then the status.
A refused status write leaves the payload behind.

* `refusedResult_iff`, `refusedException_iff` — for every state and every call, when
  a refused outcome changes nothing;
* `settlement` — the book of an attempt: its result between the two writes, and the
  result whose `success` was accepted;
* `result_of_success` — in runs in which results are stored by the owner of a running
  invocation, the stored result of a successful invocation is the accepted one;
* `staleResult_overwrites` — a late attempt replaces the accepted result.
-/

namespace Rustvello.Mem

open Concurrency Proto Rustvello.Core Orchestration

/-! ## One call -/

/-- Payloads, status record and history of an invocation are as before. -/
structure Unchanged (id : InvocationId) (s s' : MemRuntime) : Prop where
  result : s'.backend.results.lookup id = s.backend.results.lookup id
  error : s'.backend.errors.lookup id = s.backend.errors.lookup id
  record : s'.orchestrator.statusRecords.lookup id = s.orchestrator.statusRecords.lookup id
  history : s'.backend.historyOf id = s.backend.historyOf id

/-- The status machine refused. -/
def IsRefusal (e : RustvelloError) : Prop :=
  e.isInvalidStatusTransition = true ∨ e.isOwnershipViolation = true

/-- Whenever the operation, run from `s`, ends in a refusal, the invocation is as it was. -/
def RefusalChangesNothing (p : Orch Unit) (id : InvocationId) (s : MemRuntime) : Prop :=
  ∀ e s', Prog.EndsE MemRuntime.exec p s (.error e) s' → IsRefusal e → Unchanged id s s'

/-- The status machine accepts this request on the stored record. -/
def Accepts (s : MemRuntime) (id : InvocationId) (target : InvocationStatus)
    (runner : RunnerId) : Prop :=
  ∃ current, s.orchestrator.statusRecords.lookup id = some current ∧
    current.status.canTransitionTo target = true ∧ OwnershipOk current target (some runner)

theorem isRefusal_statusMachineError (e : StatusMachineError) (id : InvocationId)
    (fallback : InvocationStatus) : IsRefusal (statusMachineErrorToRustvello e id fallback) := by
  cases e with
  | transition t => exact .inl rfl
  | ownership o => exact .inr rfl

/-- An operation that never fails on the in-memory backends. -/
def Succeeds {α : Type} (p : Orch α) : Prop :=
  ∀ s r s', Prog.EndsE MemRuntime.exec p s r s' → ∃ a, r = .ok a

theorem Succeeds.pure {α : Type} (a : α) : Succeeds (Pure.pure a : Orch α) :=
  fun _ _ _ h => ⟨a, (Prog.endsE_pure.mp h).1⟩

theorem Succeeds.bind {α β : Type} {p : Orch α} {f : α → Orch β} (hp : Succeeds p)
    (hf : ∀ a, Succeeds (f a)) : Succeeds (p >>= f) := by
  intro s r s' h
  rcases Prog.endsE_bind.mp h with ⟨a, t, -, h⟩ | ⟨e, h, -⟩
  · exact hf a t r s' h
  · obtain ⟨a, ha⟩ := hp s _ s' h
    cases ha

variable {c : PortCall} {id : InvocationId}

theorem Succeeds.port (h : ∀ env s, ∃ a, (MemRuntime.exec env c s).1 = .ok a) :
    Succeeds (port c) := by
  intro s r s' hends
  obtain ⟨env, heq⟩ := endsE_port.mp hends
  obtain ⟨a, ha⟩ := h env s
  exact ⟨a, by rw [← ha, heq]⟩

section Calls

variable {d : Deployment} {id : InvocationId} {target : InvocationStatus} {runner : RunnerId}
  {taskId : TaskId} {arguments : SerializedArguments}

/-- What follows an accepted status write does not fail. -/
theorem afterStatus_succeeds (record : InvocationStatusRecord) :
    Succeeds (do
      terminalEffects d id target
      port (.addHistory ((InvocationHistory.new id record none).withRunner runner))
      reportPublishedStatus d id target taskId arguments
      Pure.pure record) := by
  refine .bind ?_ fun _ => .bind (.port fun _ _ => ⟨_, rfl⟩) fun _ => .bind ?_ fun _ => .pure _
  · unfold terminalEffects
    split
    · refine .bind (.port fun _ _ => ⟨_, rfl⟩) fun _ => ?_
      split
      · exact .port fun _ _ => ⟨_, rfl⟩
      · exact .pure _
    · exact .pure _
  · unfold reportPublishedStatus
    split
    · exact .port fun _ _ => ⟨_, rfl⟩
    · exact .pure _

/-- **A status write that fails.**  It fails exactly when the record is missing or the
machine refuses it, and then it has changed nothing. -/
theorem setInvocationStatusWithContext_error_iff (hd : d.publication = false) {s s' : MemRuntime}
    {e : RustvelloError} :
    Prog.EndsE MemRuntime.exec
        (setInvocationStatusWithContext d id target runner taskId arguments) s (.error e) s' ↔
      s' = s ∧ ((s.orchestrator.statusRecords.lookup id = none ∧ e = .invocationNotFound id) ∨
        ∃ env current refusal, s.orchestrator.statusRecords.lookup id = some current ∧
          statusRecordTransition (Env.clock env) (some current) target (some runner) =
            .error refusal ∧
          e = statusMachineErrorToRustvello refusal id current.status) := by
  unfold setInvocationStatusWithContext
  rw [if_neg (by simp [hd]), Prog.endsE_bind]
  constructor
  · rintro (⟨record, t, -, hrest⟩ | ⟨e', hport, he⟩)
    · obtain ⟨a, ha⟩ := afterStatus_succeeds record t _ s' hrest
      cases ha
    · cases he
      obtain ⟨env, heq⟩ := endsE_port.mp hport
      obtain ⟨_, record, _, _, -, -, hstatus⟩ | ⟨current, refusal, hlookup, htrans, hstatus⟩ |
        ⟨hlookup, hstatus⟩ :=
        s.orchestrator.setInvocationStatus_cases env.clock id target (some runner)
      · simp only [MemRuntime.exec, hstatus] at heq
        cases heq
      · simp only [MemRuntime.exec, hstatus] at heq
        cases heq
        exact ⟨rfl, .inr ⟨env, current, refusal, hlookup, htrans, rfl⟩⟩
      · simp only [MemRuntime.exec, hstatus] at heq
        cases heq
        exact ⟨rfl, .inl ⟨hlookup, rfl⟩⟩
  · rintro ⟨rfl, ⟨hlookup, rfl⟩ | ⟨env, current, refusal, hlookup, htrans, rfl⟩⟩
    · refine .inr ⟨_, endsE_port.mpr ⟨{}, ?_⟩, rfl⟩
      simp [MemRuntime.exec, OrchestratorState.setInvocationStatus, hlookup]
    · refine .inr ⟨_, endsE_port.mpr ⟨env, ?_⟩, rfl⟩
      simp [MemRuntime.exec, OrchestratorState.setInvocationStatus, hlookup, htrans]

theorem accepts_iff {s : MemRuntime} {current : InvocationStatusRecord}
    (hlookup : s.orchestrator.statusRecords.lookup id = some current) (now : Timestamp) :
    Accepts s id target runner ↔
      ∃ record, statusRecordTransition now (some current) target (some runner) = .ok record := by
  constructor
  · rintro ⟨stored, hstored, hcan, hown⟩
    rw [hlookup] at hstored
    cases hstored
    exact ⟨_, (statusRecordTransition_ok_iff _ _ _ _ _).mpr ⟨hcan, hown, rfl⟩⟩
  · rintro ⟨record, hrecord⟩
    obtain ⟨hcan, hown, -⟩ := (statusRecordTransition_ok_iff _ _ _ _ _).mp hrecord
    exact ⟨current, hlookup, hcan, hown⟩

/-- **When a refused outcome changes nothing.**  The payload is stored first, so it must
have nothing to change unless the status write is accepted. -/
theorem refusalChangesNothing_iff (hd : d.publication = false) {s payload : MemRuntime}
    {store tail : Orch Unit}
    (hstore : ∀ r s', Prog.EndsE MemRuntime.exec store s r s' ↔ r = .ok () ∧ s' = payload)
    (horchestrator : payload.orchestrator = s.orchestrator) (htail : Succeeds tail) :
    RefusalChangesNothing (do
        (do
          store
          let _ ← setInvocationStatusWithContext d id target runner taskId arguments
          Pure.pure ())
        tail) id s ↔
      s.orchestrator.statusRecords.lookup id = none ∨ Accepts s id target runner ∨
        Unchanged id s payload := by
  have hends : ∀ e s', Prog.EndsE MemRuntime.exec (do
        (do
          store
          let _ ← setInvocationStatusWithContext d id target runner taskId arguments
          Pure.pure ())
        tail) s (.error e) s' ↔
      Prog.EndsE MemRuntime.exec
        (setInvocationStatusWithContext d id target runner taskId arguments) payload (.error e)
        s' := by
    intro e s'
    constructor
    · intro h
      rcases Prog.endsE_bind.mp h with ⟨_, t, -, h⟩ | ⟨e', h, he⟩
      · obtain ⟨a, ha⟩ := htail t _ s' h
        cases ha
      · cases he
        rcases Prog.endsE_bind.mp h with ⟨_, t, hs, h⟩ | ⟨e', h, -⟩
        · obtain ⟨-, rfl⟩ := (hstore _ _).mp hs
          rcases Prog.endsE_bind.mp h with ⟨_, t', -, h⟩ | ⟨e', h, he⟩
          · obtain ⟨h, -⟩ := Prog.endsE_pure.mp h
            cases h
          · cases he
            exact h
        · obtain ⟨h, -⟩ := (hstore _ _).mp h
          cases h
    · intro h
      refine Prog.endsE_bind.mpr (.inr ⟨e, Prog.endsE_bind.mpr (.inl ⟨(), payload, ?_, ?_⟩), rfl⟩)
      · exact (hstore _ _).mpr ⟨rfl, rfl⟩
      · exact Prog.endsE_bind.mpr (.inr ⟨e, h, rfl⟩)
  cases hlookup : s.orchestrator.statusRecords.lookup id with
  | none =>
      refine iff_of_true (fun e s' h hrefusal => ?_) (.inl rfl)
      obtain ⟨-, ⟨-, rfl⟩ | ⟨_, current, _, hsome, -⟩⟩ :=
        (setInvocationStatusWithContext_error_iff hd).mp ((hends e s').mp h)
      · rcases hrefusal with h | h <;> cases h
      · rw [horchestrator, hlookup] at hsome
        cases hsome
  | some current =>
      constructor
      · intro h
        refine .inr ?_
        by_cases haccepts : Accepts s id target runner
        · exact .inl haccepts
        · right
          cases htrans : statusRecordTransition 0 (some current) target (some runner) with
          | ok record => exact absurd ((accepts_iff hlookup 0).mpr ⟨record, htrans⟩) haccepts
          | error refusal =>
              refine h _ payload ((hends _ _).mpr
                ((setInvocationStatusWithContext_error_iff hd).mpr ⟨rfl, .inr
                  ⟨{}, current, refusal, ?_, htrans, rfl⟩⟩)) (isRefusal_statusMachineError _ _ _)
              rw [horchestrator]
              exact hlookup
      · rintro (h | haccepts | hunchanged)
        · cases h
        · intro e s' h hrefusal
          obtain ⟨-, ⟨hnone, -⟩ | ⟨env, stored, refusal, hsome, htrans, -⟩⟩ :=
            (setInvocationStatusWithContext_error_iff hd).mp ((hends e s').mp h)
          · rw [horchestrator, hlookup] at hnone
            cases hnone
          · rw [horchestrator, hlookup] at hsome
            cases hsome
            obtain ⟨record, hrecord⟩ := (accepts_iff hlookup env.clock).mp haccepts
            rw [hrecord] at htrans
            cases htrans
        · intro e s' h _
          obtain ⟨rfl, -⟩ := (setInvocationStatusWithContext_error_iff hd).mp ((hends e s').mp h)
          exact hunchanged

/-- A refused result changes nothing exactly when it is not stored over another one. -/
theorem refusedResult_iff (hd : d.publication = false) (result : String) (s : MemRuntime) :
    RefusalChangesNothing (setInvocationResultWithContext d id result runner taskId arguments) id
        s ↔
      s.orchestrator.statusRecords.lookup id = none ∨ Accepts s id .success runner ∨
        s.backend.results.lookup id = some result := by
  have hunchanged : Unchanged id s { s with
      backend := { s.backend with results := s.backend.results.insert id result } } ↔
      s.backend.results.lookup id = some result := by
    constructor
    · intro h
      rw [← h.result]
      exact AList.lookup_insert _
    · intro h
      exact ⟨(AList.lookup_insert _).trans h.symm, rfl, rfl, rfl⟩
  rw [← hunchanged]
  unfold setInvocationResultWithContext commitResult
  rw [if_neg (by simp [hd])]
  refine refusalChangesNothing_iff hd ?_ rfl ?_
  · intro r s'
    rw [endsE_port]
    constructor
    · rintro ⟨env, heq⟩
      cases heq
      exact ⟨rfl, rfl⟩
    · rintro ⟨rfl, rfl⟩
      exact ⟨{}, rfl⟩
  · split
    · exact .port fun _ _ => ⟨_, rfl⟩
    · exact .pure _

/-- The same for an error outcome. -/
theorem refusedException_iff (hd : d.publication = false) (errorType errorMessage : String)
    (s : MemRuntime) :
    RefusalChangesNothing (setInvocationExceptionWithContext d id errorType errorMessage runner
        taskId arguments) id s ↔
      s.orchestrator.statusRecords.lookup id = none ∨ Accepts s id .failed runner ∨
        s.backend.errors.lookup id = some ⟨errorType, errorMessage, none⟩ := by
  have hunchanged : Unchanged id s { s with
      backend := { s.backend with
        errors := s.backend.errors.insert id ⟨errorType, errorMessage, none⟩ } } ↔
      s.backend.errors.lookup id = some ⟨errorType, errorMessage, none⟩ := by
    constructor
    · intro h
      rw [← h.error]
      exact AList.lookup_insert _
    · intro h
      exact ⟨rfl, (AList.lookup_insert _).trans h.symm, rfl, rfl⟩
  rw [← hunchanged]
  unfold setInvocationExceptionWithContext commitException
  rw [if_neg (by simp [hd])]
  refine refusalChangesNothing_iff hd ?_ rfl ?_
  · intro r s'
    rw [endsE_port]
    constructor
    · rintro ⟨env, heq⟩
      cases heq
      exact ⟨rfl, rfl⟩
    · rintro ⟨rfl, rfl⟩
      exact ⟨{}, rfl⟩
  · split
    · exact .port fun _ _ => ⟨_, rfl⟩
    · exact .pure _

end Calls

/-! ## Attempts and their results -/

/-- The book of an attempt. -/
structure Settlement where
  worker : Option RunnerId := none
  /-- Stored, and `success` not yet written. -/
  stored : Option (InvocationId × String) := none
  /-- Stored, and `success` accepted. -/
  accepted : Option (InvocationId × String) := none
deriving DecidableEq

def Settlement.next : (c : PortCall) → RustvelloResult c.Ans → Settlement → Settlement
  | .storeResult id result, .ok _, g => { g with stored := some (id, result) }
  | .setInvocationStatus _ .success _, .ok _, g =>
      { g with stored := none, accepted := g.stored }
  | .setInvocationStatus _ .success _, .error _, g => { g with stored := none }
  | _, _, g => g

/-- A worker runs and finishes only what it stored the result of. -/
def settlement : Discipline ports Operation Settlement where
  start op := { worker := op.worker? }
  next := Settlement.next
  pre
    | .storeResult _ _, g => g.worker.isSome = true ∧ g.stored = none ∧ g.accepted = none
    | .setInvocationStatus id status runnerId, g =>
        (status = .success → (∃ result, g.stored = some (id, result)) ∧ runnerId = g.worker ∧
          g.accepted = none) ∧
        (status = .running → runnerId.isSome = true ∧ runnerId = g.worker ∧ g.stored = none)
    | _, _ => True
  resp c _ r := Truthful c r

/-- Any status but the two that an attempt goes through. -/
abbrev Aside (status : InvocationStatus) : Prop :=
  status ≠ .success ∧ status ≠ .running

theorem Settlement.next_aside {status : InvocationStatus} {runnerId : Option RunnerId}
    (h : status ≠ .success) (r : RustvelloResult InvocationStatusRecord) (g : Settlement) :
    Settlement.next (.setInvocationStatus id status runnerId) r g = g := by
  cases status <;> first | exact absurd rfl h | rfl

theorem quiet_of_no_write (hstatus : c.statusWrite? = none)
    (hresult : c.resultWrite? = none) : settlement.Quiet c := by
  cases c <;> first
    | (simp [PortCall.statusWrite?, PortCall.resultWrite?] at hstatus hresult; done)
    | exact fun g => ⟨trivial, fun _ => rfl⟩

theorem quiet_of_aside {status : InvocationStatus} {runnerId : Option RunnerId} (h : Aside status) :
    settlement.Quiet (.setInvocationStatus id status runnerId) :=
  fun g => ⟨⟨fun hs => absurd hs h.1, fun hs => absurd hs h.2⟩, fun r =>
    Settlement.next_aside h.1 r g⟩

theorem quiet_of_updates {runner : RunnerId}
    (h : Updates Aside id runner c) : settlement.Quiet c := by
  cases c <;> first | exact False.elim h | exact fun g => ⟨trivial, fun _ => rfl⟩ | skip
  case setInvocationStatus x status runnerId => exact quiet_of_aside h.2.1
  case storeResult x result => exact absurd rfl h.2.1

theorem quiet_of_actsOn {runner : RunnerId}
    (h : ActsOn Aside id runner c) : settlement.Quiet c := by
  rcases h with h | hrouted
  · exact quiet_of_updates h
  · cases c <;> first
      | (simp [PortCall.routed?] at hrouted; done)
      | exact fun g => ⟨trivial, fun _ => rfl⟩

theorem quiet_of_dispatches (h : Dispatches c) : settlement.Quiet c := by
  cases c <;> first | exact False.elim h | exact fun g => ⟨trivial, fun _ => rfl⟩ | skip
  case setInvocationStatus x status runnerId =>
      obtain ⟨-, rfl | rfl | rfl⟩ := h <;> exact quiet_of_aside (by decide)

theorem quiet_of_submits {submission : Submission} (h : Submits submission c) :
    settlement.Quiet c := by
  cases c <;> first | exact False.elim h | exact fun g => ⟨trivial, fun _ => rfl⟩

/-- An operation of quiet calls leaves the book as it is. -/
theorem obeysE_of_quiet {α : Type} {P : PortCall → Prop} {p : Orch α}
    (h : Prog.UsesE Truthful P p) (hP : ∀ c, P c → settlement.Quiet c) (g : Settlement) :
    settlement.ObeysE p (fun _ g' => g' = g) (fun _ g' => g' = g) g :=
  Discipline.ObeysE.of_uses (Prog.Uses.mono h (fun _ _ ⟨_, hr⟩ => hr) hP) g

/-- Nothing is between its two writes. -/
def AtRest (g : Settlement) : Prop :=
  g.stored = none

theorem obeysE_atRest {α : Type} {P : PortCall → Prop} {p : Orch α}
    (h : Prog.UsesE Truthful P p) (hP : ∀ c, P c → settlement.Quiet c) {g : Settlement}
    (hg : AtRest g) : settlement.ObeysE p (fun _ => AtRest) (fun _ => AtRest) g := by
  refine (obeysE_of_quiet h hP g).mono ?_ ?_
  · rintro _ _ rfl
    exact hg
  · rintro _ _ rfl
    exact hg

section Attempts

variable {d : Deployment} (hd : d.publication = false) (id : InvocationId) (worker : RunnerId)

theorem afterStatus_obeys (status : InvocationStatus) (record : InvocationStatusRecord)
    (taskId : TaskId) (arguments : SerializedArguments) (g : Settlement) :
    settlement.ObeysE (do
      terminalEffects d id status
      port (.addHistory ((InvocationHistory.new id record none).withRunner worker))
      reportPublishedStatus d id status taskId arguments
      pure record) (fun _ g' => g' = g) (fun _ g' => g' = g) g := by
  have hreports : Reports settlement.Quiet :=
    ⟨fun _ _ _ _ => quiet_of_no_write rfl rfl, fun _ _ _ _ => quiet_of_no_write rfl rfl,
      fun _ _ _ _ _ => quiet_of_no_write rfl rfl⟩
  exact Discipline.ObeysE.of_uses (usesE_afterStatus (quiet_of_no_write rfl rfl)
    (quiet_of_no_write rfl rfl) (quiet_of_no_write rfl rfl) hreports d status taskId arguments) g

include hd

/-- The two writes of a result: afterwards it is accepted or forgotten. -/
theorem setInvocationResultWithContext_settles (result : String) (taskId : TaskId)
    (arguments : SerializedArguments) :
    settlement.ObeysE (setInvocationResultWithContext d id result worker taskId arguments)
      (fun _ => AtRest) (fun _ => AtRest) { worker := some worker } := by
  unfold setInvocationResultWithContext commitResult
  rw [if_neg (by simp [hd])]
  have hreport : ∀ {g : Settlement}, AtRest g → settlement.ObeysE
      (if d.triggerManager then port (.reportResult id taskId result arguments) else pure ())
      (fun _ => AtRest) (fun _ => AtRest) g := by
    intro g hg
    split
    · exact obeysE_atRest (usesE_port (quiet_of_no_write rfl rfl)) (fun _ h => h) hg
    · exact hg
  refine Discipline.ObeysE.bind (R := fun _ => AtRest) ?_ fun _ _ hg => hreport hg
  refine obeysE_port_bind.mpr ⟨⟨rfl, rfl, rfl⟩, fun _ _ => ?_, fun _ _ => rfl⟩
  refine Discipline.ObeysE.bind (R := fun _ => AtRest) ?_ fun _ _ hg => hg
  unfold setInvocationStatusWithContext
  rw [if_neg (by simp [hd])]
  refine obeysE_port_bind.mpr ⟨⟨fun _ => ⟨⟨result, rfl⟩, rfl, rfl⟩, fun h => by cases h⟩,
    fun record _ => ?_, fun _ _ => rfl⟩
  refine (afterStatus_obeys id worker .success record taskId arguments _).mono ?_ ?_
  · rintro _ _ rfl
    rfl
  · rintro _ _ rfl
    rfl

theorem finishSuccess_settles (taskId : TaskId) (arguments : SerializedArguments)
    (result : String) :
    settlement.ObeysE (finishSuccess d id worker taskId arguments result)
      (fun _ => AtRest) (fun _ => AtRest) { worker := some worker } := by
  have hsettle : ∀ written {g : Settlement}, AtRest g → settlement.ObeysE
      (settleOutcome d id worker written (releaseFinished d id))
      (fun _ => AtRest) (fun _ => AtRest) g := fun written _ hg =>
    obeysE_atRest (usesE_forget (settleOutcome_nameless hd id worker written
      (releaseFinished_nameless hd id worker))) (fun _ => quiet_of_updates) hg
  refine obeysE_attempt_bind.mpr
    ((setInvocationResultWithContext_settles hd id worker result taskId arguments).mono ?_ ?_)
  · exact fun _ _ hg => hsettle _ hg
  · exact fun _ _ hg => hsettle _ hg

/-- The `running` write of the claimed invocation. -/
theorem runningWrite_settles :
    settlement.ObeysE (setInvocationStatus d id .running worker)
      (fun _ g => g = { worker := some worker }) (fun _ g => g = { worker := some worker })
      { worker := some worker } := by
  have hcontext : Prog.UsesE Truthful (Updates Aside id worker) (triggerContextFor d id) :=
    usesE_forget ((lookups_updates id worker).triggerContextFor d id)
  refine Discipline.ObeysE.bind
    (obeysE_of_quiet hcontext (fun _ => quiet_of_updates) { worker := some worker }) ?_
  rintro context _ rfl
  unfold setInvocationStatusWithContext
  rw [if_neg (by simp [hd])]
  refine obeysE_port_bind.mpr ⟨⟨fun h => (by cases h), fun _ => ⟨rfl, rfl, rfl⟩⟩,
    fun record _ => ?_, fun _ _ => rfl⟩
  exact afterStatus_obeys id worker .running record context.1 context.2 { worker := some worker }

theorem executeClaimed_settles :
    settlement.ObeysE (executeClaimed d id worker) (fun _ => AtRest) (fun _ => AtRest)
      { worker := some worker } := by
  have hskip : ∀ {α β : Type} {p : Orch α} {f : α → Orch β},
      Prog.UsesE Truthful (Updates Aside id worker) p →
      (∀ a, settlement.ObeysE (f a) (fun _ => AtRest) (fun _ => AtRest)
        { worker := some worker }) →
      settlement.ObeysE (p >>= f) (fun _ => AtRest) (fun _ => AtRest)
        { worker := some worker } := by
    intro α β p f hp hf
    exact Discipline.ObeysE.bind_of_uses
      (Prog.Uses.mono hp (fun _ _ ⟨_, hr⟩ => hr) fun _ => quiet_of_updates) (fun _ => rfl) hf
  have hfail : ∀ errorType errorMessage taskId arguments, settlement.ObeysE (do
      let written ← attempt (setInvocationExceptionWithContext d id errorType errorMessage worker
        taskId arguments)
      settleOutcome d id worker written (releaseFinished d id))
      (fun _ => AtRest) (fun _ => AtRest) { worker := some worker } := by
    intro errorType errorMessage taskId arguments
    exact obeysE_atRest (fail_updates hd id worker errorType errorMessage taskId arguments
      (by decide)) (fun _ => quiet_of_updates) rfl
  refine Discipline.ObeysE.bind
    ((runningWrite_settles hd id worker).mono (fun _ _ h => h) ?_) ?_
  · rintro _ _ rfl
    rfl
  · rintro _ _ rfl
    refine hskip (usesE_port trivial) fun invocation => ?_
    refine hskip (usesE_port trivial) fun call => ?_
    split
    · exact hfail _ _ _ _
    · refine hskip (usesE_port trivial) fun history => ?_
      refine hskip ((identities_updates id worker).beginExecution hd id worker _ _)
        fun identity => ?_
      refine hskip (usesE_port trivial) fun _ => ?_
      refine hskip (usesE_port trivial) fun outcome => ?_
      unfold finishAttempt
      split
      · exact obeysE_atRest (releaseFinished_updates hd id worker) (fun _ => quiet_of_updates) rfl
      · split
        · exact finishSuccess_settles hd id worker _ _ _
        · dsimp only
          split
          · exact obeysE_atRest (finishRetry_actsOn hd id worker _ _ _ _ _ (by decide))
              (fun _ => quiet_of_actsOn) rfl
          · exact hfail _ _ _ _

theorem workerRound_settles (language : TaskLanguage) :
    settlement.ObeysE (workerRound d language worker) (fun _ => AtRest) (fun _ => AtRest)
      { worker := some worker } := by
  have hrelease : ∀ id, settlement.ObeysE (releaseNontransactionalConcurrencySlot d id)
      (fun _ => AtRest) (fun _ => AtRest) { worker := some worker } := fun id =>
    obeysE_atRest (releaseSlot_updates hd id worker) (fun _ => quiet_of_updates) rfl
  refine Discipline.ObeysE.bind ((obeysE_of_quiet (claimNext_dispatches hd language worker)
    (fun _ => quiet_of_dispatches) { worker := some worker }).mono (fun _ _ h => h) ?_) ?_
  · rintro _ _ rfl
    rfl
  · rintro found _ rfl
    cases found with
    | none => rfl
    | some id =>
        have hclaim : Prog.UsesE Truthful (Updates Aside id worker)
            (setInvocationStatus d id .pending worker) :=
          setInvocationStatus_updates hd id worker (by decide)
        refine obeysE_attempt_bind.mpr ((obeysE_of_quiet hclaim (fun _ => quiet_of_updates)
          { worker := some worker }).mono ?_ ?_)
        · rintro _ _ rfl
          exact executeClaimed_settles hd id worker
        · rintro e _ rfl
          dsimp only
          split
          · exact hrelease id
          · refine obeysE_attempt_bind.mpr ((hrelease id).mono ?_ ?_)
            · exact fun _ _ hg => hg
            · exact fun _ _ hg => hg

end Attempts

theorem program_settles {d : Deployment} (hd : d.publication = false) {op : Operation}
    (h : Considered op) :
    settlement.Obeys (op.program d) (fun _ => AtRest) { worker := op.worker? } := by
  have htoUnit : ∀ {α : Type} {p : Orch α} {g : Settlement},
      settlement.ObeysE p (fun _ => AtRest) (fun _ => AtRest) g →
      settlement.Obeys p.run.toUnit (fun _ => AtRest) g := by
    intro α p g hp
    refine Discipline.Obeys.toUnit (Discipline.Obeys.mono hp ?_)
    rintro (e | a) g' hg'
    · exact hg'
    · exact hg'
  cases op with
  | submit submission =>
      exact htoUnit (obeysE_atRest (submitWithId_submits hd submission)
        (fun _ => quiet_of_submits) rfl)
  | work language worker => exact htoUnit (workerRound_settles hd worker language)
  | recover runnerId id status =>
      have hstatus : Aside status := by
        revert h
        change isRecoveryStatus status = true → _
        revert status
        decide
      exact htoUnit (obeysE_atRest
        (recoverOne_actsOn hd id runnerId hstatus (by decide) (by decide))
        (fun _ => quiet_of_actsOn) rfl)
  | cancel id runnerId =>
      exact htoUnit (obeysE_atRest (cancelInvocation_updates hd id runnerId (by decide))
        (fun _ => quiet_of_updates) rfl)
  | waitFor waiter waitedOn =>
      exact htoUnit (obeysE_atRest (usesE_port (c := .setWaitingFor waiter waitedOn)
        (quiet_of_no_write rfl rfl)) (fun _ h => h) rfl)
  | evaluateTriggers runnerId => exact h.elim

/-! ## What is stored about outcomes -/

/-- **The invariant.**  The running owner's result is the stored one until it writes
`success`; from then on it is the accepted one, for good. -/
structure Settled (s : MemRuntime) (books : List Settlement) : Prop where
  stored : ∀ g ∈ books, ∀ id result, g.stored = some (id, result) → ∀ record,
    s.orchestrator.statusRecords.lookup id = some record → record.status = .running →
    record.runnerId = g.worker → s.backend.results.lookup id = some result
  accepted : ∀ g ∈ books, ∀ id result, g.accepted = some (id, result) →
    s.orchestrator.statusOf id = some .success ∧ s.backend.results.lookup id = some result
  success : ∀ id, s.orchestrator.statusOf id = some .success →
    ∃ g ∈ books, ∃ result, g.accepted = some (id, result)

section Steps

variable {s s' : MemRuntime} {before after : List Settlement} {g g' : Settlement}
  {id : InvocationId}

/-- A call that writes neither results nor records; the caller may forget a result. -/
theorem Settled.frame (h : Settled s (before ++ g :: after))
    (hrecords : s'.orchestrator.statusRecords = s.orchestrator.statusRecords)
    (hresults : s'.backend.results = s.backend.results)
    (hworker : g'.worker = g.worker) (haccepted : g'.accepted = g.accepted)
    (hstored : ∀ x, g'.stored = some x → g.stored = some x) :
    Settled s' (before ++ g' :: after) := by
  have hg : g ∈ before ++ g :: after := by simp
  refine ⟨?_, ?_, ?_⟩
  · intro x hx id result hsome record hlookup hrunning howner
    rw [hrecords] at hlookup
    rw [hresults]
    rcases mem_replaced hx with hx | rfl
    · exact h.stored x (mem_of_others hx g) id result hsome record hlookup hrunning howner
    · exact h.stored g hg id result (hstored _ hsome) record hlookup hrunning (hworker ▸ howner)
  · intro x hx id result hsome
    rw [OrchestratorState.statusOf, hrecords, hresults]
    rcases mem_replaced hx with hx | rfl
    · exact h.accepted x (mem_of_others hx g) id result hsome
    · exact h.accepted g hg id result (haccepted ▸ hsome)
  · intro id hsuccess
    rw [OrchestratorState.statusOf, hrecords] at hsuccess
    obtain ⟨x, hx, result, hsome⟩ := h.success id hsuccess
    rcases mem_replaced hx with hx | rfl
    · exact ⟨x, mem_of_others hx g', result, hsome⟩
    · exact ⟨g', by simp, result, by rw [haccepted]; exact hsome⟩

/-- `success` is only accepted from the running owner. -/
theorem running_of_accepts {runner : RunnerId} (h : Accepts s id .success runner) : ∃ record,
      s.orchestrator.statusRecords.lookup id = some record ∧ record.status = .running ∧
        record.runnerId = some runner := by
  obtain ⟨record, hlookup, hcan, hown⟩ := h
  have hrunning : record.status = .running := by
    have hall : ∀ status : InvocationStatus, status.canTransitionTo .success = true →
        status = .running := by decide
    exact hall _ hcan
  refine ⟨record, hlookup, hrunning, ?_⟩
  rcases hown with h | ⟨hrequires, -⟩
  · exact absurd h (by decide)
  · exact (hrequires (by rw [hrunning]; decide)).symm

/-- Storing a result: the caller runs the invocation, or the result is already there. -/
theorem Settled.storeResult (h : Settled s (before ++ g :: after)) {result : String}
    {worker : RunnerId} (hworker : g.worker = some worker) (haccepted : g.accepted = none)
    (hothers : ∀ x ∈ before ++ after, x.worker = some worker → x.stored = none)
    (howner : Accepts s id .success worker ∨ s.backend.results.lookup id = some result)
    (hrecords : s'.orchestrator.statusRecords = s.orchestrator.statusRecords)
    (hresults : s'.backend.results = s.backend.results.insert id result) :
    Settled s' (before ++ { g with stored := some (id, result) } :: after) := by
  have hlookup : ∀ x, x ≠ id → s'.backend.results.lookup x = s.backend.results.lookup x := by
    intro x hx
    rw [hresults, AList.lookup_insert_ne hx]
  have hself : s'.backend.results.lookup id = some result := by
    rw [hresults, AList.lookup_insert]
  refine ⟨?_, ?_, ?_⟩
  · intro x hx y value hsome record hrecord hrunning hby
    rw [hrecords] at hrecord
    rcases mem_replaced hx with hother | rfl
    · have hold := h.stored x (mem_of_others hother g) y value hsome record hrecord hrunning
        hby
      by_cases hy : y = id
      · subst hy
        rcases howner with haccepts | halready
        · -- the caller owns the running invocation, and nobody else of its name is at it
          obtain ⟨stored, hstored, -, howned⟩ := running_of_accepts haccepts
          rw [hrecord] at hstored
          cases hstored
          rw [hothers x hother (hby.symm.trans howned)] at hsome
          cases hsome
        · rw [hself, ← hold, halready]
      · rw [hlookup y hy]
        exact hold
    · cases hsome
      exact hself
  · intro x hx y value hsome
    have hx : x ∈ before ++ after := by
      rcases mem_replaced hx with hx | rfl
      · exact hx
      · rw [haccepted] at hsome
        cases hsome
    obtain ⟨hsuccess, hold⟩ := h.accepted x (mem_of_others hx g) y value hsome
    rw [OrchestratorState.statusOf, hrecords]
    refine ⟨hsuccess, ?_⟩
    by_cases hy : y = id
    · subst hy
      rcases howner with haccepts | halready
      · obtain ⟨stored, hstored, hrunning, -⟩ := running_of_accepts haccepts
        rw [OrchestratorState.statusOf, hstored] at hsuccess
        simp [hrunning] at hsuccess
      · rw [hself, ← hold, halready]
    · rw [hlookup y hy]
      exact hold
  · intro y hsuccess
    rw [OrchestratorState.statusOf, hrecords] at hsuccess
    obtain ⟨x, hx, value, hsome⟩ := h.success y hsuccess
    rcases mem_replaced hx with hx | rfl
    · exact ⟨x, mem_of_others hx _, value, hsome⟩
    · rw [haccepted] at hsome
      cases hsome

section Accepted

variable {id : InvocationId} {status : InvocationStatus} {runnerId : Option RunnerId}
  {current record : InvocationStatusRecord} {now : Timestamp}
  (h : Settled s (before ++ g :: after))
  (hlookup : s.orchestrator.statusRecords.lookup id = some current)
  (htrans : statusRecordTransition now (some current) status runnerId = .ok record)
  (hrecords : s'.orchestrator.statusRecords = s.orchestrator.statusRecords.insert id record)
  (hresults : s'.backend.results = s.backend.results)
include hlookup htrans in
theorem current_ne_success : s.orchestrator.statusOf id ≠ some .success := by
  intro hsuccess
  obtain ⟨hcan, -⟩ := (statusRecordTransition_ok_iff _ _ _ _ _).mp htrans
  rw [OrchestratorState.statusOf, hlookup] at hsuccess
  have hstatus : current.status = .success := Option.some.inj hsuccess
  rw [hstatus] at hcan
  rw [InvocationStatus.canTransitionTo_of_isTerminal (by decide)] at hcan
  cases hcan

include h hrecords hresults in
/-- Results that wait for `success`, for every invocation but the written one. -/
theorem stored_after {x : Settlement} (hx : x ∈ before ++ g :: after) {y : InvocationId}
    (hy : y ≠ id) {value : String} (hsome : x.stored = some (y, value))
    {found : InvocationStatusRecord}
    (hfound : s'.orchestrator.statusRecords.lookup y = some found)
    (hrunning : found.status = .running) (howner : found.runnerId = x.worker) :
    s'.backend.results.lookup y = some value := by
  rw [hrecords, AList.lookup_insert_ne hy] at hfound
  rw [hresults]
  exact h.stored x hx y value hsome found hfound hrunning howner

include h hlookup htrans hrecords hresults

/-- Accepted results of other invocations, and of this one there are none yet. -/
theorem accepted_after {x : Settlement} (hx : x ∈ before ++ g :: after) {y : InvocationId}
    {value : String} (hsome : x.accepted = some (y, value)) :
    s'.orchestrator.statusOf y = some .success ∧ s'.backend.results.lookup y = some value := by
  obtain ⟨hsuccess, hold⟩ := h.accepted x hx y value hsome
  have hy : y ≠ id := by
    rintro rfl
    exact current_ne_success hlookup htrans hsuccess
  rw [s.orchestrator.statusOf_of_insert id record hrecords y, if_neg hy, hresults]
  exact ⟨hsuccess, hold⟩

/-- `success` by the caller whose result is stored. -/
theorem Settled.succeed (hstatus : status = .success) {result : String}
    (hstored : g.stored = some (id, result)) (hrunner : runnerId = g.worker)
    (haccepted : g.accepted = none) :
    Settled s' (before ++ { g with stored := none, accepted := g.stored } :: after) := by
  subst hstatus
  have hg : g ∈ before ++ g :: after := by simp
  obtain ⟨hcan, hown, rfl⟩ := (statusRecordTransition_ok_iff _ _ _ _ _).mp htrans
  have hwritten : s'.orchestrator.statusOf id = some .success := by
    rw [s.orchestrator.statusOf_of_insert id _ hrecords id, if_pos rfl]
  have hvalue : s'.backend.results.lookup id = some result := by
    -- the caller is the running owner, so its result is the stored one
    have hrunning : current.status = .running := by
      have hall : ∀ status : InvocationStatus, status.canTransitionTo .success = true →
          status = .running := by decide
      exact hall _ hcan
    have howner : current.runnerId = g.worker := by
      rcases hown with hover | ⟨hrequires, -⟩
      · exact absurd hover (by decide)
      · rw [← hrunner]
        exact (hrequires (by rw [hrunning]; decide)).symm
    rw [hresults]
    exact h.stored g hg id result hstored current hlookup hrunning howner
  refine ⟨?_, ?_, ?_⟩
  · intro x hx y value hsome found hfound hrunning howner
    rcases mem_replaced hx with hother | rfl
    · by_cases hy : y = id
      · rw [hy, hrecords, AList.lookup_insert] at hfound
        cases hfound
        cases hrunning
      · exact stored_after h hrecords hresults (mem_of_others hother g) hy
          hsome hfound hrunning howner
    · cases hsome
  · intro x hx y value hsome
    rcases mem_replaced hx with hother | rfl
    · exact accepted_after h hlookup htrans hrecords hresults (mem_of_others hother g) hsome
    · dsimp only at hsome
      rw [hstored] at hsome
      cases hsome
      exact ⟨hwritten, hvalue⟩
  · intro y hsuccess
    by_cases hy : y = id
    · subst hy
      exact ⟨{ g with stored := none, accepted := g.stored }, by simp, result, hstored⟩
    · rw [s.orchestrator.statusOf_of_insert id _ hrecords y, if_neg hy] at hsuccess
      obtain ⟨x, hx, value, hsome⟩ := h.success y hsuccess
      rcases mem_replaced hx with hother | rfl
      · exact ⟨x, mem_of_others hother _, value, hsome⟩
      · rw [haccepted] at hsome
        cases hsome

/-- Any other accepted status write. -/
theorem Settled.move (hstatus : status ≠ .success)
    (hrunning : status = .running → runnerId.isSome = true ∧ runnerId = g.worker ∧
      g.stored = none)
    (hothers : ∀ worker, g.worker = some worker → ∀ x ∈ before ++ after,
      x.worker = some worker → x.stored = none) :
    Settled s' (before ++ g :: after) := by
  obtain ⟨hcan, hown, rfl⟩ := (statusRecordTransition_ok_iff _ _ _ _ _).mp htrans
  refine ⟨?_, fun x hx y value hsome =>
    accepted_after h hlookup htrans hrecords hresults hx hsome, ?_⟩
  · intro x hx y value hsome found hfound hfoundRunning howner
    by_cases hy : y = id
    · -- only the running owner can have become this one: the caller, who has no result yet
      rw [hy, hrecords, AList.lookup_insert] at hfound
      cases hfound
      obtain ⟨hsomeRunner, hworker, hnone⟩ := hrunning hfoundRunning
      obtain ⟨worker, rfl⟩ := Option.isSome_iff_exists.mp hsomeRunner
      have hcurrent : current.runnerId = some worker := by
        rcases hown with hover | ⟨hrequires, -⟩
        · rw [show status = .running from hfoundRunning] at hover
          exact absurd hover (by decide)
        · refine (hrequires ?_).symm
          rw [InvocationStatus.requiresOwnership_iff]
          exact InvocationStatus.owned_of_canTransitionTo_owned hcan (.inl hfoundRunning)
      have hnew : computeNewOwner (some current) status (some worker) = some worker := by
        rw [show status = .running from hfoundRunning]
        exact hcurrent
      have hx' : x.stored = none := by
        rcases mem_replaced hx with hother | rfl
        · exact hothers worker hworker.symm x hother (howner.symm.trans hnew)
        · exact hnone
      rw [hx'] at hsome
      cases hsome
    · exact stored_after h hrecords hresults hx hy hsome hfound hfoundRunning howner
  · intro y hsuccess
    rw [s.orchestrator.statusOf_of_insert id _ hrecords y] at hsuccess
    split at hsuccess
    · exact absurd (Option.some.inj hsuccess) hstatus
    · exact h.success y hsuccess

end Accepted

theorem settled_setInvocationStatus (env : Env) (h : Settled s (before ++ g :: after))
    {status : InvocationStatus} {runnerId : Option RunnerId}
    (hpre : settlement.pre (.setInvocationStatus id status runnerId) g)
    (hothers : ∀ worker, g.worker = some worker → ∀ x ∈ before ++ after,
      x.worker = some worker → x.stored = none) :
    Settled (MemRuntime.exec env (.setInvocationStatus id status runnerId) s).2
      (before ++ Settlement.next (.setInvocationStatus id status runnerId)
        (MemRuntime.exec env (.setInvocationStatus id status runnerId) s).1 g :: after) := by
  obtain ⟨hsuccess, hrunning⟩ := hpre
  -- a refused write: the caller forgets a result it wanted to finish with
  have hrefused : ∀ e : RustvelloError, Settled s
      (before ++ Settlement.next (.setInvocationStatus id status runnerId) (.error e) g ::
        after) := by
    intro e
    by_cases hs : status = .success
    · subst hs
      exact h.frame rfl rfl rfl rfl fun x hx => by cases hx
    · rw [Settlement.next_aside hs]
      exact h
  obtain ⟨current, record, ccIndex, ccReverse, hlookup, htrans, heq⟩ | ⟨_, _, -, -, heq⟩ |
    ⟨-, heq⟩ := s.orchestrator.setInvocationStatus_cases env.clock id status runnerId
  · simp only [MemRuntime.exec, heq]
    by_cases hs : status = .success
    · subst hs
      obtain ⟨⟨result, hstored⟩, hrunner, haccepted⟩ := hsuccess rfl
      exact h.succeed hlookup htrans rfl rfl rfl hstored hrunner haccepted
    · rw [Settlement.next_aside hs]
      exact h.move hlookup htrans rfl rfl hs hrunning hothers
  · simp only [MemRuntime.exec, heq]
    exact hrefused _
  · simp only [MemRuntime.exec, heq]
    exact hrefused _

/-- Registering a new invocation. -/
theorem Settled.register (h : Settled s (before ++ g :: after))
    (hfresh : s.orchestrator.statusOf id = none) {record : InvocationStatusRecord}
    (hstatus : record.status = .registered)
    (hrecords : s'.orchestrator.statusRecords = s.orchestrator.statusRecords.insert id record)
    (hresults : s'.backend.results = s.backend.results) : Settled s' (before ++ g :: after) := by
  refine ⟨?_, ?_, ?_⟩
  · intro x hx y value hsome found hfound hrunning howner
    by_cases hy : y = id
    · rw [hy, hrecords, AList.lookup_insert] at hfound
      cases hfound
      rw [hstatus] at hrunning
      cases hrunning
    · exact stored_after h hrecords hresults hx hy hsome hfound hrunning howner
  · intro x hx y value hsome
    obtain ⟨hsuccess, hold⟩ := h.accepted x hx y value hsome
    have hy : y ≠ id := by
      rintro rfl
      rw [hfresh] at hsuccess
      cases hsuccess
    rw [s.orchestrator.statusOf_of_insert id record hrecords y, if_neg hy, hresults]
    exact ⟨hsuccess, hold⟩
  · intro y hsuccess
    rw [s.orchestrator.statusOf_of_insert id record hrecords y] at hsuccess
    split at hsuccess
    · rw [hstatus] at hsuccess
      cases hsuccess
    · exact h.success y hsuccess

end Steps

/-! ## Runs -/

/-- Registered ids are new, and a worker makes one round at a time. -/
def oneRoundEach : Guard ports MemRuntime Operation where
  start s op := Considered op ∧ ∀ worker ∈ op.worker?, ∀ t ∈ s.threads,
    t.task.worker? = some worker → t.next? = none
  call s _ c := ∀ id ∈ c.registered?, s.shared.orchestrator.statusOf id = none

/-- A result is stored by the worker that runs the invocation, or it is there already. -/
def storedByOwner : Guard ports MemRuntime Operation where
  start _ _ := True
  call s i c := ∀ write ∈ c.resultWrite?, ∀ t ∈ s.threads[i]?, ∀ worker ∈ t.task.worker?,
    Accepts s.shared write.1 .success worker ∨
      s.shared.backend.results.lookup write.1 = some write.2

section Runs

variable {d : Deployment} {s : System ports MemRuntime Operation}

/-- Of two operations of one worker at least one has finished. -/
theorem one_round {G : Guard ports MemRuntime Operation}
    (hreach : Reachable (memMachine d) (oneRoundEach.and G) memStart s) {i j : Nat} {t t' : Thread ports Operation}
    {worker : RunnerId} (hij : i ≠ j) (ht : s.threads[i]? = some t)
    (ht' : s.threads[j]? = some t') (hworker : t.task.worker? = some worker)
    (hworker' : t'.task.worker? = some worker) : t.next? = none ∨ t'.next? = none := by
  induction hreach generalizing i j t t' with
  | refl => cases ht
  | @next s s' l _ hallow happly ih =>
      obtain ⟨op, rfl, rfl⟩ | ⟨k, env, u, c, prog, rfl, hu, hprog, rfl⟩ :=
        System.apply_cases happly
      · -- the new operation comes last; the earlier ones of its worker have finished
        have hlast : ∀ {n : Nat} {x : Thread ports Operation},
            (s.threads ++ [⟨op, (memMachine d).program op, []⟩])[n]? = some x →
            s.threads[n]? = some x ∨ n = s.threads.length ∧ x.task = op := by
          intro n x hx
          rw [List.getElem?_append] at hx
          split at hx
          · exact .inl hx
          · rename_i hn
            right
            have hzero : n - s.threads.length = 0 := by
              by_contra hne
              rw [List.getElem?_eq_none (by simp; omega)] at hx
              cases hx
            rw [hzero] at hx
            cases hx
            exact ⟨by omega, rfl⟩
        rcases hlast ht with ht | ⟨hi, rfl⟩ <;> rcases hlast ht' with ht' | ⟨hj, htask⟩
        · exact ih hij ht ht' hworker hworker'
        · rw [htask] at hworker'
          exact .inl (hallow.1.2 worker hworker' t (List.mem_of_getElem? ht) hworker)
        · exact .inr (hallow.1.2 worker hworker t' (List.mem_of_getElem? ht') hworker')
        · exact absurd (hi.trans hj.symm) hij
      · -- a call of one operation: the other one of its worker had finished
        have hopen : u.next? ≠ none := by simp [Thread.next?, hprog]
        have hset : ∀ {n : Nat} {x : Thread ports Operation},
            (s.afterCall (memMachine d) k u env c prog).threads[n]? = some x →
            n = k ∧ x.task = u.task ∨ n ≠ k ∧ s.threads[n]? = some x := by
          intro n x hx
          unfold System.afterCall at hx
          dsimp only at hx
          by_cases hn : k = n
          · subst hn
            rw [List.getElem?_set_self (List.getElem?_eq_some_iff.mp hu).1] at hx
            cases hx
            exact .inl ⟨rfl, rfl⟩
          · rw [List.getElem?_set_ne hn] at hx
            exact .inr ⟨Ne.symm hn, hx⟩
        rcases hset ht with ⟨hi, htask⟩ | ⟨hi, hold⟩ <;>
          rcases hset ht' with ⟨hj, htask'⟩ | ⟨hj, hold'⟩
        · exact absurd (hi.trans hj.symm) hij
        · rw [htask] at hworker
          exact .inr ((ih (Ne.symm hj) hu hold' hworker hworker').resolve_left hopen)
        · rw [htask'] at hworker'
          exact .inl ((ih hi hold hu hworker hworker').resolve_right hopen)
        · exact ih hij hold hold' hworker hworker'

/-- The worker of a book is the one that was started. -/
theorem book_worker (t : Thread ports Operation) :
    (settlement.book t).worker = t.task.worker? := by
  refine settlement.book_field Settlement.worker (fun c r g => ?_) t
  change (Settlement.next c r g).worker = _
  unfold Settlement.next
  split <;> rfl

theorem reachable_settled (hd : d.publication = false)
    (hreach : Reachable (memMachine d) (oneRoundEach.and storedByOwner) memStart s) :
    Settled s.shared (s.books settlement.toMonitor) := by
  refine (settlement.invariant AtRest Settled ?_ ?_ ?_ ?_ hreach).2
  · intro _ op hstart
    exact program_settles hd hstart.1.1
  · refine ⟨by simp [Discipline.AllObey, memStart], ⟨?_, ?_, ?_⟩⟩
    · intro g hg
      cases hg
    · intro g hg
      cases hg
    · intro id hsuccess
      cases hsuccess
  · intro s op _ hinv
    have hnew : ∀ x ∈ s.books settlement.toMonitor ++ [settlement.start op],
        x ∈ s.books settlement.toMonitor ∨ x.stored = none ∧ x.accepted = none := by
      intro x hx
      rcases List.mem_append.mp hx with hx | hx
      · exact .inl hx
      · rw [List.mem_singleton.mp hx]
        exact .inr ⟨rfl, rfl⟩
    refine ⟨?_, ?_, ?_⟩
    · intro x hx id result hsome
      rcases hnew x hx with hx | ⟨hnone, -⟩
      · exact hinv.stored x hx id result hsome
      · rw [hnone] at hsome
        cases hsome
    · intro x hx id result hsome
      rcases hnew x hx with hx | ⟨-, hnone⟩
      · exact hinv.accepted x hx id result hsome
      · rw [hnone] at hsome
        cases hsome
    · intro id hsuccess
      obtain ⟨x, hx, hsome⟩ := hinv.success id hsuccess
      exact ⟨x, List.mem_append_left _ hx, hsome⟩
  · intro s i env t c before after hturn hinv
    refine ⟨exec_truthful env c s.shared, ?_⟩
    -- another operation of the caller's worker has finished and holds nothing
    have hothers : ∀ worker, (settlement.book t).worker = some worker →
        ∀ x ∈ before ++ after, x.worker = some worker → x.stored = none := by
      intro worker hworker x hx hxworker
      obtain ⟨j, t', hj, ht', rfl⟩ := hturn.others x hx
      rw [book_worker] at hworker hxworker
      have hfinished : t'.next? = none := by
        refine (one_round hturn.reachable (Ne.symm hj) hturn.thread ht' hworker
          hxworker).resolve_left ?_
        rw [hturn.next]
        simp
      have hob := hturn.obey t' (List.mem_of_getElem? ht')
      cases hprog : t'.prog with
      | call c k => simp [Thread.next?, hprog] at hfinished
      | done a =>
          rw [hprog] at hob
          exact hob
    cases c <;> first
      | exact hinv.frame rfl rfl rfl rfl fun _ h => h
      | skip
    case registerInvocationWithId id call runnerId =>
        exact hinv.register (hturn.allowed.1 id rfl) rfl rfl rfl
    case setInvocationStatus id status runnerId =>
        exact settled_setInvocationStatus env hinv hturn.permitted hothers
    case tryAcquireConcurrencySlot id taskId config ccArgs =>
        exact hinv.frame (OrchestratorState.tryAcquireConcurrencySlot_statusRecords _ _ _ _ _)
          rfl rfl rfl fun _ h => h
    case removeFromConcurrencyIndex id =>
        exact hinv.frame (OrchestratorState.removeFromConcurrencyIndex_statusRecords _ _)
          rfl rfl rfl fun _ h => h
    case storeResult id result =>
        obtain ⟨hworker, -, haccepted⟩ := hturn.permitted
        obtain ⟨worker, hworker⟩ := Option.isSome_iff_exists.mp hworker
        have htask := hworker
        rw [book_worker] at htask
        exact hinv.storeResult hworker haccepted (hothers worker hworker)
          (hturn.allowed.2 (id, result) rfl t hturn.thread worker htask) rfl rfl

/-- The operation's own result was accepted as the outcome of the invocation. -/
def AcceptedResult (t : Thread ports Operation) (id : InvocationId) (result : String) : Prop :=
  (settlement.book t).accepted = some (id, result)

instance (t : Thread ports Operation) (id : InvocationId) (result : String) :
    Decidable (AcceptedResult t id result) :=
  inferInstanceAs (Decidable (_ = _))

/-- The stored result of a successful invocation is the one whose `success` was accepted. -/
theorem result_of_success (hd : d.publication = false)
    (hreach : Reachable (memMachine d) (oneRoundEach.and storedByOwner) memStart s)
    {id : InvocationId} (hsuccess : s.shared.orchestrator.statusOf id = some .success) :
    ∃ result, s.shared.backend.results.lookup id = some result ∧
      (∃ t ∈ s.threads, AcceptedResult t id result) ∧
      ∀ t ∈ s.threads, ∀ other, AcceptedResult t id other → other = result := by
  have hinv := reachable_settled hd hreach
  obtain ⟨g, hg, result, haccepted⟩ := hinv.success id hsuccess
  obtain ⟨t, ht, rfl⟩ := List.mem_map.mp hg
  have hresult := (hinv.accepted _ hg id result haccepted).2
  refine ⟨result, hresult, ⟨t, ht, haccepted⟩, fun t' ht' other hother => ?_⟩
  have hother' := (hinv.accepted _ (List.mem_map.mpr ⟨t', ht', rfl⟩) id other hother).2
  rw [hresult] at hother'
  exact (Option.some.inj hother').symm

end Runs

/-- **Refused outcomes.**  A refused result or error changes nothing exactly when the
invocation is unknown, the request would be accepted, or the payload is there already;
and in every run in which results are stored under that condition, the stored result of a
successful invocation is the accepted one. -/
theorem refusedOutcomes {d : Deployment} (hd : d.publication = false) :
    (∀ id result runner taskId arguments s,
      RefusalChangesNothing
          (setInvocationResultWithContext d id result runner taskId arguments) id s ↔
        s.orchestrator.statusRecords.lookup id = none ∨ Accepts s id .success runner ∨
          s.backend.results.lookup id = some result) ∧
    (∀ id errorType errorMessage runner taskId arguments s,
      RefusalChangesNothing
          (setInvocationExceptionWithContext d id errorType errorMessage runner taskId arguments)
          id s ↔
        s.orchestrator.statusRecords.lookup id = none ∨ Accepts s id .failed runner ∨
          s.backend.errors.lookup id = some ⟨errorType, errorMessage, none⟩) ∧
    ∀ s, Reachable (memMachine d) (oneRoundEach.and storedByOwner) memStart s →
      ∀ id, s.shared.orchestrator.statusOf id = some .success →
        ∃ result, s.shared.backend.results.lookup id = some result ∧
          (∃ t ∈ s.threads, AcceptedResult t id result) ∧
          ∀ t ∈ s.threads, ∀ other, AcceptedResult t id other → other = result := by
  refine ⟨?_, ?_, ?_⟩
  · intro id result runner taskId arguments s
    exact refusedResult_iff hd result s
  · intro id errorType errorMessage runner taskId arguments s
    exact refusedException_iff hd errorType errorMessage s
  · intro s hreach id hsuccess
    exact result_of_success hd hreach hsuccess

/-! ### A late attempt -/

instance (s : MemRuntime) (id : InvocationId) (target : InvocationStatus) (runner : RunnerId) :
    Decidable (Accepts s id target runner) :=
  decidable_of_iff (∃ current ∈ s.orchestrator.statusRecords.lookup id,
    current.status.canTransitionTo target = true ∧ OwnershipOk current target (some runner))
    Iff.rfl

instance (s : System ports MemRuntime Operation) (op : Operation) :
    Decidable (oneRoundEach.start s op) :=
  inferInstanceAs (Decidable (_ ∧ ∀ worker ∈ op.worker?, ∀ t ∈ s.threads, _ → t.next? = none))

instance (s : System ports MemRuntime Operation) (i : Nat) (c : PortCall) :
    Decidable (oneRoundEach.call s i c) :=
  inferInstanceAs (Decidable (∀ id ∈ c.registered?, _ = none))

instance (s : System ports MemRuntime Operation) (op : Operation) :
    Decidable (storedByOwner.start s op) :=
  inferInstanceAs (Decidable True)

instance (s : System ports MemRuntime Operation) (i : Nat) (c : PortCall) :
    Decidable (storedByOwner.call s i c) :=
  inferInstanceAs (Decidable (∀ write ∈ c.resultWrite?, ∀ t ∈ s.threads[i]?,
    ∀ worker ∈ t.task.worker?, _ ∨ _))

/-- The first worker has its result at hand when its attempt of `a` is recovered; the
second one runs `a` again and succeeds. -/
def recoveredAndRun : List (Label Env Operation) :=
  .start (submitSerial "a") :: Label.steps 0 6 idleEnv ++
    .start (.work .rust ⟨"w1"⟩) :: Label.steps 1 18 { result := .ok "old" } ++
    .start (.recover ⟨"janitor"⟩ ⟨"a"⟩ .runningRecovery) :: Label.steps 2 8 idleEnv ++
    .start (.work .rust ⟨"w2"⟩) :: Label.steps 3 22 { result := .ok "new" }

/-- The second worker's result is the stored one, as long as the first one is silent. -/
theorem refusedOutcomes_recoveredAndRun :
    ∃ s, Reachable (memMachine serialDeployment) (oneRoundEach.and storedByOwner) memStart s ∧
      s.shared.orchestrator.statusOf ⟨"a"⟩ = some .success ∧
      ∃ result, s.shared.backend.results.lookup ⟨"a"⟩ = some result ∧
        (∃ t ∈ s.threads, AcceptedResult t ⟨"a"⟩ result) ∧
        ∀ t ∈ s.threads, ∀ other, AcceptedResult t ⟨"a"⟩ other → other = result := by
  obtain ⟨s, hreach, hsuccess⟩ := Reachable.exists_of_run (memMachine serialDeployment)
    (oneRoundEach.and storedByOwner) memStart recoveredAndRun
    (fun s => s.shared.orchestrator.statusOf ⟨"a"⟩ = some .success)
    (by decide +kernel) (by decide +kernel)
  exact ⟨s, hreach, hsuccess, (refusedOutcomes rfl).2.2 s hreach ⟨"a"⟩ hsuccess⟩

/-- **A refused result replaces the accepted one.**  The late result of the first worker
is refused after it was stored: the call changes the result of a finished invocation, and
the run ends with a result that nobody accepted. -/
theorem staleResult_overwrites :
    (∃ s, Reachable (memMachine serialDeployment) oneRoundEach memStart s ∧
      ¬ RefusalChangesNothing (setInvocationResultWithContext serialDeployment ⟨"a"⟩ "old" ⟨"w1"⟩
        serialTask .empty) ⟨"a"⟩ s.shared) ∧
    ∃ s, Reachable (memMachine serialDeployment) oneRoundEach memStart s ∧
      s.shared.orchestrator.statusOf ⟨"a"⟩ = some .success ∧
      s.shared.backend.results.lookup ⟨"a"⟩ = some "old" ∧
      ∃ t ∈ s.threads, AcceptedResult t ⟨"a"⟩ "new" := by
  constructor
  · obtain ⟨s, hreach, hstate⟩ := Reachable.exists_of_run (memMachine serialDeployment)
      oneRoundEach memStart recoveredAndRun
      (fun s => (s.shared.orchestrator.statusRecords.lookup ⟨"a"⟩).isSome = true ∧
        ¬ Accepts s.shared ⟨"a"⟩ .success ⟨"w1"⟩ ∧
        s.shared.backend.results.lookup ⟨"a"⟩ ≠ some "old")
      (by decide +kernel) (by decide +kernel)
    refine ⟨s, hreach, fun hunchanged => ?_⟩
    obtain ⟨hknown, hrefused, hother⟩ := hstate
    rcases (refusedResult_iff rfl "old" s.shared).mp hunchanged with hnone | haccepts | hsame
    · rw [hnone] at hknown
      cases hknown
    · exact hrefused haccepts
    · exact hother hsame
  · exact Reachable.exists_of_run (memMachine serialDeployment) oneRoundEach memStart
      (recoveredAndRun ++ Label.steps 1 1 idleEnv)
      (fun s => s.shared.orchestrator.statusOf ⟨"a"⟩ = some .success ∧
        s.shared.backend.results.lookup ⟨"a"⟩ = some "old" ∧
        ∃ t ∈ s.threads, AcceptedResult t ⟨"a"⟩ "new")
      (by decide +kernel) (by decide +kernel)

end Rustvello.Mem
