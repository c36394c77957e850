import Rustvello.Orchestration.Calls

/-!
# Publishing a trigger run at most once

Without a transaction `publish_trigger_run` reads the status of the planned
invocation, then registers it, and reads the history, then appends the `registered`
entry.  Each write is right for what was read; nothing makes the read last.

* `publication` — the book of an evaluator: what it last read as missing;
* `program_publishes` — every evaluator, repeated or stopped anywhere, registers only
  what it read as unknown and records only what it read as unrecorded;
* `OnceRegistered` — kept by every call whose read still holds;
* `registered_once` — hence by every run of such calls;
* `secondEvaluator_registers` — an evaluator that read too early registers a finished
  invocation again.
-/

namespace Rustvello.Mem

open Concurrency Proto Rustvello.Core Orchestration

/-- An entry that records a registration. -/
def IsRegistration (entry : InvocationHistory) : Prop :=
  entry.statusRecord.status = .registered

instance (entry : InvocationHistory) : Decidable (IsRegistration entry) :=
  inferInstanceAs (Decidable (_ = _))

/-- The `registered` entries in the history of an invocation. -/
def registrations (s : MemRuntime) (id : InvocationId) : List InvocationHistory :=
  (s.backend.historyOf id).filter fun entry => IsRegistration entry

/-! ## What evaluators have read -/

/-- The book of an operation that may register an invocation. -/
structure Readings where
  /-- A submission registers and records its own invocation. -/
  submission : Option InvocationId := none
  /-- The invocation last read as unknown. -/
  unknown : Option InvocationId := none
  /-- The invocation whose history, read last, had no `registered` entry. -/
  unrecorded : Option InvocationId := none
deriving DecidableEq

def Readings.next : (c : PortCall) → RustvelloResult c.Ans → Readings → Readings
  | .getInvocationStatus id, .error e, g =>
      if e.isInvocationNotFound then { g with unknown := some id } else g
  | .getHistory id, .ok history, g =>
      { g with unrecorded := if history.any fun h => decide (h.statusRecord.status = .registered)
          then none else some id }
  | _, _, g => g

/-- Invocations are registered by their submission or after they were read as unknown,
and likewise recorded. -/
def publication : Discipline ports Operation Readings where
  start op := { submission := op.submission?.map Submission.invocationId }
  next := Readings.next
  pre
    | .registerInvocationWithId id _ _, g => g.submission = some id ∨ g.unknown = some id
    | .addHistory entry, g => IsRegistration entry →
        g.submission = some entry.invocationId ∨ g.unrecorded = some entry.invocationId
    | _, _ => True
  resp c _ r := Truthful c r

/-- Always permitted. -/
abbrev Unguarded : PortCall → Prop :=
  publication.Keeps fun _ => True

variable {c : PortCall}

theorem unguarded_of (h : ∀ g, publication.pre c g) : Unguarded c :=
  fun g _ => ⟨h g, fun _ _ => trivial⟩

theorem unguarded_of_no_write (hregister : c.registered? = none)
    (hhistory : c.historyWrite? = none) : Unguarded c := by
  cases c <;> first
    | (simp [PortCall.registered?, PortCall.historyWrite?] at hregister hhistory; done)
    | exact unguarded_of fun _ => trivial

theorem unguarded_of_updates {id : InvocationId} {runner : RunnerId}
    (h : Updates (· ≠ .registered) id runner c) : Unguarded c := by
  cases c <;> first | exact False.elim h | exact unguarded_of_no_write rfl rfl | skip
  case addHistory entry => exact unguarded_of fun _ hregistration => absurd hregistration h.2

theorem unguarded_of_actsOn {id : InvocationId} {runner : RunnerId}
    (h : ActsOn (· ≠ .registered) id runner c) : Unguarded c := by
  rcases h with h | hrouted
  · exact unguarded_of_updates h
  · cases c <;> first
      | (simp [PortCall.routed?] at hrouted; done)
      | exact unguarded_of_no_write rfl rfl

theorem unguarded_of_dispatches (h : Dispatches c) : Unguarded c := by
  cases c <;> first | exact False.elim h | exact unguarded_of_no_write rfl rfl

/-- An operation of free calls. -/
theorem obeysE_of_unguarded {α : Type} {P : PortCall → Prop} {p : Orch α}
    (h : Prog.UsesE Truthful P p) (hP : ∀ c, P c → Unguarded c) (g : Readings) :
    publication.ObeysE p (fun _ _ => True) (fun _ _ => True) g :=
  Discipline.ObeysE.of_keeps (Prog.Uses.mono h (fun _ _ ⟨_, hr⟩ => hr) hP) trivial

/-- One free call before the rest. -/
theorem obeysE_unguarded_bind {β : Type} {f : c.Ans → Orch β} (hc : Unguarded c) {g : Readings}
    (hf : ∀ a, publication.ObeysE (f a) (fun _ _ => True) (fun _ _ => True)
      (publication.next c (.ok a) g)) :
    publication.ObeysE (port c >>= f) (fun _ _ => True) (fun _ _ => True) g :=
  obeysE_port_bind.mpr ⟨(hc g trivial).1, fun a _ => hf a, fun _ _ => trivial⟩

section Evaluators

variable {d : Deployment}

/-- A submission writes about its own invocation only. -/
theorem submitWithId_publishes (hd : d.publication = false) (submission : Submission) :
    publication.ObeysE (submitWithId d submission) (fun _ _ => True) (fun _ _ => True)
      { submission := some submission.invocationId } := by
  have hkeeps : ∀ c, Submits submission c →
      publication.Keeps (fun g => g = { submission := some submission.invocationId }) c := by
    rintro c hc g rfl
    cases c <;> first | exact False.elim hc | exact ⟨trivial, fun _ _ => rfl⟩ | skip
    case registerInvocationWithId id call runnerId =>
        exact ⟨.inl (congrArg some hc.1.symm), fun _ _ => rfl⟩
    case addHistory entry =>
        have hid : some submission.invocationId = some entry.invocationId :=
          congrArg some (Eq.symm hc)
        exact ⟨fun _ => .inl hid, fun _ _ => rfl⟩
  exact (Discipline.ObeysE.of_keeps (Prog.Uses.mono (submitWithId_submits hd submission)
    (fun _ _ ⟨_, hr⟩ => hr) hkeeps) rfl).mono (fun _ _ _ => trivial) fun _ _ _ => trivial

/-- The `registered` entry is appended only when the history just read had none. -/
theorem recordRegistered_publishes (id : InvocationId) (runnerId : RunnerId) (g : Readings) :
    publication.ObeysE (recordRegistered id runnerId) (fun _ _ => True) (fun _ _ => True) g := by
  refine obeysE_unguarded_bind (unguarded_of_no_write rfl rfl) fun history => ?_
  split
  · trivial
  · rename_i hnone
    refine obeysE_unguarded_bind (unguarded_of_no_write rfl rfl) fun record => ?_
    have hread : (publication.next (.getInvocationStatus id) (.ok record)
        (publication.next (.getHistory id) (.ok history) g)).unrecorded = some id := by
      change (if _ then _ else _) = some id
      exact if_neg hnone
    refine obeysE_port.mpr ⟨fun _ => .inr hread, ?_⟩
    rintro (e | a) _ <;> trivial

theorem completePublication_publishes (run : TriggerRunRecord) (id : InvocationId)
    (call : CallDTO) (runnerId : RunnerId) (route : PublicationRoute) (g : Readings) :
    publication.ObeysE (completePublication run id call runnerId route) (fun _ _ => True)
      (fun _ _ => True) g := by
  refine obeysE_unguarded_bind (unguarded_of_no_write rfl rfl) fun now => ?_
  refine obeysE_unguarded_bind (unguarded_of_no_write rfl rfl) fun _ => ?_
  refine Discipline.ObeysE.bind (recordRegistered_publishes id runnerId _) fun _ g' _ => ?_
  exact obeysE_of_unguarded (usesE_port (unguarded_of_no_write rfl rfl)) (fun _ h => h) g'

/-- The planned invocation is registered only when its status was read as unknown. -/
theorem publishTriggerRun_publishes (hd : d.publication = false) (run : TriggerRunRecord)
    (id : InvocationId) (runnerId : RunnerId) (route : PublicationRoute) (g : Readings) :
    publication.ObeysE (publishTriggerRun d run id runnerId route) (fun _ _ => True)
      (fun _ _ => True) g := by
  have hexisting : publication.ObeysE (existingStatus id)
      (fun existing g' => existing = none → g'.unknown = some id) (fun _ _ => True) g := by
    refine obeysE_attempt_bind.mpr (obeysE_port.mpr ⟨trivial, ?_⟩)
    rintro (error | record) _
    · change publication.ObeysE (if error.isInvocationNotFound then pure none else throw error)
        _ _ (if error.isInvocationNotFound then { g with unknown := some id } else g)
      split
      · exact fun _ => rfl
      · trivial
    · exact fun hnone => by cases hnone
  refine Discipline.ObeysE.bind hexisting fun existing g' hread => ?_
  rw [if_neg (by simp [hd])]
  cases existing with
  | some status =>
      dsimp only
      split
      · exact completePublication_publishes run id _ runnerId route g'
      · trivial
  | none =>
      refine obeysE_port_bind.mpr ⟨.inr (hread rfl), fun _ _ => ?_, fun _ _ => trivial⟩
      exact completePublication_publishes run id _ runnerId route _

theorem triggerLoopIteration_publishes (hd : d.publication = false) (runnerId : RunnerId)
    (g : Readings) :
    publication.ObeysE (triggerLoopIteration d runnerId) (fun _ _ => True) (fun _ _ => True)
      g := by
  have hcomplete : ∀ triggerRunId id g, publication.ObeysE (completeTriggerRun triggerRunId id)
      (fun _ _ => True) (fun _ _ => True) g := by
    intro triggerRunId id g
    refine obeysE_unguarded_bind (unguarded_of_no_write rfl rfl) fun found => ?_
    cases found with
    | none => trivial
    | some run =>
        refine obeysE_unguarded_bind (unguarded_of_no_write rfl rfl) fun now => ?_
        exact obeysE_of_unguarded (usesE_port (unguarded_of_no_write rfl rfl)) (fun _ h => h) _
  have hpending : ∀ runs g, publication.ObeysE (publishPending d runnerId runs)
      (fun _ _ => True) (fun _ _ => True) g := by
    intro runs
    induction runs with
    | nil => exact fun _ => trivial
    | cons run rest ih =>
        intro g
        unfold publishPending
        split
        · refine Discipline.ObeysE.bind (publishTriggerRun_publishes hd run _ runnerId _ g)
            fun _ g' _ => ?_
          refine Discipline.ObeysE.bind (hcomplete _ _ g') fun _ g'' _ => ?_
          exact ih g''
        · exact ih g
  unfold triggerLoopIteration
  split
  · refine obeysE_unguarded_bind (unguarded_of_no_write rfl rfl) fun firings => ?_
    refine obeysE_unguarded_bind (unguarded_of_no_write rfl rfl) fun now => ?_
    refine obeysE_unguarded_bind (unguarded_of_no_write rfl rfl) fun _ => ?_
    refine obeysE_unguarded_bind (unguarded_of_no_write rfl rfl) fun runs => ?_
    exact hpending runs _
  · trivial

/-- A worker's round writes no `registered` entry. -/
theorem workerRound_publishes (hd : d.publication = false) (language : TaskLanguage)
    (worker : RunnerId) (g : Readings) :
    publication.ObeysE (workerRound d language worker) (fun _ _ => True) (fun _ _ => True) g := by
  have htargets : AttemptTargets (· ≠ InvocationStatus.registered) :=
    ⟨by decide, by decide, by decide, by decide⟩
  have hrelease : ∀ id g, publication.ObeysE (releaseNontransactionalConcurrencySlot d id)
      (fun _ _ => True) (fun _ _ => True) g := fun id g =>
    obeysE_of_unguarded (releaseSlot_updates hd id worker) (fun _ => unguarded_of_updates) g
  refine Discipline.ObeysE.bind (obeysE_of_unguarded (claimNext_dispatches hd language worker)
    (fun _ => unguarded_of_dispatches) g) fun found g' _ => ?_
  cases found with
  | none => trivial
  | some id =>
      have hclaim : Prog.UsesE Truthful (Updates (· ≠ InvocationStatus.registered) id worker)
          (setInvocationStatus d id .pending worker) :=
        setInvocationStatus_updates hd id worker (by decide)
      refine obeysE_attempt_bind.mpr
        ((obeysE_of_unguarded hclaim (fun _ => unguarded_of_updates) g').mono ?_ ?_)
      · intro _ g'' _
        exact obeysE_of_unguarded (executeClaimed_actsOn hd id worker htargets)
          (fun _ => unguarded_of_actsOn) g''
      · intro e g'' _
        dsimp only
        split
        · exact hrelease id g''
        · refine obeysE_attempt_bind.mpr ((hrelease id g'').mono ?_ ?_)
          · exact fun _ _ _ => trivial
          · exact fun _ _ _ => trivial

/-- Every operation registers and records only what it submits or has read as missing. -/
theorem program_publishes (hd : d.publication = false) {op : Operation}
    (hrecovery : ∀ status ∈ op.recoveryStatus?, isRecoveryStatus status = true) :
    publication.Obeys (op.program d) (fun _ _ => True) (publication.start op) := by
  have htoUnit : ∀ {α : Type} {p : Orch α} {g : Readings},
      publication.ObeysE p (fun _ _ => True) (fun _ _ => True) g →
      publication.Obeys p.run.toUnit (fun _ _ => True) g := by
    intro α p g hp
    exact Discipline.Obeys.toUnit (Discipline.Obeys.mono hp fun _ _ _ => trivial)
  cases op with
  | submit submission => exact htoUnit (submitWithId_publishes hd submission)
  | work language worker => exact htoUnit (workerRound_publishes hd language worker _)
  | recover runnerId id status =>
      have hstatus : status ≠ .registered := by
        rintro rfl
        exact absurd (hrecovery _ rfl) (by decide)
      have hacts : Prog.UsesE Truthful (ActsOn (· ≠ InvocationStatus.registered) id runnerId)
          (recoverOne d runnerId id status) :=
        recoverOne_actsOn hd id runnerId hstatus (by decide) (by decide)
      exact htoUnit (obeysE_of_unguarded hacts (fun _ => unguarded_of_actsOn) _)
  | cancel id runnerId =>
      exact htoUnit (obeysE_of_unguarded (cancelInvocation_updates hd id runnerId (by decide))
        (fun _ => unguarded_of_updates) _)
  | waitFor waiter waitedOn =>
      exact htoUnit (obeysE_of_unguarded (usesE_port (c := .setWaitingFor waiter waitedOn)
        (unguarded_of_no_write rfl rfl)) (fun _ h => h) _)
  | evaluateTriggers runnerId => exact htoUnit (triggerLoopIteration_publishes hd runnerId _)

end Evaluators

/-! ## What one call keeps -/

/-- From `s` to `s'` the invocation has not become `registered` again, and has not left a
terminal status. -/
def StaysPublished (id : InvocationId) (s s' : MemRuntime) : Prop :=
  ∀ status, s.orchestrator.statusOf id = some status → status ≠ .registered →
    ∃ status', s'.orchestrator.statusOf id = some status' ∧ status' ≠ .registered ∧
      (status.isTerminal = true → status' = status)

theorem StaysPublished.refl (id : InvocationId) (s : MemRuntime) : StaysPublished id s s :=
  fun status hstatus hne => ⟨status, hstatus, hne, fun _ => rfl⟩

theorem StaysPublished.trans {id : InvocationId} {s s' s'' : MemRuntime}
    (h : StaysPublished id s s') (h' : StaysPublished id s' s'') : StaysPublished id s s'' := by
  intro status hstatus hne
  obtain ⟨status', hstatus', hne', hterminal⟩ := h status hstatus hne
  obtain ⟨status'', hstatus'', hne'', hterminal'⟩ := h' status' hstatus' hne'
  refine ⟨status'', hstatus'', hne'', fun hterm => ?_⟩
  have heq : status' = status := hterminal hterm
  rw [← heq]
  exact hterminal' (heq ▸ hterm)

/-- **The invariant**, for one invocation that no submission submits. -/
structure OnceRegistered (id : InvocationId) (init s : MemRuntime) (books : List Readings) :
    Prop where
  planned : ∀ g ∈ books, g.submission ≠ some id
  published : StaysPublished id init s
  recorded : (registrations s id).length ≤ 1

/-- Reads of the planned invocation that an evaluator acts on still hold: what it
registers has not left `registered`, what it records has not been recorded. -/
def currentReads (id : InvocationId) : Guard ports MemRuntime Operation where
  start _ op := (∀ submission ∈ op.submission?, submission.invocationId ≠ id) ∧
    ∀ status ∈ op.recoveryStatus?, isRecoveryStatus status = true
  call s i c := ∀ t ∈ s.threads[i]?,
    (∀ x ∈ c.registered?, x = id → (publication.book t).unknown = some id →
      ∀ status ∈ s.shared.orchestrator.statusOf id, status = .registered) ∧
    ∀ entry ∈ c.historyWrite?, entry.invocationId = id → IsRegistration entry →
      (publication.book t).unrecorded = some id → registrations s.shared id = []

section Steps

variable {id : InvocationId} {s : MemRuntime}

theorem staysPublished_of_records {s' : MemRuntime}
    (h : s'.orchestrator.statusRecords = s.orchestrator.statusRecords) :
    StaysPublished id s s' := by
  intro status hstatus hne
  refine ⟨status, ?_, hne, fun _ => rfl⟩
  rw [OrchestratorState.statusOf, h]
  exact hstatus

/-- An accepted status write never goes back to `registered`. -/
theorem staysPublished_setInvocationStatus (env : Env) (x : InvocationId)
    (status : InvocationStatus) (runnerId : Option RunnerId) :
    StaysPublished id s (MemRuntime.exec env (.setInvocationStatus x status runnerId) s).2 := by
  obtain ⟨current, record, ccIndex, ccReverse, hlookup, htrans, heq⟩ | ⟨_, _, -, -, heq⟩ |
    ⟨-, heq⟩ := s.orchestrator.setInvocationStatus_cases env.clock x status runnerId
  · simp only [MemRuntime.exec, heq]
    obtain ⟨hcan, -, rfl⟩ := (statusRecordTransition_ok_iff _ _ _ _ _).mp htrans
    intro old hold hne
    by_cases hx : id = x
    · subst hx
      have hcurrent : current.status = old := by
        rw [OrchestratorState.statusOf, hlookup] at hold
        exact Option.some.inj hold
      have htarget : status ≠ .registered := by
        have hall : ∀ a : InvocationStatus, a.canTransitionTo .registered = false := by decide
        rintro rfl
        rw [hall] at hcan
        cases hcan
      refine ⟨status, ?_, htarget, fun hterminal => ?_⟩
      · rw [s.orchestrator.statusOf_of_insert id _ rfl id, if_pos rfl]
      · rw [hcurrent, InvocationStatus.canTransitionTo_of_isTerminal hterminal] at hcan
        cases hcan
    · refine ⟨old, ?_, hne, fun _ => rfl⟩
      rw [s.orchestrator.statusOf_of_insert x _ rfl id, if_neg hx]
      exact hold
  · simp only [MemRuntime.exec, heq]
    exact .refl id s
  · simp only [MemRuntime.exec, heq]
    exact .refl id s

/-- Registering an invocation that has not left `registered`, or another one. -/
theorem staysPublished_register (env : Env) (x : InvocationId) (call : CallDTO)
    (runnerId : Option RunnerId)
    (h : x = id → ∀ status ∈ s.orchestrator.statusOf id, status = .registered) :
    StaysPublished id s
      (MemRuntime.exec env (.registerInvocationWithId x call runnerId) s).2 := by
  intro status hstatus hne
  by_cases hx : id = x
  · exact absurd (h hx.symm status hstatus) hne
  · refine ⟨status, ?_, hne, fun _ => rfl⟩
    change OrchestratorState.statusOf (s.orchestrator.registerInvocationWithId _ _ _ _).2 id = _
    rw [s.orchestrator.statusOf_of_insert x _ rfl id, if_neg hx]
    exact hstatus

/-- Appending an entry; a registration only to a history without one. -/
theorem registrations_addHistory (env : Env) (entry : InvocationHistory)
    (hold : (registrations s id).length ≤ 1)
    (h : entry.invocationId = id → IsRegistration entry → registrations s id = []) :
    (registrations (MemRuntime.exec env (.addHistory entry) s).2 id).length ≤ 1 := by
  by_cases hx : entry.invocationId = id
  · have hhistory : (MemRuntime.exec env (.addHistory entry) s).2.backend.historyOf id =
        s.backend.historyOf id ++ [entry] := by
      subst hx
      change ((s.backend.histories.insert _ _).lookup _).getD [] = _
      rw [AList.lookup_insert]
      rfl
    rw [registrations, hhistory, List.filter_append, List.length_append]
    by_cases hentry : IsRegistration entry
    · have hnone : (s.backend.historyOf id).filter (fun e => IsRegistration e) = [] :=
        h hx hentry
      simp [hnone, hentry]
    · have hnone : [entry].filter (fun e => IsRegistration e) = [] := by simp [hentry]
      rw [hnone, List.length_nil, Nat.add_zero]
      exact hold
  · have hhistory : (MemRuntime.exec env (.addHistory entry) s).2.backend.historyOf id =
        s.backend.historyOf id := by
      change ((s.backend.histories.insert _ _).lookup _).getD [] = _
      rw [AList.lookup_insert_ne (Ne.symm hx)]
      rfl
    rw [registrations, hhistory]
    exact hold

theorem registrations_of_histories {s' : MemRuntime}
    (h : s'.backend.histories = s.backend.histories) :
    registrations s' id = registrations s id := by
  simp only [registrations, BackendState.historyOf, h]

end Steps

/-! ## Runs -/

section Runs

variable {d : Deployment} {id : InvocationId} {init s s' : System ports MemRuntime Operation}

/-- The submission of a book is the one that was started. -/
theorem readings_submission (c : PortCall) (r : RustvelloResult c.Ans) (g : Readings) :
    (Readings.next c r g).submission = g.submission := by
  unfold Readings.next
  split <;> first | rfl | (split <;> rfl)

/-- From any state in which the pool keeps the discipline. -/
theorem onceRegistered_from (hd : d.publication = false)
    (hobey : publication.AllObey (fun _ => True) init)
    (hplanned : ∀ g ∈ init.books publication.toMonitor, g.submission ≠ some id)
    (hrecorded : (registrations init.shared id).length ≤ 1)
    (hreach : Reachable (memMachine d) (currentReads id) init s) :
    publication.AllObey (fun _ => True) s ∧
      OnceRegistered id init.shared s.shared (s.books publication.toMonitor) := by
  refine publication.invariant (fun _ => True) (OnceRegistered id init.shared) ?_
    ⟨hobey, hplanned, .refl id _, hrecorded⟩ ?_ ?_ hreach
  · intro _ op hstart
    exact program_publishes hd hstart.2
  · intro s op hstart hinv
    refine ⟨?_, hinv.published, hinv.recorded⟩
    intro g hg
    rcases List.mem_append.mp hg with hg | hg
    · exact hinv.planned g hg
    · rw [List.mem_singleton.mp hg]
      intro hsubmission
      obtain ⟨submission, hop, hid⟩ := Option.map_eq_some_iff.mp hsubmission
      exact hstart.1 submission hop hid
  · intro s i env t c before after hturn hinv
    refine ⟨exec_truthful env c s.shared, ?_⟩
    have hself : (publication.book t).submission ≠ some id := hinv.planned _ (by simp)
    have hbooks : ∀ g ∈ before ++ publication.next c (MemRuntime.exec env c s.shared).1
        (publication.book t) :: after, g.submission ≠ some id := by
      intro g hg
      rcases List.mem_append.mp hg with hg | hg
      · exact hinv.planned g (by simp [hg])
      · rcases List.mem_cons.mp hg with rfl | hg
        · rw [show (publication.next c _ _).submission = _ from readings_submission c _ _]
          exact hself
        · exact hinv.planned g (by simp [hg])
    obtain ⟨hregister, hrecord⟩ := hturn.allowed t hturn.thread
    have hpermitted := hturn.permitted
    -- calls that write neither status records nor histories
    have hframe : (MemRuntime.exec env c s.shared).2.orchestrator.statusRecords =
          s.shared.orchestrator.statusRecords →
        (MemRuntime.exec env c s.shared).2.backend.histories = s.shared.backend.histories →
        OnceRegistered id init.shared (MemRuntime.exec env c s.shared).2
          (before ++ publication.next c (MemRuntime.exec env c s.shared).1
            (publication.book t) :: after) := by
      intro hrecords hhistories
      refine ⟨hbooks, hinv.published.trans (staysPublished_of_records hrecords), ?_⟩
      rw [registrations_of_histories hhistories]
      exact hinv.recorded
    cases c <;> first | exact hframe rfl rfl | skip
    case registerInvocationWithId x call runnerId =>
        refine ⟨hbooks, hinv.published.trans (staysPublished_register env x call runnerId ?_),
          hinv.recorded⟩
        rintro rfl
        exact hregister x rfl rfl (hpermitted.resolve_left hself)
    case setInvocationStatus x status runnerId =>
        exact ⟨hbooks,
          hinv.published.trans (staysPublished_setInvocationStatus env x status runnerId),
          hinv.recorded⟩
    case tryAcquireConcurrencySlot x taskId config ccArgs =>
        exact hframe (OrchestratorState.tryAcquireConcurrencySlot_statusRecords _ _ _ _ _) rfl
    case removeFromConcurrencyIndex x =>
        exact hframe (OrchestratorState.removeFromConcurrencyIndex_statusRecords _ _) rfl
    case addHistory entry =>
        refine ⟨hbooks, hinv.published.trans (staysPublished_of_records rfl),
          registrations_addHistory env entry hinv.recorded ?_⟩
        rintro rfl hregistration
        exact hrecord entry rfl rfl hregistration ((hpermitted hregistration).resolve_left hself)

/-- **A planned invocation is registered once**, in every run in which the reads that
evaluators act on still hold: from any state of the run on it does not become
`registered` again once it left that status, and does not leave a terminal status; its
history has at most one `registered` entry. -/
theorem registered_once (hd : d.publication = false) (id : InvocationId)
    (hreach : Reachable (memMachine d) (currentReads id) memStart s)
    (hlater : Reachable (memMachine d) (currentReads id) s s') :
    StaysPublished id s.shared s'.shared ∧ (registrations s.shared id).length ≤ 1 := by
  have hstart : publication.AllObey (fun _ => True) memStart := by
    simp [Discipline.AllObey, memStart]
  obtain ⟨hobey, hinv⟩ := onceRegistered_from hd hstart (by simp [System.books, memStart])
    (Nat.zero_le 1) hreach
  obtain ⟨-, hinv'⟩ := onceRegistered_from hd hobey hinv.planned hinv.recorded hlater
  exact ⟨hinv'.published, hinv.recorded⟩

end Runs

instance (id : InvocationId) (s : System ports MemRuntime Operation) (op : Operation) :
    Decidable ((currentReads id).start s op) :=
  inferInstanceAs (Decidable ((∀ submission ∈ op.submission?, submission.invocationId ≠ id) ∧
    ∀ status ∈ op.recoveryStatus?, isRecoveryStatus status = true))

instance (id : InvocationId) (s : System ports MemRuntime Operation) (i : Nat) (c : PortCall) :
    Decidable ((currentReads id).call s i c) :=
  inferInstanceAs (Decidable (∀ t ∈ s.threads[i]?,
    (∀ x ∈ c.registered?, x = id → (publication.book t).unknown = some id →
      ∀ status ∈ s.shared.orchestrator.statusOf id, status = .registered) ∧
    ∀ entry ∈ c.historyWrite?, entry.invocationId = id → IsRegistration entry →
      (publication.book t).unrecorded = some id → registrations s.shared id = []))

/-! ## Two evaluators and a worker -/

/-- The serial task, started by a trigger. -/
def triggeredDeployment : Deployment :=
  { serialDeployment with triggerManager := true }

/-- The trigger is satisfied. -/
def firedEnv : Env :=
  { firings := [⟨"run", serialTask, .empty⟩] }

/-- The first evaluator stops after routing the invocation, a worker runs it. -/
def publishedAndRun : List (Label Env Operation) :=
  .start (.evaluateTriggers ⟨"e1"⟩) :: Label.steps 0 12 firedEnv ++
    .start (.work .rust ⟨"w"⟩) :: Label.steps 1 26 idleEnv

/-- The second evaluator repeats the iteration. -/
def repeated : List (Label Env Operation) :=
  .start (.evaluateTriggers ⟨"e2"⟩) :: Label.steps 2 8 firedEnv

/-- An evaluator that repeats a stopped iteration leaves the finished invocation alone. -/
theorem registered_once_repeated :
    ∃ s s', Reachable (memMachine triggeredDeployment) (currentReads ⟨"planned"⟩) memStart s ∧
      Reachable (memMachine triggeredDeployment) (currentReads ⟨"planned"⟩) s s' ∧
      s.shared.orchestrator.statusOf ⟨"planned"⟩ = some .success ∧
      (s'.shared.triggers.getPendingTriggerRuns [] 1).length = 0 ∧
      StaysPublished ⟨"planned"⟩ s.shared s'.shared ∧
      (registrations s.shared ⟨"planned"⟩).length ≤ 1 := by
  obtain ⟨s, hreach, hsuccess, hallow, hrun⟩ := Reachable.exists_of_run
    (memMachine triggeredDeployment) (currentReads ⟨"planned"⟩) memStart publishedAndRun
    (fun s => s.shared.orchestrator.statusOf ⟨"planned"⟩ = some .success ∧
      (currentReads ⟨"planned"⟩).AllowsAll (memMachine triggeredDeployment) s repeated ∧
      (s.run (memMachine triggeredDeployment) repeated).any (fun s' =>
        decide ((s'.shared.triggers.getPendingTriggerRuns [] 1).length = 0)) = true)
    (by decide +kernel) (by decide +kernel)
  obtain ⟨s', hlater, hdone⟩ := Reachable.exists_of_run _ _ s repeated _ hallow hrun
  exact ⟨s, s', hreach, hlater, hsuccess, hdone, registered_once rfl _ hreach hlater⟩

/-- Evaluators and workers only. -/
def evaluatorsAndWorkers : Guard ports MemRuntime Operation where
  start _ op := match op with
    | .evaluateTriggers _ | .work _ _ => True
    | _ => False
  call _ _ _ := True

instance (s : System ports MemRuntime Operation) (op : Operation) :
    Decidable (evaluatorsAndWorkers.start s op) :=
  match op with
  | .evaluateTriggers _ | .work _ _ => inferInstanceAs (Decidable True)
  | .submit _ | .recover _ _ _ | .cancel _ _ | .waitFor _ _ => inferInstanceAs (Decidable False)

instance (s : System ports MemRuntime Operation) (i : Nat) (c : PortCall) :
    Decidable (evaluatorsAndWorkers.call s i c) :=
  inferInstanceAs (Decidable True)

/-- Both evaluators read that the planned invocation is unknown; the first one publishes
it, and a worker runs it. -/
def readTwice : List (Label Env Operation) :=
  .start (.evaluateTriggers ⟨"e1"⟩) :: .start (.evaluateTriggers ⟨"e2"⟩) ::
    Label.steps 0 4 firedEnv ++ Label.steps 1 5 firedEnv ++ Label.steps 0 11 firedEnv ++
    .start (.work .rust ⟨"w"⟩) :: Label.steps 2 26 idleEnv

/-- **A finished invocation is registered again.**  The second evaluator acts on what it
read before the first one published: its registration takes the planned invocation from
`success` back to `registered`. -/
theorem secondEvaluator_registers :
    ∃ s s', Reachable (memMachine triggeredDeployment) evaluatorsAndWorkers memStart s ∧
      Reachable (memMachine triggeredDeployment) evaluatorsAndWorkers s s' ∧
      (s.shared.triggers.runs.lookup "run").map TriggerRunRecord.plannedInvocationId =
        some (some ⟨"planned"⟩) ∧
      s.shared.orchestrator.statusOf ⟨"planned"⟩ = some .success ∧
      s'.shared.orchestrator.statusOf ⟨"planned"⟩ = some .registered ∧
      ¬ StaysPublished ⟨"planned"⟩ s.shared s'.shared := by
  obtain ⟨s, hreach, hplanned, hsuccess, hallow, hrun⟩ := Reachable.exists_of_run
    (memMachine triggeredDeployment) evaluatorsAndWorkers memStart readTwice
    (fun s => (s.shared.triggers.runs.lookup "run").map TriggerRunRecord.plannedInvocationId =
        some (some ⟨"planned"⟩) ∧
      s.shared.orchestrator.statusOf ⟨"planned"⟩ = some .success ∧
      evaluatorsAndWorkers.AllowsAll (memMachine triggeredDeployment) s
        (Label.steps 1 1 firedEnv) ∧
      (s.run (memMachine triggeredDeployment) (Label.steps 1 1 firedEnv)).any (fun s' =>
        decide (s'.shared.orchestrator.statusOf ⟨"planned"⟩ = some .registered)) = true)
    (by decide +kernel) (by decide +kernel)
  obtain ⟨s', hlater, hregistered⟩ := Reachable.exists_of_run _ _ s _ _ hallow hrun
  refine ⟨s, s', hreach, hlater, hplanned, hsuccess, hregistered, fun hstays => ?_⟩
  obtain ⟨status, hstatus, hne, -⟩ := hstays .success hsuccess (by decide)
  rw [hregistered] at hstatus
  exact hne (Option.some.inj hstatus).symm

end Rustvello.Mem
