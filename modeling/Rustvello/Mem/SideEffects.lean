import Rustvello.Mem.Runners
import Rustvello.Orchestration.Recording

/-!
# Histories and waiters follow the statuses

In memory, a status write, its history entry and the release of waiters are calls on
different backends, and any operation may come between them.

* `statusPath` — the statuses that the record of an invocation went through;
* `unrecorded` — those of them that are not in the history yet, oldest first;
* `inOrder` — the runs considered: no denial of a candidate is accepted, a history entry does
  not overtake the entry of an older write of the same invocation, and nobody begins to wait
  for an invocation that is finished;
* `Accounted` — the invariant: history and unrecorded writes make up the path, every unrecorded
  write is owed by an operation, and so is the release of waiters that are left.
-/

namespace Rustvello.Mem

open Concurrency Proto Rustvello.Core Orchestration

/-! ## What is written and what is recorded -/

/-- The status that a call wrote into the record of an invocation. -/
def statusWritten (id : InvocationId) : Event runnerPorts → Option InvocationStatus
  | ⟨.inl (.registerInvocationWithId x _ _), .ok _⟩ => if x = id then some .registered else none
  | ⟨.inl (.setInvocationStatus x status _), .ok _⟩ => if x = id then some status else none
  | _ => none

/-- The status that a call added to the history of an invocation. -/
def statusRecorded (id : InvocationId) : Event runnerPorts → Option InvocationStatus
  | ⟨.inl (.addHistory history), _⟩ =>
      if history.invocationId = id then some history.statusRecord.status else none
  | _ => none

/-- The statuses that the record of an invocation went through, oldest first; calls are
given newest first. -/
def statusPath (id : InvocationId) : List (Event runnerPorts) → List InvocationStatus
  | [] => []
  | e :: older => statusPath id older ++ (statusWritten id e).toList

/-- The written statuses whose entry is missing, oldest first. -/
def unrecorded (id : InvocationId) : List (Event runnerPorts) → List InvocationStatus
  | [] => []
  | e :: older =>
      match statusRecorded id e with
      | some status => (unrecorded id older).erase status
      | none => unrecorded id older ++ (statusWritten id e).toList

/-- The status of the invocation is terminal. -/
def OrchestratorState.isFinished (s : OrchestratorState) (id : InvocationId) : Bool :=
  (s.statusOf id).any InvocationStatus.isTerminal

def OrchestratorState.waitersOf (s : OrchestratorState) (id : InvocationId) : List InvocationId :=
  (s.waiters.lookup id).getD []

/-- The statuses in the stored history of an invocation. -/
def BackendState.historyStatuses (b : BackendState) (id : InvocationId) :
    List InvocationStatus :=
  (b.historyOf id).map fun history => history.statusRecord.status

/-- The status machine refuses the write. -/
def OrchestratorState.Refuses (s : OrchestratorState) (id : InvocationId)
    (status : InvocationStatus) (runnerId : Option RunnerId) : Prop :=
  ∀ current ∈ s.statusRecords.lookup id,
    ¬(current.status.canTransitionTo status = true ∧ OwnershipOk current status runnerId)

abbrev lifecycleMachine (d : Deployment) :
    Machine runnerPorts (MemRuntime × List (Event runnerPorts)) Env LifecycleCall :=
  Machine.recorded ⟨MemRuntime.execRunner, LifecycleCall.program d⟩

/-- The runs considered. -/
def inOrder : Guard runnerPorts (MemRuntime × List (Event runnerPorts)) LifecycleCall where
  start _ _ := True
  call s _
    | .inl (.setInvocationStatus id status runnerId) =>
        isDenial status = true → s.shared.1.orchestrator.Refuses id status runnerId
    | .inl (.addHistory history) =>
        (unrecorded history.invocationId s.shared.2).head? = some history.statusRecord.status
    | .inl (.setWaitingFor _ waitedOn) => s.shared.1.orchestrator.isFinished waitedOn = false
    | _ => True

/-! ## The invariant -/

/-- The entry that an operation owes to the history of an invocation. -/
def owedTo (id : InvocationId) (g : Unsettled) : Option InvocationStatus :=
  g.owed.bind fun write => if write.1 = id then some write.2 else none

/-- History and unrecorded writes make up the path, which ends with the stored status;
operations owe what is missing. -/
structure Accounted (s : MemRuntime × List (Event runnerPorts)) (books : List Unsettled) :
    Prop where
  entries : ∀ id, statusPath id s.2 = s.1.backend.historyStatuses id ++ unrecorded id s.2
  owed : ∀ id, (unrecorded id s.2).Perm (books.filterMap (owedTo id))
  released : ∀ id, s.1.orchestrator.isFinished id = true →
    s.1.orchestrator.waitersOf id ≠ [] → ∃ g ∈ books, g.releasing = some id
  current : ∀ id, s.1.orchestrator.statusOf id = (statusPath id s.2).getLast?

section Invariant

variable {s s' : MemRuntime} {events : List (Event runnerPorts)} {e : Event runnerPorts}
  {before after : List Unsettled} {g g' : Unsettled}

theorem isFinished_congr (h : s'.orchestrator.statusRecords = s.orchestrator.statusRecords)
    (id : InvocationId) : s'.orchestrator.isFinished id = s.orchestrator.isFinished id := by
  unfold OrchestratorState.isFinished OrchestratorState.statusOf
  rw [h]

theorem historyStatuses_congr (h : s'.backend.histories = s.backend.histories)
    (id : InvocationId) : s'.backend.historyStatuses id = s.backend.historyStatuses id := by
  unfold BackendState.historyStatuses BackendState.historyOf
  rw [h]

theorem waitersOf_congr (h : s'.orchestrator.waiters = s.orchestrator.waiters)
    (id : InvocationId) : s'.orchestrator.waitersOf id = s.orchestrator.waitersOf id := by
  unfold OrchestratorState.waitersOf
  rw [h]

theorem historyStatuses_addHistory (b : BackendState) (history : InvocationHistory)
    (id : InvocationId) :
    (b.addHistory history).historyStatuses id = b.historyStatuses id ++
      if history.invocationId = id then [history.statusRecord.status] else [] := by
  unfold BackendState.historyStatuses BackendState.addHistory BackendState.historyOf
  by_cases hid : history.invocationId = id
  · subst hid
    simp [AList.lookup_insert]
  · rw [AList.lookup_insert_ne (Ne.symm hid)]
    simp [hid]

/-- Someone other than `g` owes the release, or `g` still does. -/
theorem releasing_replace {id : InvocationId}
    (h : ∃ b ∈ before ++ g :: after, b.releasing = some id)
    (hown : g.releasing = some id → g'.releasing = some id) :
    ∃ b ∈ before ++ g' :: after, b.releasing = some id := by
  obtain ⟨b, hb, hrel⟩ := h
  rcases mem_replaced hb with hb | rfl
  · exact ⟨b, mem_of_others hb g', hrel⟩
  · exact ⟨g', by simp, hown hrel⟩

/-- A call that neither writes nor records a status, and leaves waiters alone. -/
theorem Accounted.frame (h : Accounted (s, events) (before ++ g :: after))
    (hrecords : s'.orchestrator.statusRecords = s.orchestrator.statusRecords)
    (hwaiters : s'.orchestrator.waiters = s.orchestrator.waiters)
    (hhistories : s'.backend.histories = s.backend.histories)
    (hwritten : ∀ id, statusWritten id e = none) (hrecorded : ∀ id, statusRecorded id e = none) :
    Accounted (s', e :: events) (before ++ g :: after) := by
  have hpath : ∀ id, statusPath id (e :: events) = statusPath id events := by
    intro id
    simp [statusPath, hwritten id]
  have hmissing : ∀ id, unrecorded id (e :: events) = unrecorded id events := by
    intro id
    simp [unrecorded, hwritten id, hrecorded id]
  constructor
  case entries =>
    intro id
    rw [hpath, hmissing, historyStatuses_congr hhistories]
    exact h.entries id
  case owed =>
    intro id
    rw [hmissing]
    exact h.owed id
  case released =>
    intro id hfinished hwaiting
    rw [isFinished_congr hrecords] at hfinished
    rw [waitersOf_congr hwaiters] at hwaiting
    exact h.released id hfinished hwaiting
  case current =>
    intro id
    rw [hpath, ← h.current id]
    unfold OrchestratorState.statusOf
    rw [hrecords]

/-- A status is written: its entry is owed, and so is the release if it is terminal. -/
theorem Accounted.write (h : Accounted (s, events) (before ++ {} :: after)) (id : InvocationId)
    (record : InvocationStatusRecord)
    (hrecords : s'.orchestrator.statusRecords = s.orchestrator.statusRecords.insert id record)
    (hwaiters : s'.orchestrator.waiters = s.orchestrator.waiters)
    (hhistories : s'.backend.histories = s.backend.histories)
    (hwritten : ∀ x, statusWritten x e = if id = x then some record.status else none)
    (hrecorded : ∀ x, statusRecorded x e = none) :
    Accounted (s', e :: events) (before ++ .written id record.status :: after) := by
  have hstatus := OrchestratorState.statusOf_of_insert s.orchestrator id record hrecords
  have howed : ∀ x, owedTo x (.written id record.status) =
      if id = x then some record.status else none := fun _ => rfl
  constructor
  case entries =>
    intro x
    have hentries := h.entries x
    simp only [statusPath, unrecorded, hrecorded x, historyStatuses_congr hhistories] at hentries ⊢
    rw [hentries, List.append_assoc]
  case owed =>
    intro x
    have hperm := h.owed x
    have hnone : owedTo x {} = none := rfl
    simp only [unrecorded, hrecorded x, hwritten x, List.filterMap_append,
      List.filterMap_cons, howed x, hnone] at hperm ⊢
    by_cases hid : id = x
    · simp only [if_pos hid, Option.toList_some]
      refine (hperm.append_right _).trans ?_
      rw [List.append_assoc]
      exact List.Perm.append_left _ (List.perm_append_singleton _ _)
    · simpa [if_neg hid] using hperm
  case released =>
    intro x hfinished hwaiting
    by_cases hid : x = id
    · subst hid
      refine ⟨.written x record.status, by simp, ?_⟩
      have hterminal : record.status.isTerminal = true := by
        simpa [OrchestratorState.isFinished, hstatus] using hfinished
      simp [Unsettled.written, hterminal]
    · have hold : s.orchestrator.isFinished x = true := by
        simpa [OrchestratorState.isFinished, hstatus, hid] using hfinished
      rw [waitersOf_congr hwaiters] at hwaiting
      refine releasing_replace (h.released x hold hwaiting) ?_
      intro hnone
      cases hnone
  case current =>
    intro x
    rw [hstatus x, statusPath, hwritten x]
    by_cases hid : x = id
    · simp [hid]
    · rw [if_neg hid, if_neg (Ne.symm hid)]
      simpa using h.current x

/-- The oldest missing entry is added, by the operation that owes it. -/
theorem Accounted.record {history : InvocationHistory} {r : RustvelloResult Unit}
    (h : Accounted (s, events) (before ++ g :: after))
    (howed : g.owed = some (history.invocationId, history.statusRecord.status))
    (holdest : (unrecorded history.invocationId events).head? = some history.statusRecord.status) :
    Accounted ({ s with backend := s.backend.addHistory history },
        ⟨.inl (.addHistory history), r⟩ :: events)
      (before ++ { g with owed := none } :: after) := by
  have hrecorded : ∀ x, statusRecorded x ⟨.inl (.addHistory history), r⟩ =
      if history.invocationId = x then some history.statusRecord.status else none :=
    fun _ => rfl
  have hwritten : ∀ x, statusWritten x ⟨.inl (.addHistory history), r⟩ = none := fun _ => rfl
  have howedTo : ∀ x, owedTo x g =
      if history.invocationId = x then some history.statusRecord.status else none := by
    intro x
    simp [owedTo, howed]
  have hpaid : ∀ x, owedTo x { g with owed := none } = none := fun _ => rfl
  constructor
  case entries =>
    intro x
    have hentries := h.entries x
    simp only [statusPath, unrecorded, hrecorded x, hwritten x, historyStatuses_addHistory] at hentries ⊢
    by_cases hid : history.invocationId = x
    · subst hid
      obtain ⟨rest, hrest⟩ := List.head?_eq_some_iff.mp holdest
      simp only [if_true, hrest, List.erase_cons_head] at hentries ⊢
      simp [hentries]
    · simpa [if_neg hid] using hentries
  case owed =>
    intro x
    have hperm := h.owed x
    simp only [unrecorded, hrecorded x, hwritten x, List.filterMap_append,
      List.filterMap_cons, howedTo x, hpaid x] at hperm ⊢
    by_cases hid : history.invocationId = x
    · simp only [if_pos hid] at hperm ⊢
      have herase := hperm.erase history.statusRecord.status
      refine herase.trans ?_
      exact (List.perm_middle.erase _).trans (by simp)
    · simpa [if_neg hid] using hperm
  case released =>
    intro x hfinished hwaiting
    exact releasing_replace (h.released x hfinished hwaiting) fun hrel => hrel
  case current =>
    intro x
    rw [statusPath, hwritten x]
    simpa using h.current x

/-- The waiters of an invocation are released by the operation that owes it. -/
theorem Accounted.release {completed : InvocationId} {r : RustvelloResult (List InvocationId)}
    (h : Accounted (s, events) (before ++ g :: after)) (howed : g.releasing = some completed) :
    Accounted ({ s with orchestrator := (s.orchestrator.releaseWaiters completed).2 },
        ⟨.inl (.releaseWaiters completed), r⟩ :: events)
      (before ++ { g with releasing := none } :: after) := by
  have hmissing : ∀ x, unrecorded x (⟨.inl (.releaseWaiters completed), r⟩ :: events) =
      unrecorded x events := by
    intro x
    simp [unrecorded, statusRecorded, statusWritten]
  have hpath : ∀ x, statusPath x (⟨.inl (.releaseWaiters completed), r⟩ :: events) =
      statusPath x events := by
    intro x
    simp [statusPath, statusWritten]
  constructor
  case entries =>
    intro x
    rw [hpath, hmissing]
    exact h.entries x
  case owed =>
    intro x
    have hsame : owedTo x { g with releasing := none } = owedTo x g := rfl
    rw [hmissing, List.filterMap_append, List.filterMap_cons, hsame]
    simpa [List.filterMap_append, List.filterMap_cons] using h.owed x
  case released =>
    intro x hfinished hwaiting
    by_cases hid : x = completed
    · subst hid
      simp [OrchestratorState.waitersOf, OrchestratorState.releaseWaiters] at hwaiting
    · have hold : s.orchestrator.waitersOf x ≠ [] := by
        simpa [OrchestratorState.waitersOf, OrchestratorState.releaseWaiters,
          AList.lookup_erase_ne hid] using hwaiting
      refine releasing_replace (h.released x hfinished hold) ?_
      intro hrel
      exact absurd (Option.some.inj (hrel.symm.trans howed)) hid
  case current =>
    intro x
    rw [hpath]
    exact h.current x

/-- Somebody begins to wait for an invocation that is not finished. -/
theorem Accounted.wait {waiter waitedOn : InvocationId} {r : RustvelloResult Unit}
    (h : Accounted (s, events) (before ++ g :: after))
    (hopen : s.orchestrator.isFinished waitedOn = false) :
    Accounted ({ s with orchestrator := s.orchestrator.setWaitingFor waiter waitedOn },
        ⟨.inl (.setWaitingFor waiter waitedOn), r⟩ :: events) (before ++ g :: after) := by
  have hmissing : ∀ x, unrecorded x (⟨.inl (.setWaitingFor waiter waitedOn), r⟩ :: events) =
      unrecorded x events := by
    intro x
    simp [unrecorded, statusRecorded, statusWritten]
  have hpath : ∀ x, statusPath x (⟨.inl (.setWaitingFor waiter waitedOn), r⟩ :: events) =
      statusPath x events := by
    intro x
    simp [statusPath, statusWritten]
  constructor
  case entries =>
    intro x
    rw [hpath, hmissing]
    exact h.entries x
  case owed =>
    intro x
    rw [hmissing]
    exact h.owed x
  case released =>
    intro x hfinished hwaiting
    have hfinished' : s.orchestrator.isFinished x = true := hfinished
    have hid : x ≠ waitedOn := by
      intro heq
      rw [heq, hopen] at hfinished'
      cases hfinished'
    refine h.released x hfinished' ?_
    simpa [OrchestratorState.waitersOf, OrchestratorState.setWaitingFor,
      AList.lookup_insert_ne hid] using hwaiting
  case current =>
    intro x
    rw [hpath]
    exact h.current x

/-- **One call.**  Every permitted call of a considered run keeps the invariant. -/
theorem Accounted.call (env : Env) (h : Accounted (s, events) (before ++ g :: after))
    (c : runnerPorts.Op) (hpre : recording.pre c g)
    (horder : ∀ history, c = .inl (.addHistory history) →
      (unrecorded history.invocationId events).head? = some history.statusRecord.status)
    (hopen : ∀ waiter waitedOn, c = .inl (.setWaitingFor waiter waitedOn) →
      s.orchestrator.isFinished waitedOn = false) :
    Accounted ((MemRuntime.execRunner env c s).2, ⟨c, (MemRuntime.execRunner env c s).1⟩ :: events)
      (before ++ recording.next c (MemRuntime.execRunner env c s).1 g :: after) := by
  rcases c with c | c
  · cases c
    case registerInvocationWithId id call runnerId =>
        have hidle : g = {} := hpre
        subst hidle
        refine h.write id ⟨.registered, runnerId, env.clock⟩ rfl rfl rfl ?_ ?_
        · exact fun _ => rfl
        · exact fun _ => rfl
    case setInvocationStatus id status runnerId =>
        have hidle : g = {} := hpre
        subst hidle
        obtain ⟨current, record, ccIndex, ccReverse, -, htrans, heq⟩ | ⟨current, e, -, -, heq⟩ |
          ⟨-, heq⟩ := s.orchestrator.setInvocationStatus_cases env.clock id status runnerId
        · obtain ⟨-, -, rfl⟩ := (statusRecordTransition_ok_iff _ _ _ _ _).mp htrans
          simp only [MemRuntime.execRunner, MemRuntime.exec, heq]
          refine h.write id ⟨status, computeNewOwner (some current) status runnerId, env.clock⟩
            rfl rfl rfl ?_ ?_
          · exact fun _ => rfl
          · exact fun _ => rfl
        · simp only [MemRuntime.execRunner, MemRuntime.exec, heq]
          exact h.frame rfl rfl rfl (fun _ => rfl) fun _ => rfl
        · simp only [MemRuntime.execRunner, MemRuntime.exec, heq]
          exact h.frame rfl rfl rfl (fun _ => rfl) fun _ => rfl
    case addHistory history => exact h.record hpre (horder history rfl)
    case releaseWaiters completed => exact h.release hpre
    case setWaitingFor waiter waitedOn => exact h.wait (hopen waiter waitedOn rfl)
    case tryAcquireConcurrencySlot id taskId config ccArgs =>
        obtain ⟨ccIndex, ccReverse, heq⟩ :=
          s.orchestrator.tryAcquireConcurrencySlot_eq id taskId config ccArgs
        refine h.frame ?_ ?_ rfl (fun _ => rfl) fun _ => rfl
        all_goals simp only [MemRuntime.execRunner, MemRuntime.exec, heq]
    case removeFromConcurrencyIndex id =>
        obtain ⟨ccIndex, ccReverse, heq⟩ := s.orchestrator.removeFromConcurrencyIndex_eq id
        refine h.frame ?_ ?_ rfl (fun _ => rfl) fun _ => rfl
        all_goals simp only [MemRuntime.execRunner, MemRuntime.exec, heq]
    all_goals exact h.frame rfl rfl rfl (fun _ => rfl) fun _ => rfl
  · cases c
    case indexForConcurrencyControl id taskId ccArgs =>
        obtain ⟨ccIndex, ccReverse, heq⟩ :=
          s.orchestrator.indexForConcurrencyControl_eq id taskId ccArgs
        refine h.frame ?_ ?_ rfl (fun _ => rfl) fun _ => rfl
        all_goals simp only [MemRuntime.execRunner, heq]
    all_goals exact h.frame rfl rfl rfl (fun _ => rfl) fun _ => rfl

/-- The in-memory backends answer as the operations expect. -/
theorem execRunner_expected (env : Env) (c : runnerPorts.Op) (s : MemRuntime)
    (hdenial : ∀ id status runnerId, c = .inl (.setInvocationStatus id status runnerId) →
      isDenial status = true → s.orchestrator.Refuses id status runnerId) :
    Expected c (MemRuntime.execRunner env c s).1 := by
  rcases c with c | c
  · cases c <;> first | trivial | skip
    case setInvocationStatus id status runnerId =>
        obtain ⟨current, record, ccIndex, ccReverse, hcurrent, htrans, heq⟩ | ⟨_, e, -, -, heq⟩ |
          ⟨-, heq⟩ := s.orchestrator.setInvocationStatus_cases env.clock id status runnerId
        · obtain ⟨hcan, howner, rfl⟩ := (statusRecordTransition_ok_iff _ _ _ _ _).mp htrans
          simp only [MemRuntime.execRunner, MemRuntime.exec, heq]
          refine ⟨rfl, ?_⟩
          by_contra hdenied
          exact hdenial id status runnerId rfl (by simpa using hdenied) current hcurrent
            ⟨hcan, howner⟩
        · simp only [MemRuntime.execRunner, MemRuntime.exec, heq]
          trivial
        · simp only [MemRuntime.execRunner, MemRuntime.exec, heq]
          trivial
  · trivial

end Invariant

section Runs

variable {d : Deployment}

theorem recorded_upheld (hd : d.publication = false) :
    recording.Upheld (fun g => g = {}) Accounted (lifecycleMachine d) inOrder ⟨({}, []), []⟩ where
  program _ call _ := call.program_settles hd
  obey := by
    intro t ht
    cases ht
  logs := by
    intro t ht
    cases ht
  holds := by
    constructor
    case entries => exact fun _ => rfl
    case owed => exact fun _ => .refl _
    case released =>
      intro id hfinished
      cases hfinished
    case current => exact fun _ => rfl
  start s call _ h := by
    constructor
    case entries => exact h.entries
    case owed =>
      intro id
      have hnone : owedTo id (recording.start call) = none := rfl
      simpa [List.filterMap_append, List.filterMap_cons, hnone] using h.owed id
    case released =>
      intro id hfinished hwaiting
      obtain ⟨g, hg, hrel⟩ := h.released id hfinished hwaiting
      exact ⟨g, List.mem_append_left _ hg, hrel⟩
    case current => exact h.current
  call s i env t c before after hturn h := by
    have hallowed := hturn.allowed
    refine ⟨execRunner_expected env c s.shared.1 ?_, h.call env c hturn.permitted ?_ ?_⟩
    · rintro id status runnerId rfl
      exact hallowed
    · rintro history rfl
      exact hallowed
    · rintro waiter waitedOn rfl
      exact hallowed

/-- **Every status change has its side effects.**  In every interleaving in which no denial of
a candidate is accepted, no history entry overtakes that of an older write, and nobody begins to
wait for a finished invocation: when no operation is in progress, the history of every
invocation holds the statuses its record went through, and a finished one has no waiters. -/
theorem side_effects_follow_statuses (hd : d.publication = false)
    {s : System runnerPorts (MemRuntime × List (Event runnerPorts)) LifecycleCall}
    (hreach : Reachable (lifecycleMachine d) inOrder ⟨({}, []), []⟩ s)
    (hidle : ∀ t ∈ s.threads, t.next? = none) (id : InvocationId) :
    s.shared.1.backend.historyStatuses id = statusPath id s.shared.2 ∧
      (s.shared.1.orchestrator.isFinished id = true →
        s.shared.1.orchestrator.waitersOf id = []) := by
  obtain ⟨hobey, h⟩ := (recorded_upheld hd).obeyed hreach
  have hsettled : ∀ g ∈ s.books recording.toMonitor, g = {} := by
    intro g hg
    obtain ⟨t, ht, rfl⟩ := List.mem_map.mp hg
    have hobeys := hobey t ht
    have hdone := hidle t ht
    cases hprog : t.prog with
    | done u =>
        rw [hprog] at hobeys
        exact hobeys
    | call c k => simp [Thread.next?, hprog] at hdone
  constructor
  · have hnone : (s.books recording.toMonitor).filterMap (owedTo id) = [] := by
      refine List.filterMap_eq_nil_iff.mpr ?_
      intro g hg
      rw [hsettled g hg]
      rfl
    have hmissing : unrecorded id s.shared.2 = [] := by
      have hperm := h.owed id
      rw [hnone] at hperm
      exact hperm.eq_nil
    rw [h.entries id, hmissing, List.append_nil]
  · intro hfinished
    by_contra hwaiting
    obtain ⟨g, hg, hrel⟩ := h.released id hfinished hwaiting
    rw [hsettled g hg] at hrel
    cases hrel

end Runs

/-! ### Runs -/

instance (s : OrchestratorState) (id : InvocationId) (status : InvocationStatus)
    (runnerId : Option RunnerId) : Decidable (s.Refuses id status runnerId) :=
  inferInstanceAs (Decidable (∀ current ∈ s.statusRecords.lookup id, _))

instance (s : System runnerPorts (MemRuntime × List (Event runnerPorts)) LifecycleCall)
    (call : LifecycleCall) : Decidable (inOrder.start s call) :=
  inferInstanceAs (Decidable True)

instance (s : System runnerPorts (MemRuntime × List (Event runnerPorts)) LifecycleCall) (i : Nat)
    (c : runnerPorts.Op) : Decidable (inOrder.call s i c) := by
  induction c using Sum.casesOn with
  | inl c =>
    induction c using PortCall.casesOn with
    | setInvocationStatus id status runnerId =>
        exact inferInstanceAs (Decidable (isDenial status = true →
          s.shared.1.orchestrator.Refuses id status runnerId))
    | addHistory history =>
        exact inferInstanceAs (Decidable ((unrecorded history.invocationId s.shared.2).head? =
          some history.statusRecord.status))
    | setWaitingFor _ waitedOn =>
        exact inferInstanceAs (Decidable (s.shared.1.orchestrator.isFinished waitedOn = false))
    | _ => exact .isTrue trivial
  | inr c => exact .isTrue trivial

/-- The serial task, without rerouting: a denied candidate is finished. -/
def finalDeployment : Deployment :=
  { serialDeployment with
    catalog :=
      { registry := fun taskId =>
          if taskId = serialTask then some { serialConfig with rerouteOnCc := false } else none } }

def submitFinal (id : String) : LifecycleCall :=
  .submit
    { invocationId := ⟨id⟩
      call := .new finalDeployment.sha256Hex serialTask .empty
      callerRunnerId := ⟨"client"⟩ }

/-- Somebody waits for `a`, which is claimed and executed. -/
def awaitedExecution : List (Label Env LifecycleCall) :=
  .start (submitFinal "a") :: Label.steps 0 6 idleEnv ++
    .start (.waitFor ⟨"parent"⟩ ⟨"a"⟩) :: Label.steps 1 1 idleEnv ++
    .start (.claimNext .rust ⟨"w1"⟩) :: Label.steps 2 5 idleEnv ++
    .start (.execute ⟨"a"⟩ ⟨"w1"⟩) :: Label.steps 3 17 idleEnv

/-- The execution is recorded, and the waiter is released. -/
theorem side_effects_follow_statuses_awaited :
    ∃ s, Reachable (lifecycleMachine finalDeployment) inOrder ⟨({}, []), []⟩ s ∧
      s.shared.1.backend.historyStatuses ⟨"a"⟩ = [.registered, .pending, .running, .success] ∧
      s.shared.1.orchestrator.waitersOf ⟨"a"⟩ = [] := by
  obtain ⟨s, hreach, hidle, hpath, hfinished⟩ := Reachable.exists_of_run
    (lifecycleMachine finalDeployment) inOrder ⟨({}, []), []⟩ awaitedExecution
    (fun s => (∀ t ∈ s.threads, t.next? = none) ∧
      statusPath ⟨"a"⟩ s.shared.2 = [.registered, .pending, .running, .success] ∧
      s.shared.1.orchestrator.isFinished ⟨"a"⟩ = true)
    (by decide +kernel) (by decide +kernel)
  obtain ⟨hhistory, hreleased⟩ := side_effects_follow_statuses rfl hreach hidle ⟨"a"⟩
  exact ⟨s, hreach, hhistory.trans hpath, hreleased hfinished⟩

/-- A call that succeeded, or that the status machine refused. -/
def isAnswered : Event runnerPorts → Bool
  | ⟨.inl _, .error e⟩ =>
      e.isInvalidStatusTransition || e.isOwnershipViolation || e.isStatusRaceCondition
  | ⟨.inr _, .error _⟩ => false
  | _ => true

/-- **A denial without effects.**  `a` holds the only slot when `b`, which somebody waits for, is
denied and finished: the history of `b` does not say so, and its waiter stays. -/
theorem denied_candidate_keeps_waiters :
    ∃ s, Reachable (lifecycleMachine finalDeployment) (Guard.top _ _ _) ⟨({}, []), []⟩ s ∧
      (∀ t ∈ s.threads, t.next? = none) ∧ (∀ e ∈ s.shared.2, isAnswered e = true) ∧
      statusPath ⟨"b"⟩ s.shared.2 = [.registered, .concurrencyControlledFinal] ∧
      s.shared.1.backend.historyStatuses ⟨"b"⟩ = [.registered] ∧
      s.shared.1.orchestrator.isFinished ⟨"b"⟩ = true ∧
      s.shared.1.orchestrator.waitersOf ⟨"b"⟩ = [⟨"parent"⟩] :=
  Reachable.exists_of_run (lifecycleMachine finalDeployment) (Guard.top _ _ _) ⟨({}, []), []⟩
    (.start (submitFinal "a") :: Label.steps 0 6 idleEnv ++
      .start (submitFinal "b") :: Label.steps 1 6 idleEnv ++
      .start (.claimNext .rust ⟨"w1"⟩) :: Label.steps 2 6 idleEnv ++
      .start (.waitFor ⟨"parent"⟩ ⟨"b"⟩) :: Label.steps 3 1 idleEnv ++
      .start (.claimNext .rust ⟨"w2"⟩) :: Label.steps 4 14 idleEnv) _
    (Guard.allowsAll_top _ _ _) (by decide +kernel)

end Rustvello.Mem
