import Rustvello.Mem.Runners

/-!
# A retrieval that fails

`get_invocations_to_run` returns early when a call fails, wherever it stands: with a candidate
in hand that the broker has already given away, or with denied candidates that wait to be
rerouted at the end.

* `retrievalExec` — the calls of a retrieval, one of which may fail;
* `Touched`, `Attended` — what the retrieval took or changed, and what somebody will still
  see to;
* `Spared` — nothing was denied before the failure, nothing unfit was taken, and the
  candidate in hand has another entry;
* `RetrievalLedger`, `Rounds`, `Facing` — what the tables hold between two candidates, and over one;
* `failed_retrieval_iff` — a failed retrieval strands nothing exactly if it is spared.
-/

namespace Rustvello.Mem

open Concurrency Proto Rustvello.Core Orchestration

/-! ## Runs with a failing call -/

/-- Every call of a runner answers a result. -/
def runnerFaults : Failing runnerPorts RustvelloError where
  fail e c := match c with
    | .inl _ => .error e
    | .inr _ => .error e
  failed c r := match c, r with
    | .inl _, .error _ => true
    | .inl _, .ok _ => false
    | .inr _, .error _ => true
    | .inr _, .ok _ => false

abbrev RetrievalTrial := Trial runnerPorts MemRuntime

/-- The calls of a retrieval over the in-memory backends. -/
abbrev retrievalExec :
    Chance Env RustvelloError → (c : runnerPorts.Op) → RetrievalTrial →
      runnerPorts.Ret c × RetrievalTrial :=
  Trial.exec runnerFaults MemRuntime.execRunner

def failures (t : RetrievalTrial) : Nat :=
  t.failures runnerFaults

/-- The retrieval asks the broker for a candidate. -/
def isDequeue : runnerPorts.Op → Bool
  | .inr (.retrieveInvocationFromQueue _) => true
  | _ => false

/-- The candidate that the broker gave away. -/
def dequeued? : Event runnerPorts → Option InvocationId
  | ⟨.inr (.retrieveInvocationFromQueue _), .ok (some id)⟩ => some id
  | _ => none

/-- The status write that was accepted. -/
def written? : Event runnerPorts → Option (InvocationId × InvocationStatus)
  | ⟨.inl (.setInvocationStatus id status _), .ok _⟩ => some (id, status)
  | _ => none

/-- The entries that were taken off the broker. -/
def takenOff (calls : List (Event runnerPorts)) : List InvocationId :=
  calls.filterMap dequeued?

/-- The accepted status writes. -/
def written (calls : List (Event runnerPorts)) : List (InvocationId × InvocationStatus) :=
  calls.filterMap written?

/-- The candidate of the newest call on the broker. -/
def inHand : List (Event runnerPorts) → Option InvocationId
  | [] => none
  | e :: calls => if isDequeue e.op then dequeued? e else inHand calls

/-- The retrieval took an entry of the invocation, or changed its status. -/
def Touched (calls : List (Event runnerPorts)) (id : InvocationId) : Prop :=
  id ∈ takenOff calls ∨ ∃ status, (id, status) ∈ written calls

/-- The statuses from which the recovery of stale invocations takes over. -/
def isRecovered (status : InvocationStatus) : Bool :=
  decide (status = .pending ∨ status = .running) || isRecoveryStatus status

/-- Somebody sees to the invocation: it is delivered again, it has ended, or recovery takes
it over once it is stale. -/
def Attended (s : MemRuntime) (id : InvocationId) : Prop :=
  ∃ status ∈ s.orchestrator.statusOf id,
    (status.isAvailableForRun = true ∧ s.broker.Queued id) ∨ status.isTerminal = true ∨
      isRecovered status = true

/-- The number of entries of an invocation. -/
def entriesOf (b : MemBroker) (id : InvocationId) : Nat :=
  b.queue.countP fun item => item.invocationId = id

/-- **What spares a failing retrieval** that started in `s`: it denied nobody before, every
entry it took was of an invocation that can run, has ended or is recovered, and the broker has
one more entry of the candidate in hand. -/
structure Spared (s : MemRuntime) (calls : List (Event runnerPorts)) : Prop where
  undenied : ∀ id, (id, InvocationStatus.concurrencyControlled) ∉ written calls
  fit : ∀ id ∈ takenOff calls, ∃ status ∈ s.orchestrator.statusOf id,
    status.isAvailableForRun = true ∨ status.isTerminal = true ∨ isRecovered status = true
  again : ∀ id ∈ inHand calls, (takenOff calls).count id < entriesOf s.broker id

/-! ## What one call does to the tables -/

/-- What the status writes and the broker have come to. -/
structure View where
  statuses : HashMap InvocationId InvocationStatusRecord
  broker : MemBroker
  writes : List (InvocationId × InvocationStatus)
  taken : List InvocationId
  hand : Option InvocationId

def View.statusOf (v : View) (id : InvocationId) : Option InvocationStatus :=
  (v.statuses.lookup id).map InvocationStatusRecord.status

def view (t : RetrievalTrial) : View where
  statuses := t.state.orchestrator.statusRecords
  broker := t.state.broker
  writes := written t.calls
  taken := takenOff t.calls
  hand := inHand t.calls

/-- Calls that write no status and leave the broker alone. -/
def Quiet : runnerPorts.Op → Bool
  | .inl (.getInvocationStatus _) | .inl (.getBlockingInvocations _) | .inl (.getInvocation _)
  | .inl (.getCall _) | .inl (.addHistory _) | .inl (.reportStatusChange _ _ _ _)
  | .inl (.publicationChange _ _ _ _) | .inr (.checkRunningConcurrency _ _ _) => true
  | _ => false

/-- As long as no call has failed, the tables satisfy `P`. -/
def Clean (P : View → Prop) (t : RetrievalTrial) : Prop :=
  failures t = 0 → P (view t)

section Calls

variable {x : Chance Env RustvelloError} {t : RetrievalTrial} {P : View → Prop}

theorem failures_exec (x : Chance Env RustvelloError) (c : runnerPorts.Op) (t : RetrievalTrial) :
    failures (retrievalExec x c t).2 =
      failures t + if runnerFaults.failed c (retrievalExec x c t).1 then 1 else 0 :=
  Trial.exec_failures _ _ _ _ _

/-- No failure is taken back. -/
theorem failures_le_exec (x : Chance Env RustvelloError) (c : runnerPorts.Op)
    (t : RetrievalTrial) : failures t ≤ failures (retrievalExec x c t).2 := by
  rw [failures_exec]
  omega

theorem view_quiet {c : runnerPorts.Op} (hc : Quiet c = true) :
    view (retrievalExec x c t).2 = view t := by
  have hstate : (retrievalExec x c t).2.state.orchestrator = t.state.orchestrator ∧
      (retrievalExec x c t).2.state.broker = t.state.broker := by
    obtain ⟨e, -, hstate⟩ | ⟨-, hstate⟩ := Trial.exec_cases runnerFaults MemRuntime.execRunner x c t
    · rw [hstate]
      exact ⟨rfl, rfl⟩
    · rw [hstate]
      rcases c with c | c <;> cases c <;> first | exact ⟨rfl, rfl⟩ | exact absurd hc Bool.false_ne_true
  have hcalls := Trial.exec_calls runnerFaults MemRuntime.execRunner x c t
  have hevent : written? ⟨c, (retrievalExec x c t).1⟩ = none ∧
      dequeued? ⟨c, (retrievalExec x c t).1⟩ = none ∧ isDequeue c = false := by
    rcases c with c | c <;> cases c <;> first | exact ⟨rfl, rfl, rfl⟩ | exact absurd hc Bool.false_ne_true
  obtain ⟨hwritten, hdequeued, hdequeue⟩ := hevent
  simp only [view, hstate.1, hstate.2, hcalls, written, takenOff, inHand,
    List.filterMap_cons_none hwritten, List.filterMap_cons_none hdequeued, hdequeue,
    Bool.false_eq_true, if_false]

/-- What one call makes of the tables, if it and all before did not fail. -/
theorem Clean.after {c : runnerPorts.Op} {P' : View → Prop} (h : Clean P t)
    (hview : P (view t) → P' (view (retrievalExec x c t).2)) :
    Clean P' (retrievalExec x c t).2 := by
  intro hclean
  apply hview
  apply h
  have hle := failures_le_exec x c t
  omega

/-- Quiet calls leave the tables as they are. -/
theorem Clean.quiet {c : runnerPorts.Op} (hc : Quiet c = true) (h : Clean P t) :
    Clean P (retrievalExec x c t).2 := by
  refine h.after fun hP => ?_
  rw [view_quiet hc]
  exact hP

/-- After the only failure, the tables are what they were before the call. -/
theorem Clean.before {c : runnerPorts.Op} (h : Clean P t)
    (hfailed : runnerFaults.failed c (retrievalExec x c t).1 = true)
    (hone : failures (retrievalExec x c t).2 = 1) : P (view t) := by
  apply h
  rw [failures_exec, hfailed] at hone
  simpa using hone

/-- Nothing is known once a call has failed. -/
theorem Clean.failed {c : runnerPorts.Op}
    (hfailed : runnerFaults.failed c (retrievalExec x c t).1 = true) :
    Clean P (retrievalExec x c t).2 := by
  intro hclean
  rw [failures_exec, hfailed] at hclean
  simp at hclean

/-- A status that was read is the stored one. -/
theorem read_status {id : InvocationId} {record : InvocationStatusRecord}
    (h : (retrievalExec x (.inl (.getInvocationStatus id)) t).1 = .ok record) :
    (view t).statusOf id = some record.status := by
  obtain ⟨e, hanswer, -⟩ | ⟨hanswer, -⟩ :=
    Trial.exec_cases runnerFaults MemRuntime.execRunner x (.inl (.getInvocationStatus id)) t
  · rw [h] at hanswer
    cases hanswer
  · rw [h] at hanswer
    have hread : t.state.orchestrator.getInvocationStatus id = .ok record := hanswer.symm
    show (t.state.orchestrator.statusRecords.lookup id).map _ = _
    unfold OrchestratorState.getInvocationStatus at hread
    cases hlookup : t.state.orchestrator.statusRecords.lookup id with
    | none =>
        simp only [hlookup] at hread
        cases hread
    | some stored =>
        simp only [hlookup] at hread
        cases hread
        rfl

/-- **What a status write does**: the status changes with the write, or nothing does. -/
theorem write_view (x : Chance Env RustvelloError) (t : RetrievalTrial) (id : InvocationId)
    (status : InvocationStatus) (runnerId : Option RunnerId) :
    (∃ record, (retrievalExec x (.inl (.setInvocationStatus id status runnerId)) t).1 =
        .ok record ∧ record.status = status ∧
      view (retrievalExec x (.inl (.setInvocationStatus id status runnerId)) t).2 =
        { view t with
          statuses := (view t).statuses.insert id record
          writes := (id, status) :: (view t).writes }) ∨
    ∃ e, (retrievalExec x (.inl (.setInvocationStatus id status runnerId)) t).1 = .error e ∧
      view (retrievalExec x (.inl (.setInvocationStatus id status runnerId)) t).2 = view t := by
  have hcalls := Trial.exec_calls runnerFaults MemRuntime.execRunner x
    (.inl (.setInvocationStatus id status runnerId)) t
  -- an error is written down, and no table is touched
  have hrefused : ∀ e, (retrievalExec x (.inl (.setInvocationStatus id status runnerId)) t).1 =
      .error e → (retrievalExec x (.inl (.setInvocationStatus id status runnerId)) t).2.state =
        t.state →
      view (retrievalExec x (.inl (.setInvocationStatus id status runnerId)) t).2 = view t := by
    intro e hanswer hstate
    rw [hanswer] at hcalls
    simp only [view, hstate, hcalls]
    rfl
  obtain ⟨e, hanswer, hstate⟩ | ⟨hanswer, hstate⟩ := Trial.exec_cases runnerFaults
    MemRuntime.execRunner x (.inl (.setInvocationStatus id status runnerId)) t
  · exact .inr ⟨e, hanswer, hrefused e hanswer hstate⟩
  · have hexec : MemRuntime.execRunner x.env (.inl (.setInvocationStatus id status runnerId))
        t.state =
        ((t.state.orchestrator.setInvocationStatus x.env.clock id status runnerId).1,
          { t.state with orchestrator :=
              (t.state.orchestrator.setInvocationStatus x.env.clock id status runnerId).2 }) := rfl
    obtain ⟨current, new, ccIndex, ccReverse, -, htrans, heq⟩ | ⟨_, _, -, -, heq⟩ | ⟨-, heq⟩ :=
      t.state.orchestrator.setInvocationStatus_cases x.env.clock id status runnerId
    · left
      rw [hexec, heq] at hanswer hstate
      rw [hanswer] at hcalls
      obtain ⟨-, -, hrecord⟩ := (statusRecordTransition_ok_iff _ _ _ _ _).mp htrans
      refine ⟨new, hanswer, by rw [hrecord], ?_⟩
      simp only [view, hstate, hcalls]
      rfl
    · rw [hexec, heq] at hanswer hstate
      exact .inr ⟨_, hanswer, hrefused _ hanswer hstate⟩
    · rw [hexec, heq] at hanswer hstate
      exact .inr ⟨_, hanswer, hrefused _ hanswer hstate⟩

/-- An answer that is an error counts as a failure. -/
theorem failed_of_error {c : PortCall} {e : RustvelloError}
    (h : (retrievalExec x (.inl c) t).1 = .error e) :
    runnerFaults.failed (.inl c) (retrievalExec x (.inl c) t).1 = true := by
  rw [h]
  rfl

/-- A candidate that the broker gives away has one entry less. -/
theorem retrieve_entries (b : MemBroker) (now : Timestamp) (queue : String) :
    (∃ e, b.retrieveInvocationFromQueue now queue none = (.error e, b)) ∨
    b.retrieveInvocationFromQueue now queue none = (.ok none, b) ∨
    ∃ id b', b.retrieveInvocationFromQueue now queue none = (.ok (some id), b') ∧
      ∀ y, entriesOf b' y + (if y = id then 1 else 0) = entriesOf b y := by
  unfold MemBroker.retrieveInvocationFromQueue
  split
  · rename_i e _
    exact .inl ⟨e, rfl⟩
  · split
    · exact .inr (.inl rfl)
    · rename_i found hfound
      refine .inr (.inr ⟨_, _, rfl, fun y => ?_⟩)
      obtain ⟨hlt, hget⟩ := List.getElem?_eq_some_iff.mp (MemBroker.selectIndex_get hfound)
      have hcount := (List.getElem_cons_eraseIdx_perm hlt).countP_eq
        fun item => decide (item.invocationId = y)
      rw [hget, List.countP_cons] at hcount
      show List.countP _ (b.queue.eraseIdx found.1) + _ = List.countP _ b.queue
      rw [← hcount]
      by_cases hy : y = found.2.invocationId
      · simp [hy]
      · simp [hy, Ne.symm hy]

/-- What asking the broker does. -/
theorem dequeue_view (queue : String) :
    ((∃ e, (retrievalExec x (.inr (.retrieveInvocationFromQueue queue)) t).1 = .error e) ∨
        (retrievalExec x (.inr (.retrieveInvocationFromQueue queue)) t).1 = .ok none) ∧
      view (retrievalExec x (.inr (.retrieveInvocationFromQueue queue)) t).2 =
        { view t with hand := none } ∨
    ∃ id b', (retrievalExec x (.inr (.retrieveInvocationFromQueue queue)) t).1 = .ok (some id) ∧
      (∀ y, entriesOf b' y + (if y = id then 1 else 0) = entriesOf (view t).broker y) ∧
      view (retrievalExec x (.inr (.retrieveInvocationFromQueue queue)) t).2 =
        { view t with broker := b', taken := id :: (view t).taken, hand := some id } := by
  have hcalls := Trial.exec_calls runnerFaults MemRuntime.execRunner x
    (.inr (.retrieveInvocationFromQueue queue)) t
  obtain ⟨e, hanswer, hstate⟩ | ⟨hanswer, hstate⟩ := Trial.exec_cases runnerFaults
    MemRuntime.execRunner x (.inr (.retrieveInvocationFromQueue queue)) t
  · left
    refine ⟨.inl ⟨e, hanswer⟩, ?_⟩
    rw [hanswer] at hcalls
    simp only [view, hstate, hcalls]
    rfl
  · have hbroker : MemRuntime.execRunner x.env (.inr (.retrieveInvocationFromQueue queue)) t.state =
        ((t.state.broker.retrieveInvocationFromQueue x.env.clock queue none).1,
          { t.state with
            broker := (t.state.broker.retrieveInvocationFromQueue x.env.clock queue none).2 }) :=
      rfl
    obtain ⟨e, heq⟩ | heq | ⟨id, b', heq, hentries⟩ :=
      retrieve_entries t.state.broker x.env.clock queue
    · left
      rw [hbroker, heq] at hanswer hstate
      rw [hanswer] at hcalls
      refine ⟨.inl ⟨e, hanswer⟩, ?_⟩
      simp only [view, hstate, hcalls]
      rfl
    · left
      rw [hbroker, heq] at hanswer hstate
      rw [hanswer] at hcalls
      refine ⟨.inr hanswer, ?_⟩
      simp only [view, hstate, hcalls]
      rfl
    · right
      rw [hbroker, heq] at hanswer hstate
      rw [hanswer] at hcalls
      refine ⟨id, b', hanswer, hentries, ?_⟩
      simp only [view, hstate, hcalls]
      rfl

end Calls

/-! ## The ledger of a retrieval -/

/-- How a candidate of the retrieval ends: claimed, or denied in one of two ways. -/
def IsVerdict (status : InvocationStatus) : Prop :=
  status = .pending ∨ status = .concurrencyControlledFinal ∨ status = .concurrencyControlled

/-- **What the tables hold**, in a retrieval that started in `s`; nothing is said yet about
the entry of the candidate `facing`. -/
structure RetrievalLedger (s : MemRuntime) (facing : Option InvocationId) (v : View) : Prop where
  unwritten : ∀ id, (∀ status, (id, status) ∉ v.writes) →
    v.statusOf id = s.orchestrator.statusOf id
  written : ∀ id status, (id, status) ∈ v.writes → v.statusOf id = some status ∧
    IsVerdict status ∧ ∃ old ∈ s.orchestrator.statusOf id, old.isAvailableForRun = true
  entries : ∀ id, entriesOf v.broker id + v.taken.count id = entriesOf s.broker id
  settled : ∀ id ∈ v.taken, some id ≠ facing → (∃ status, (id, status) ∈ v.writes) ∨
    ∃ status ∈ s.orchestrator.statusOf id, status.isAvailableForRun = false

section RetrievalLedger

variable {s : MemRuntime} {v : View} {facing : Option InvocationId} {id : InvocationId}
  {status : InvocationStatus}

theorem not_available_of_isVerdict (h : IsVerdict status) :
    status.isAvailableForRun = false := by
  rcases h with rfl | rfl | rfl <;> rfl

/-- Whoever is available was not written yet. -/
theorem RetrievalLedger.fresh (h : RetrievalLedger s facing v)
    (hstatus : v.statusOf id = some status) (havailable : status.isAvailableForRun = true) :
    ∀ st, (id, st) ∉ v.writes := by
  intro st hmem
  obtain ⟨hst, hverdict, -⟩ := h.written id st hmem
  rw [hstatus] at hst
  cases hst
  rw [not_available_of_isVerdict hverdict] at havailable
  cases havailable

/-- A candidate that is not available needs nothing more. -/
theorem RetrievalLedger.pass (h : RetrievalLedger s facing v) (hfacing : ∀ x ∈ facing, x = id)
    (hstatus : v.statusOf id = some status)
    (hunavailable : status.isAvailableForRun = false) : RetrievalLedger s none v := by
  refine ⟨h.unwritten, h.written, h.entries, fun x hx _ => ?_⟩
  by_cases hxid : x = id
  · subst hxid
    by_cases hwrites : ∃ st, (x, st) ∈ v.writes
    · exact .inl hwrites
    · right
      have hold := h.unwritten x (by simpa using hwrites)
      exact ⟨status, by rw [← hold, hstatus]; rfl, hunavailable⟩
  · refine h.settled x hx fun hx => hxid (hfacing x ?_)
    rw [← hx]
    rfl

/-- The broker gave an entry away. -/
theorem RetrievalLedger.take (h : RetrievalLedger s none v) {b' : MemBroker}
    (hentries : ∀ y, entriesOf b' y + (if y = id then 1 else 0) = entriesOf v.broker y) :
    RetrievalLedger s (some id) { v with broker := b', taken := id :: v.taken, hand := some id } := by
  refine ⟨h.unwritten, h.written, fun y => ?_, fun y hy hne => ?_⟩
  · show entriesOf b' y + (id :: v.taken).count y = _
    have hold := h.entries y
    have hnew := hentries y
    rw [List.count_cons]
    by_cases hy : id = y
    · subst hy
      simp only [if_true, beq_self_eq_true] at hnew ⊢
      omega
    · simp only [Ne.symm hy, if_false, beq_iff_eq, hy] at hnew ⊢
      omega
  · rcases List.mem_cons.mp hy with rfl | hold
    · exact absurd rfl hne
    · exact h.settled y hold (by simp)

/-- An available candidate gets its verdict. -/
theorem RetrievalLedger.write (h : RetrievalLedger s facing v) (hfacing : ∀ x ∈ facing, x = id)
    {old : InvocationStatus} (hold : v.statusOf id = some old)
    (havailable : old.isAvailableForRun = true) {record : InvocationStatusRecord}
    (hverdict : IsVerdict record.status) :
    RetrievalLedger s none { v with
      statuses := v.statuses.insert id record
      writes := (id, record.status) :: v.writes } := by
  have hfresh := h.fresh hold havailable
  have hstatus : ∀ y, (View.statusOf { v with
      statuses := v.statuses.insert id record
      writes := (id, record.status) :: v.writes } y) =
      if y = id then some record.status else v.statusOf y := by
    intro y
    by_cases hy : y = id
    · subst hy
      simp [View.statusOf]
    · simp [View.statusOf, hy, AList.lookup_insert_ne hy]
  constructor
  · intro y hy
    have hne : y ≠ id := by
      rintro rfl
      exact hy record.status List.mem_cons_self
    rw [hstatus, if_neg hne]
    exact h.unwritten y fun st hst => hy st (List.mem_cons_of_mem _ hst)
  · intro y st hst
    rw [hstatus]
    rcases List.mem_cons.mp hst with heq | hmem
    · cases heq
      refine ⟨if_pos rfl, hverdict, old, ?_, havailable⟩
      rw [← h.unwritten id hfresh, hold]
      rfl
    · have hne : y ≠ id := by
        rintro rfl
        exact hfresh st hmem
      rw [if_neg hne]
      exact h.written y st hmem
  · exact h.entries
  · intro y hy _
    by_cases hyid : y = id
    · exact .inl ⟨record.status, by rw [hyid]; exact List.mem_cons_self⟩
    · have hne : some y ≠ facing := by
        intro heq
        exact hyid (hfacing y (by rw [← heq]; rfl))
      exact (h.settled y hy hne).imp_left fun ⟨st, hst⟩ => ⟨st, List.mem_cons_of_mem _ hst⟩

end RetrievalLedger

/-! ## The verdict on a failure -/

/-- Everything that the retrieval took or changed is attended to. -/
def StrandsNothing (t : RetrievalTrial) : Prop :=
  ∀ id, Touched t.calls id → Attended t.state id

/-- If one call has failed, the retrieval strands nothing exactly if it is spared. -/
def Decided (s : MemRuntime) (_ : RustvelloError) (t : RetrievalTrial) : Prop :=
  failures t = 1 → (StrandsNothing t ↔ Spared s t.calls)

theorem entriesOf_pos_iff {b : MemBroker} {id : InvocationId} : 0 < entriesOf b id ↔ b.Queued id := by
  unfold entriesOf MemBroker.Queued
  rw [List.countP_pos_iff]
  simp

/-- An available invocation neither has ended nor is recovered. -/
theorem not_final_of_available {status : InvocationStatus}
    (h : status.isAvailableForRun = true) :
    status.isTerminal = false ∧ isRecovered status = false := by
  revert status
  decide

theorem mem_takenOff_of_inHand {calls : List (Event runnerPorts)} {id : InvocationId}
    (h : inHand calls = some id) : id ∈ takenOff calls := by
  induction calls with
  | nil => cases h
  | cons e calls ih =>
      unfold inHand at h
      split at h
      · exact List.mem_filterMap.mpr ⟨e, List.mem_cons_self, h⟩
      · obtain ⟨e', he', hid⟩ := List.mem_filterMap.mp (ih h)
        exact List.mem_filterMap.mpr ⟨e', List.mem_cons_of_mem _ he', hid⟩

section Verdict

variable {s : MemRuntime} {t : RetrievalTrial}

/-- Nobody sees to an invocation that is denied and waits for its reroute. -/
theorem not_attended_of_denied {id : InvocationId}
    (h : t.state.orchestrator.statusOf id = some .concurrencyControlled) :
    ¬ Attended t.state id := by
  rintro ⟨status, hstatus, hcases⟩
  rw [h] at hstatus
  cases hstatus
  rcases hcases with ⟨h, -⟩ | h | h <;> cases h

/-- **Between two candidates, and over an available one.** -/
theorem strandsNothing_iff_of_ledger (h : RetrievalLedger s (view t).hand (view t))
    (hhand : ∀ id ∈ (view t).hand,
      ∃ status ∈ (view t).statusOf id, status.isAvailableForRun = true) :
    StrandsNothing t ↔ Spared s t.calls := by
  -- the status of an invocation that was not written
  have hsame : ∀ id, (∀ status, (id, status) ∉ written t.calls) →
      t.state.orchestrator.statusOf id = s.orchestrator.statusOf id := h.unwritten
  constructor
  · intro hall
    refine ⟨fun id hmem => ?_, fun id hmem => ?_, fun id hmem => ?_⟩
    · exact not_attended_of_denied (h.written id _ hmem).1 (hall id (.inr ⟨_, hmem⟩))
    · by_cases hwrites : ∃ status, (id, status) ∈ written t.calls
      · obtain ⟨status, hst⟩ := hwrites
        obtain ⟨-, -, old, hold, havailable⟩ := h.written id status hst
        exact ⟨old, hold, .inl havailable⟩
      · obtain ⟨status, hstatus, hcases⟩ := hall id (.inl hmem)
        rw [hsame id (by simpa using hwrites)] at hstatus
        exact ⟨status, hstatus, hcases.imp_left And.left⟩
    · obtain ⟨status, hstatus, havailable⟩ := hhand id hmem
      obtain ⟨status', hstatus', hcases⟩ := hall id (.inl (mem_takenOff_of_inHand hmem))
      obtain rfl : status' = status := Option.some.inj (hstatus'.symm.trans hstatus)
      obtain ⟨hterminal, hrecovered⟩ := not_final_of_available havailable
      rw [hterminal, hrecovered] at hcases
      have hqueued : t.state.broker.Queued id := by simpa [havailable] using hcases
      have hpos := entriesOf_pos_iff.mpr hqueued
      have hentries : entriesOf t.state.broker id + (takenOff t.calls).count id =
          entriesOf s.broker id := h.entries id
      omega
  · intro hspared id htouched
    by_cases hwrites : ∃ status, (id, status) ∈ written t.calls
    · obtain ⟨status, hst⟩ := hwrites
      obtain ⟨hstatus, hverdict, -⟩ := h.written id status hst
      refine ⟨status, hstatus, .inr ?_⟩
      rcases hverdict with rfl | rfl | rfl
      · exact .inr rfl
      · exact .inl rfl
      · exact absurd hst (hspared.undenied id)
    · have hmem : id ∈ takenOff t.calls := htouched.resolve_right hwrites
      by_cases hid : some id = (view t).hand
      · have hinHand : id ∈ (view t).hand := by
          rw [← hid]
          rfl
        obtain ⟨status, hstatus, havailable⟩ := hhand id hinHand
        refine ⟨status, hstatus, .inl ⟨havailable, entriesOf_pos_iff.mp ?_⟩⟩
        have hagain := hspared.again id hinHand
        have hentries : entriesOf t.state.broker id + (takenOff t.calls).count id =
            entriesOf s.broker id := h.entries id
        omega
      · obtain hwritten | ⟨status, hstatus, hunavailable⟩ := h.settled id hmem hid
        · exact absurd hwritten hwrites
        · obtain ⟨status', hstatus', hcases⟩ := hspared.fit id hmem
          obtain rfl : status' = status := Option.some.inj (hstatus'.symm.trans hstatus)
          refine ⟨status', ?_, .inr (hcases.resolve_left ?_)⟩
          · rw [hsame id (by simpa using hwrites)]
            exact hstatus
          · rw [hunavailable]
            exact Bool.false_ne_true

end Verdict

/-! ## Candidate by candidate -/

/-- The ledger, with what the retrieval remembers of it. -/
structure Rounds (s : MemRuntime) (result rerouteIds : List InvocationId)
    (facing : Option InvocationId) (v : View) : Prop extends RetrievalLedger s facing v where
  claimed : ∀ id ∈ result, (id, InvocationStatus.pending) ∈ v.writes
  denied : ∀ id, id ∈ rerouteIds ↔ (id, InvocationStatus.concurrencyControlled) ∈ v.writes
  distinct : rerouteIds.Nodup

/-- The retrieval faces an available candidate: of the broker, which is in hand then, or one
that others wait for. -/
structure Facing (s : MemRuntime) (result rerouteIds : List InvocationId) (id : InvocationId)
    (hand : Option InvocationId) (v : View) : Prop where
  rounds : Rounds s result rerouteIds hand v
  inHand : v.hand = hand
  candidate : ∀ x ∈ hand, x = id
  available : ∃ status ∈ v.statusOf id, status.isAvailableForRun = true

section Rounds

variable {s : MemRuntime} {result rerouteIds : List InvocationId} {id : InvocationId}
  {facing hand : Option InvocationId} {v : View} {t : RetrievalTrial}
  {x : Chance Env RustvelloError} {e : RustvelloError} {record : InvocationStatusRecord}

/-- The candidate is claimed. -/
theorem Facing.claim (h : Facing s result rerouteIds id hand v)
    (hrecord : record.status = .pending) :
    Rounds s (result ++ [id]) rerouteIds none { v with
      statuses := v.statuses.insert id record
      writes := (id, record.status) :: v.writes } := by
  obtain ⟨old, hold, havailable⟩ := h.available
  refine ⟨h.rounds.write h.candidate hold havailable (.inl hrecord), ?_, ?_, h.rounds.distinct⟩
  · intro y hy
    rcases List.mem_append.mp hy with hy | hy
    · exact List.mem_cons_of_mem _ (h.rounds.claimed y hy)
    · rw [List.mem_singleton.mp hy, hrecord]
      exact List.mem_cons_self
  · intro y
    rw [h.rounds.denied y]
    simp [hrecord]

/-- The candidate is denied: it ends, or waits for its reroute. -/
theorem Facing.deny (h : Facing s result rerouteIds id hand v) {reroute : List InvocationId}
    (hrecord : record.status = .concurrencyControlledFinal ∧ reroute = [] ∨
      record.status = .concurrencyControlled ∧ reroute = [id]) :
    Rounds s result (rerouteIds ++ reroute) none { v with
      statuses := v.statuses.insert id record
      writes := (id, record.status) :: v.writes } := by
  obtain ⟨old, hold, havailable⟩ := h.available
  have hfresh := h.rounds.fresh hold havailable
  have hverdict : IsVerdict record.status :=
    hrecord.elim (fun hfinal => .inr (.inl hfinal.1)) fun hdenied => .inr (.inr hdenied.1)
  refine ⟨h.rounds.write h.candidate hold havailable hverdict, ?_, ?_, ?_⟩
  · exact fun y hy => List.mem_cons_of_mem _ (h.rounds.claimed y hy)
  · intro y
    rw [List.mem_append, h.rounds.denied y]
    rcases hrecord with ⟨hstatus, rfl⟩ | ⟨hstatus, rfl⟩
    · simp [hstatus]
    · simp [hstatus, or_comm]
  · rcases hrecord with ⟨-, rfl⟩ | ⟨-, rfl⟩
    · rw [List.append_nil]
      exact h.rounds.distinct
    · refine List.nodup_append.mpr ⟨h.rounds.distinct, List.nodup_singleton id, ?_⟩
      intro y hy z hz hyz
      rw [List.mem_singleton.mp hz] at hyz
      rw [hyz] at hy
      exact hfresh _ ((h.rounds.denied id).mp hy)

/-- A failing call over an available candidate is decided. -/
theorem Facing.decided {c : runnerPorts.Op}
    (h : Clean (Facing s result rerouteIds id hand) t)
    (hfailed : runnerFaults.failed c (retrievalExec x c t).1 = true)
    (hview : view (retrievalExec x c t).2 = view t) :
    Decided s e (retrievalExec x c t).2 := by
  intro hone
  have hfacing := h.before hfailed hone
  rw [← hview] at hfacing
  refine strandsNothing_iff_of_ledger ?_ fun y hy => ?_
  · rw [hfacing.inHand]
    exact hfacing.rounds.toRetrievalLedger
  · rw [hfacing.inHand] at hy
    rw [hfacing.candidate y hy]
    exact hfacing.available

end Rounds

/-! ## The parts of a retrieval -/

section Parts

variable {d : Deployment} {s : MemRuntime} {result rerouteIds : List InvocationId}
  {id : InvocationId} {runnerId : RunnerId} {hand : Option InvocationId} {t : RetrievalTrial}
  {P : View → Prop} {E : RustvelloError → RetrievalTrial → Prop} {x : Chance Env RustvelloError}
  {ids : List InvocationId} {record : InvocationStatusRecord}

/-- The calls of a retrieval, as the orchestrator makes them. -/
abbrev orchExec (x : Chance Env RustvelloError) (c : PortCall) (t : RetrievalTrial) :
    RustvelloResult c.Ans × RetrievalTrial :=
  retrievalExec x (.inl c) t

theorem getInvocationArguments_ensures (h : Clean P t) :
    Prog.EnsuresE (I := ports) orchExec (getInvocationArguments id) t (fun _ => Clean P) E := by
  refine ensuresE_attempt_bind fun x => ?_
  have hread := h.quiet (x := x) (c := .inl (.getInvocation id)) rfl
  split
  · exact Prog.ensuresE_pure hread
  · refine ensuresE_attempt_bind fun x => ?_
    split
    · exact Prog.ensuresE_pure (hread.quiet rfl)
    · exact Prog.ensuresE_pure (hread.quiet rfl)

/-- Recording a claim cannot fail. -/
theorem recordClaim_ensures (h : Clean P t) :
    Prog.EnsuresE (I := ports) orchExec (recordClaim d id runnerId record) t
      (fun _ => Clean P) E := by
  refine ensuresE_attempt_bind fun x => ?_
  have hread := h.quiet (x := x) (c := .inl (.getInvocation id)) rfl
  refine ensuresE_attempt_bind fun x => ?_
  split
  · refine Prog.EnsuresE.bind (getInvocationArguments_ensures (hread.quiet rfl))
      fun arguments t ht => ?_
    refine ensuresE_attempt_bind fun x => ?_
    exact Prog.ensuresE_pure (ht.quiet rfl)
  · exact Prog.ensuresE_pure (hread.quiet rfl)

theorem tryTransitionToPending_ensures (h : Clean (Facing s result rerouteIds id hand) t) :
    Prog.EnsuresE (I := ports) orchExec (tryTransitionToPending d id runnerId result) t
      (fun result' => Clean fun v => Rounds s result' rerouteIds none v ∧ v.hand = hand)
      (Decided s) := by
  refine ensuresE_attempt_bind fun x => ?_
  obtain ⟨record, hanswer, hrecord, hview⟩ | ⟨e, hanswer, hview⟩ :=
    write_view x t id .pending (some runnerId)
  case inr =>
      rw [hanswer]
      dsimp only
      split
      · exact Prog.ensuresE_pure (Clean.failed (failed_of_error hanswer))
      · exact Prog.ensuresE_throw (Facing.decided h (failed_of_error hanswer) hview)
  case inl =>
      rw [hanswer]
      have hclaimed : Clean (fun v => Rounds s (result ++ [id]) rerouteIds none v ∧ v.hand = hand)
          (orchExec x (.setInvocationStatus id .pending (some runnerId)) t).2 := by
        refine h.after fun hfacing => ?_
        rw [hview]
        have hrounds := hfacing.claim hrecord
        rw [hrecord] at hrounds
        exact ⟨hrounds, hfacing.inHand⟩
      refine Prog.EnsuresE.bind (recordClaim_ensures hclaimed) fun _ t ht => ?_
      exact Prog.ensuresE_pure ht

/-- Counting what runs finds an answer, or fails over the candidate. -/
theorem checked_or_decided {taskId : TaskId} {config : TaskConfig}
    {ccArgs : Option SerializedArguments} (h : Clean (Facing s result rerouteIds id hand) t) :
    Discipline.Outcome (fun _ => Clean (Facing s result rerouteIds id hand)) (Decided s)
      (retrievalExec x (.inr (.checkRunningConcurrency taskId config ccArgs)) t).1
      (retrievalExec x (.inr (.checkRunningConcurrency taskId config ccArgs)) t).2 := by
  cases hanswer : (retrievalExec x (.inr (.checkRunningConcurrency taskId config ccArgs)) t).1 with
  | error e =>
      refine Facing.decided (e := e) h ?_ (view_quiet rfl)
      rw [hanswer]
      rfl
  | ok cleared => exact h.quiet rfl

theorem checkCcForInvocation_ensures (h : Clean (Facing s result rerouteIds id hand) t) :
    Prog.EnsuresE retrievalExec (checkCcForInvocation d id) t
      (fun _ => Clean (Facing s result rerouteIds id hand)) (Decided s) := by
  refine ensuresE_liftAttempt_bind fun x => ?_
  have hread := h.quiet (x := x) (c := .inl (.getInvocation id)) rfl
  split
  · exact Prog.ensuresE_pure hread
  · split
    · exact Prog.ensuresE_pure hread
    · split
      · exact Prog.ensuresE_pure hread
      · refine ensuresE_liftAttempt_bind fun x => ?_
        split
        · exact Prog.ensuresE_pure (hread.quiet rfl)
        · refine ensuresE_runnerPort fun x => ?_
          exact checked_or_decided (hread.quiet rfl)

theorem Clean.mono {P' : View → Prop} (h : Clean P t) (hP : ∀ v, P v → P' v) : Clean P' t :=
  fun hclean => hP _ (h hclean)

/-- An available candidate whose status was read. -/
theorem Clean.facing (h : Clean (fun v => Rounds s result rerouteIds hand v ∧ v.hand = hand) t)
    (hcandidate : ∀ y ∈ hand, y = id)
    (hread : (retrievalExec x (.inl (.getInvocationStatus id)) t).1 = .ok record)
    (havailable : record.status.isAvailableForRun = true) :
    Clean (Facing s result rerouteIds id hand)
      (retrievalExec x (.inl (.getInvocationStatus id)) t).2 := by
  refine h.after fun hrounds => ?_
  rw [view_quiet rfl]
  exact ⟨hrounds.1, hrounds.2, hcandidate, record.status, read_status hread, havailable⟩

/-! ### Phase 1 -/

theorem retrieveBlocking_ensures (maxNum : Nat) (ids : List InvocationId)
    (h : Clean (fun v => Rounds s result rerouteIds none v ∧ v.hand = none) t) :
    Prog.EnsuresE retrievalExec (retrieveBlocking d maxNum runnerId result ids) t
      (fun result' => Clean fun v => Rounds s result' rerouteIds none v ∧ v.hand = none)
      (Decided s) := by
  induction ids generalizing result t with
  | nil => exact Prog.ensuresE_pure h
  | cons id rest ih =>
      unfold retrieveBlocking
      split
      · exact Prog.ensuresE_pure h
      · refine ensuresE_liftAttempt_bind fun x => ?_
        cases hread : (retrievalExec x (.inl (.getInvocationStatus id)) t).1 with
        | error e =>
            exact ih (Clean.failed (failed_of_error hread))
        | ok record =>
            dsimp only
            split
            · exact ih (h.quiet rfl)
            · rename_i hpassed
              have havailable : record.status.isAvailableForRun = true := by
                rw [← InvocationStatus.canTransitionTo_pending_iff]
                by_contra hcan
                exact hpassed (by simp [passedOver, hcan])
              have hfacing := h.facing (by simp) hread havailable
              refine Prog.EnsuresE.bind (checkCcForInvocation_ensures hfacing)
                fun cleared t ht => ?_
              split
              · refine Prog.EnsuresE.bind (ensuresE_lift (tryTransitionToPending_ensures ht))
                  fun result' t ht => ?_
                exact ih ht
              · exact ih (ht.mono fun v hv => ⟨hv.rounds, hv.inHand⟩)

/-! ### Phase 2 -/

/-- What the broker was asked for: nothing was found, or a candidate is in hand. -/
def Found (s : MemRuntime) (result rerouteIds : List InvocationId) :
    Option InvocationId → View → Prop
  | none, v => Rounds s result rerouteIds none v
  | some id, v => Rounds s result rerouteIds (some id) v ∧ v.hand = some id

/-- One call on the broker. -/
theorem dequeue_ensures (queue : String) (h : Clean (Rounds s result rerouteIds none) t) :
    Prog.EnsuresE retrievalExec (runnerPort (.retrieveInvocationFromQueue queue)) t
      (fun found => Clean (Found s result rerouteIds found)) (Decided s) := by
  refine ensuresE_runnerPort fun x => ?_
  -- without a candidate the ledger is the same
  have hnothing : ∀ v, Rounds s result rerouteIds none v →
      Rounds s result rerouteIds none { v with hand := none } := fun v hv =>
    ⟨⟨hv.unwritten, hv.written, hv.entries, hv.settled⟩, hv.claimed, hv.denied, hv.distinct⟩
  obtain ⟨⟨e, hanswer⟩ | hanswer, hview⟩ | ⟨id, b', hanswer, hentries, hview⟩ :=
    dequeue_view (x := x) (t := t) queue
  · rw [hanswer]
    intro hone
    have hrounds := h.before (x := x) (c := .inr (.retrieveInvocationFromQueue queue))
      (by rw [hanswer]; rfl) hone
    refine strandsNothing_iff_of_ledger ?_ ?_
    · rw [hview]
      exact (hnothing _ hrounds).toRetrievalLedger
    · rw [hview]
      simp
  · rw [hanswer]
    refine h.after fun hrounds => ?_
    rw [hview]
    exact hnothing _ hrounds
  · rw [hanswer]
    refine h.after fun hrounds => ?_
    rw [hview]
    exact ⟨⟨hrounds.take hentries, hrounds.claimed, hrounds.denied, hrounds.distinct⟩, rfl⟩

theorem dequeueFirst_ensures (queues : List String)
    (h : Clean (Rounds s result rerouteIds none) t) :
    Prog.EnsuresE retrievalExec (dequeueFirst queues) t
      (fun found => Clean (Found s result rerouteIds found)) (Decided s) := by
  induction queues generalizing t with
  | nil => exact Prog.ensuresE_pure h
  | cons queue rest ih =>
      refine Prog.EnsuresE.bind (dequeue_ensures queue h) fun found t ht => ?_
      cases found with
      | some id => exact Prog.ensuresE_pure ht
      | none => exact ih ht

/-- One denial that is written by an ordered call. -/
theorem denied_ensures {status : InvocationStatus} {reroute : List InvocationId}
    (hstatus : status = .concurrencyControlledFinal ∧ reroute = [] ∨
      status = .concurrencyControlled ∧ reroute = [id])
    (h : Clean (Facing s result rerouteIds id hand) t) :
    Prog.EnsuresE (I := ports) orchExec (do
        let written ← attempt (port (.setInvocationStatus id status (some runnerId)))
        denied rerouteIds written reroute) t
      (fun rerouteIds' => Clean (Rounds s result rerouteIds' none)) (Decided s) := by
  refine ensuresE_attempt_bind fun x => ?_
  obtain ⟨record, hanswer, hrecord, hview⟩ | ⟨e, hanswer, hview⟩ :=
    write_view x t id status (some runnerId)
  case inr =>
      rw [hanswer]
      show Prog.EnsuresE (I := ports) orchExec
        (if e.isInvalidStatusTransition then pure rerouteIds else throw e) _ _ _
      split
      · exact Prog.ensuresE_pure (Clean.failed (failed_of_error hanswer))
      · exact Prog.ensuresE_throw (Facing.decided h (failed_of_error hanswer) hview)
  case inl =>
      rw [hanswer]
      refine Prog.ensuresE_pure (h.after fun hfacing => ?_)
      rw [hview, ← hrecord]
      apply hfacing.deny
      rw [hrecord]
      exact hstatus

/-- The in-memory backends refuse every transaction. -/
theorem published_fails (x : Chance Env RustvelloError) (id : InvocationId) (runnerId : RunnerId)
    (change : PublicationChange) :
    ∃ e, (retrievalExec x (.inl (.publicationChange id runnerId change false)) t).1 = .error e := by
  obtain ⟨e, hanswer, -⟩ | ⟨hanswer, -⟩ := Trial.exec_cases runnerFaults MemRuntime.execRunner x
    (.inl (.publicationChange id runnerId change false)) t
  · exact ⟨e, hanswer⟩
  · exact ⟨_, hanswer⟩

theorem denyRetrieved_ensures (h : Clean (Facing s result rerouteIds id hand) t) :
    Prog.EnsuresE (I := ports) orchExec (denyRetrieved d id runnerId rerouteIds) t
      (fun rerouteIds' => Clean (Rounds s result rerouteIds' none)) (Decided s) := by
  refine ensuresE_attempt_bind fun x => ?_
  cases hread : (orchExec x (.getInvocation id) t).1 with
  | error e =>
      exact Prog.ensuresE_pure (Clean.failed (failed_of_error hread))
  | ok invocation =>
      have hfacing : Clean (Facing s result rerouteIds id hand)
          (orchExec x (.getInvocation id) t).2 := h.quiet rfl
      dsimp only
      split
      · rename_i config _
        split
        · refine ensuresE_attempt_bind fun y => ?_
          obtain ⟨e, hanswer⟩ := published_fails (t := (orchExec x (.getInvocation id) t).2) y id
            runnerId (.concurrencyReroute ⟨config.queue, config.priority⟩)
          split
          · rename_i hok
            cases hanswer.symm.trans hok
          · split
            · exact Prog.ensuresE_pure (Clean.failed (failed_of_error hanswer))
            · exact Prog.ensuresE_throw
                (Facing.decided hfacing (failed_of_error hanswer) (view_quiet rfl))
        · exact denied_ensures (.inr ⟨rfl, rfl⟩) hfacing
      · exact denied_ensures (.inl ⟨rfl, rfl⟩) hfacing

theorem retrieveFromBroker_ensures (maxNum : Nat) (queues : List String) (attempts : Nat)
    (h : Clean (Rounds s result rerouteIds none) t) :
    Prog.EnsuresE retrievalExec
      (retrieveFromBroker d maxNum runnerId queues attempts result rerouteIds) t
      (fun retrieved => Clean (Rounds s retrieved.1 retrieved.2 none)) (Decided s) := by
  induction attempts generalizing result rerouteIds t with
  | zero => exact Prog.ensuresE_pure h
  | succ n ih =>
      unfold retrieveFromBroker
      split
      · exact Prog.ensuresE_pure h
      · refine Prog.EnsuresE.bind (dequeueFirst_ensures queues h) fun found t ht => ?_
        cases found with
        | none => exact Prog.ensuresE_pure ht
        | some id =>
            have hcandidate : ∀ y ∈ some id, y = id := fun y hy => (Option.some.inj hy).symm
            dsimp only
            split
            · rename_i hmem
              -- a second entry of a claimed candidate
              refine ih (ht.mono fun v hv => ?_)
              obtain ⟨hstatus, -, -⟩ := hv.1.written id _ (hv.1.claimed id hmem)
              exact ⟨hv.1.pass hcandidate hstatus rfl, hv.1.claimed, hv.1.denied, hv.1.distinct⟩
            · refine ensuresE_liftAttempt_bind fun x => ?_
              cases hread : (retrievalExec x (.inl (.getInvocationStatus id)) t).1 with
              | error e =>
                  exact ih (Clean.failed (failed_of_error hread))
              | ok record =>
                  dsimp only
                  split
                  · rename_i havailable
                    have hfacing := Clean.facing ht hcandidate hread havailable
                    refine Prog.EnsuresE.bind (checkCcForInvocation_ensures hfacing)
                      fun cleared t ht => ?_
                    split
                    · refine Prog.EnsuresE.bind
                        (ensuresE_lift (tryTransitionToPending_ensures ht)) fun result' t ht => ?_
                      exact ih (ht.mono fun v hv => hv.1)
                    · exact Prog.EnsuresE.bind (ensuresE_lift (denyRetrieved_ensures ht))
                        fun rerouteIds' t ht => ih ht
                  · rename_i hunavailable
                    refine ih (Clean.after ht fun hv => ?_)
                    rw [view_quiet rfl]
                    have hfalse : record.status.isAvailableForRun = false := by
                      simpa using hunavailable
                    exact ⟨hv.1.pass hcandidate (read_status hread) hfalse, hv.1.claimed,
                      hv.1.denied, hv.1.distinct⟩

/-! ### Phase 3 -/

/-- The denied candidates that are still to be rerouted. -/
structure Waiting (ids : List InvocationId) (v : View) : Prop where
  distinct : ids.Nodup
  denied : ∀ id ∈ ids, (id, InvocationStatus.concurrencyControlled) ∈ v.writes ∧
    v.statusOf id = some .concurrencyControlled

theorem Rounds.waiting {v : View} (h : Rounds s result rerouteIds none v) :
    Waiting rerouteIds v := by
  refine ⟨h.distinct, fun id hid => ?_⟩
  have hmem := (h.denied id).mp hid
  exact ⟨hmem, (h.written id _ hmem).1⟩

/-- The route of one invocation concerns no status. -/
theorem Waiting.route (h : Clean (Waiting ids) t) (id : InvocationId) (taskId : Option TaskId)
    (queue : String) (priority : F64) :
    Clean (Waiting ids)
      (orchExec x (.routeInvocationWithOptions id taskId queue priority) t).2 := by
  refine Clean.after (c := .inl (.routeInvocationWithOptions id taskId queue priority)) h
    fun hwaiting => ?_
  have hcalls := Trial.exec_calls runnerFaults MemRuntime.execRunner x
    (.inl (.routeInvocationWithOptions id taskId queue priority)) t
  have hrecords : (retrievalExec x (.inl (.routeInvocationWithOptions id taskId queue priority))
      t).2.state.orchestrator = t.state.orchestrator := by
    obtain ⟨e, -, hstate⟩ | ⟨-, hstate⟩ := Trial.exec_cases runnerFaults MemRuntime.execRunner x
      (.inl (.routeInvocationWithOptions id taskId queue priority)) t
    · rw [hstate]
    · rw [hstate]
      rfl
  have hview : (view (retrievalExec x
        (.inl (.routeInvocationWithOptions id taskId queue priority)) t).2).writes =
          (view t).writes ∧
      (view (retrievalExec x
        (.inl (.routeInvocationWithOptions id taskId queue priority)) t).2).statuses =
          (view t).statuses := by
    simp only [view, hrecords, hcalls, written]
    exact ⟨rfl, trivial⟩
  refine ⟨hwaiting.distinct, fun y hy => ?_⟩
  rw [View.statusOf, hview.1, hview.2]
  exact hwaiting.denied y hy

theorem routeDenied_ensures (h : Clean (Waiting ids) t) :
    Prog.EnsuresE (I := ports) orchExec (routeDenied d id) t (fun _ => Clean (Waiting ids))
      (Decided s) := by
  refine ensuresE_attempt_bind fun x => ?_
  have hread := h.quiet (x := x) (c := .inl (.getInvocation id)) rfl
  split
  · exact Prog.ensuresE_pure hread
  · split
    · exact Prog.ensuresE_pure hread
    · refine ensuresE_attempt_bind fun x => ?_
      exact Prog.ensuresE_pure (Waiting.route hread _ _ _ _)

/-- A failure in the last phase always leaves a denied candidate behind. -/
theorem decided_of_waiting {e : RustvelloError}
    (h : Waiting (id :: ids) (view t)) : Decided s e t := by
  intro _
  obtain ⟨hwritten, hstatus⟩ := h.denied id List.mem_cons_self
  constructor
  · intro hall
    exact absurd (hall id (.inr ⟨_, hwritten⟩)) (not_attended_of_denied hstatus)
  · intro hspared
    exact absurd hwritten (hspared.undenied id)

theorem rerouteDenied_ensures (ids : List InvocationId) (h : Clean (Waiting ids) t) :
    Prog.EnsuresE (I := ports) orchExec (rerouteDenied d runnerId ids) t (fun _ _ => True)
      (Decided s) := by
  induction ids generalizing t with
  | nil => exact Prog.ensuresE_pure trivial
  | cons id rest ih =>
      refine ensuresE_attempt_bind fun x => ?_
      obtain ⟨record, hanswer, hrecord, hview⟩ | ⟨e, hanswer, hview⟩ :=
        write_view x t id .rerouted (some runnerId)
      case inr =>
          rw [hanswer]
          dsimp only
          split
          · exact ih (Clean.failed (failed_of_error hanswer))
          · refine Prog.ensuresE_throw fun hone => ?_
            have hwaiting := h.before (failed_of_error hanswer) hone
            rw [← hview] at hwaiting
            exact decided_of_waiting (e := e) hwaiting hone
      case inl =>
          rw [hanswer]
          have hrest : Clean (Waiting rest)
              (orchExec x (.setInvocationStatus id .rerouted (some runnerId)) t).2 := by
            refine Clean.after h fun hwaiting => ?_
            obtain ⟨hnew, hdistinct⟩ := List.nodup_cons.mp hwaiting.distinct
            rw [hview]
            refine ⟨hdistinct, fun y hy => ?_⟩
            obtain ⟨hwritten, hstatus⟩ := hwaiting.denied y (List.mem_cons_of_mem _ hy)
            have hne : y ≠ id := by
              rintro rfl
              exact hnew hy
            refine ⟨List.mem_cons_of_mem _ hwritten, ?_⟩
            show ((AList.insert id record (view t).statuses).lookup y).map _ = _
            rw [AList.lookup_insert_ne hne]
            exact hstatus
          exact Prog.EnsuresE.bind (routeDenied_ensures hrest) fun _ t ht => ih ht

/-! ### The whole retrieval -/

theorem rounds_start (s : MemRuntime) :
    Rounds s [] [] none (view ⟨s, []⟩) ∧ (view ⟨s, []⟩).hand = none := by
  refine ⟨⟨⟨fun _ _ => rfl, ?_, fun _ => rfl, ?_⟩, ?_, ?_, List.nodup_nil⟩, rfl⟩
  · intro id status hmem
    cases hmem
  · intro id hmem
    cases hmem
  · intro id hmem
    cases hmem
  · intro id
    constructor
    · intro hmem
      cases hmem
    · intro hmem
      cases hmem

theorem getInvocationsToRun_ensures (d : Deployment) (maxNum : Nat) (runnerId : RunnerId)
    (queues : List String) (s : MemRuntime) :
    Prog.EnsuresE retrievalExec (getInvocationsToRun d maxNum runnerId queues) ⟨s, []⟩
      (fun _ _ => True) (Decided s) := by
  have hstart : Clean (fun v => Rounds s [] [] none v ∧ v.hand = none) ⟨s, []⟩ :=
    fun _ => rounds_start s
  refine ensuresE_liftAttempt_bind fun x => ?_
  have hasked := hstart.quiet (x := x) (c := .inl (.getBlockingInvocations maxNum)) rfl
  have hrest : ∀ (result : List InvocationId) (t : RetrievalTrial),
      Clean (Rounds s result [] none) t →
      Prog.EnsuresE retrievalExec (do
        let retrieved ← retrieveFromBroker d maxNum runnerId queues (maxNum * 2 + 8) result []
        lift (rerouteDenied d runnerId retrieved.2)
        pure retrieved.1) t (fun _ _ => True) (Decided s) := by
    intro result t ht
    refine Prog.EnsuresE.bind (retrieveFromBroker_ensures maxNum queues _ ht)
      fun retrieved t ht => ?_
    have hwaiting : Clean (Waiting retrieved.2) t := ht.mono fun v hv => hv.waiting
    exact Prog.EnsuresE.bind (ensuresE_lift (rerouteDenied_ensures retrieved.2 hwaiting))
      fun _ t _ => Prog.ensuresE_pure trivial
  split
  · refine Prog.EnsuresE.bind (retrieveBlocking_ensures maxNum _ hasked) fun result t ht => ?_
    exact hrest result t (ht.mono fun v hv => hv.1)
  · exact hrest [] _ (hasked.mono fun v hv => hv.1)

end Parts

/-- **A failed retrieval**, over the in-memory backends in any state: it returned an error,
and one of its calls failed.  Everything it took off the broker or changed is attended to
exactly if it had denied nobody before, had taken no entry of an invocation that neither can
run nor has ended nor is recovered, and the broker has one more entry of the candidate in
hand. -/
theorem failed_retrieval_iff (d : Deployment) (maxNum : Nat) (runnerId : RunnerId)
    (queues : List String) (s : MemRuntime) (e : RustvelloError) (t : RetrievalTrial)
    (hends : Prog.EndsE retrievalExec (getInvocationsToRun d maxNum runnerId queues) ⟨s, []⟩
      (.error e) t)
    (hone : failures t = 1) :
    (∀ id, Touched t.calls id → Attended t.state id) ↔ Spared s t.calls :=
  getInvocationsToRun_ensures d maxNum runnerId queues s (.error e) t hends hone

/-- Invocations of the serial task, registered, indexed and queued. -/
def queuedSerial (ids : List InvocationId) : MemRuntime :=
  let call := CallDTO.new serialDeployment.sha256Hex serialTask .empty
  ids.foldl (fun s id =>
    let s := (MemRuntime.exec idleEnv (.registerInvocationWithId id call none) s).2
    let s := (MemRuntime.execRunner idleEnv
      (.inr (.indexForConcurrencyControl id serialTask (some .empty))) s).2
    let s := (MemRuntime.exec idleEnv
      (.upsertInvocation (.new 0 id serialTask call.callId) call) s).2
    (MemRuntime.exec idleEnv (.routeInvocationWithOptions id (some serialTask) "default"
      (.finite 0)) s).2) {}

/-- The call after the first `n` ones fails. -/
def failsAfter (n : Nat) : List (Chance Env RustvelloError) :=
  List.replicate n ⟨idleEnv, none⟩ ++ [⟨idleEnv, some (.stateBackend "down")⟩]

/-- A retrieval of two invocations of the serial task. -/
def serialRetrieval : Runner (List InvocationId) :=
  getInvocationsToRun serialDeployment 2 ⟨"w"⟩ ["default"]

instance (t : RetrievalTrial) (id : InvocationId) : Decidable (Attended t.state id) :=
  inferInstanceAs (Decidable (∃ status ∈ t.state.orchestrator.statusOf id, _))

/-- The retrieval has claimed the first invocation when the broker fails: it is pending, and
recovery will see to it. -/
theorem failed_retrieval_iff_claimed :
    ∃ e t, Prog.EndsE retrievalExec serialRetrieval ⟨queuedSerial [⟨"a"⟩, ⟨"b"⟩], []⟩ (.error e) t ∧
      t.state.orchestrator.statusOf ⟨"a"⟩ = some .pending ∧
      ∀ id, Touched t.calls id → Attended t.state id := by
  obtain ⟨r, t, hends, hr, hone, hwrites, htaken, hhand, hstatus⟩ :=
    Prog.exists_ends_of_scripted retrievalExec serialRetrieval.run
      ⟨queuedSerial [⟨"a"⟩, ⟨"b"⟩], []⟩ (failsAfter 9)
      (fun r t => r.isOk = false ∧ failures t = 1 ∧
        (∀ w ∈ written t.calls, w.2 ≠ .concurrencyControlled) ∧
        (∀ id ∈ takenOff t.calls, (queuedSerial [⟨"a"⟩, ⟨"b"⟩]).orchestrator.statusOf id =
          some .registered) ∧
        inHand t.calls = none ∧ t.state.orchestrator.statusOf ⟨"a"⟩ = some .pending)
      (by decide +kernel)
  cases r with
  | ok result => cases hr
  | error e =>
      refine ⟨e, t, hends, hstatus, (failed_retrieval_iff _ _ _ _ _ e t hends hone).mpr ?_⟩
      refine ⟨fun id hmem => hwrites _ hmem rfl, fun id hmem => ?_, fun id hmem => ?_⟩
      · exact ⟨.registered, htaken id hmem, .inl rfl⟩
      · rw [hhand] at hmem
        cases hmem

/-- **Two failures that strand the second invocation.**  It is taken off the broker and the
check fails: it stays registered, without an entry.  Or it is denied and the broker fails
before it is rerouted: it stays concurrency controlled. -/
theorem failed_retrieval_strands :
    (∃ e t, Prog.EndsE retrievalExec serialRetrieval ⟨queuedSerial [⟨"a"⟩, ⟨"b"⟩], []⟩
        (.error e) t ∧ failures t = 1 ∧ ⟨"b"⟩ ∈ takenOff t.calls ∧
      t.state.orchestrator.statusOf ⟨"b"⟩ = some .registered ∧ ¬ t.state.broker.Queued ⟨"b"⟩ ∧
      ¬ Attended t.state ⟨"b"⟩) ∧
    ∃ e t, Prog.EndsE retrievalExec serialRetrieval ⟨queuedSerial [⟨"a"⟩, ⟨"b"⟩], []⟩
        (.error e) t ∧ failures t = 1 ∧ ⟨"b"⟩ ∈ takenOff t.calls ∧
      t.state.orchestrator.statusOf ⟨"b"⟩ = some .concurrencyControlled ∧
      ¬ t.state.broker.Queued ⟨"b"⟩ ∧ ¬ Attended t.state ⟨"b"⟩ := by
  have hrun : ∀ (n : Nat) (status : InvocationStatus),
      (serialRetrieval.run.scripted retrievalExec ⟨queuedSerial [⟨"a"⟩, ⟨"b"⟩], []⟩
        (failsAfter n)).any (fun out => decide (out.1.isOk = false ∧ failures out.2 = 1 ∧
          ⟨"b"⟩ ∈ takenOff out.2.calls ∧
          out.2.state.orchestrator.statusOf ⟨"b"⟩ = some status ∧
          ¬ out.2.state.broker.Queued ⟨"b"⟩ ∧ ¬ Attended out.2.state ⟨"b"⟩)) = true →
      ∃ e t, Prog.EndsE retrievalExec serialRetrieval ⟨queuedSerial [⟨"a"⟩, ⟨"b"⟩], []⟩
          (.error e) t ∧ failures t = 1 ∧ ⟨"b"⟩ ∈ takenOff t.calls ∧
        t.state.orchestrator.statusOf ⟨"b"⟩ = some status ∧ ¬ t.state.broker.Queued ⟨"b"⟩ ∧
        ¬ Attended t.state ⟨"b"⟩ := by
    intro n status h
    obtain ⟨r, t, hends, hr, hrest⟩ := Prog.exists_ends_of_scripted retrievalExec
      serialRetrieval.run ⟨queuedSerial [⟨"a"⟩, ⟨"b"⟩], []⟩ (failsAfter n)
      (fun r t => r.isOk = false ∧ failures t = 1 ∧ ⟨"b"⟩ ∈ takenOff t.calls ∧
        t.state.orchestrator.statusOf ⟨"b"⟩ = some status ∧ ¬ t.state.broker.Queued ⟨"b"⟩ ∧
        ¬ Attended t.state ⟨"b"⟩) h
    cases r with
    | ok result => cases hr
    | error e => exact ⟨e, t, hends, hrest⟩
  exact ⟨hrun 13 .registered (by decide +kernel), hrun 16 .concurrencyControlled (by decide +kernel)⟩

end Rustvello.Mem
