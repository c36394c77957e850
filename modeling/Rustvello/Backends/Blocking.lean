import Rustvello.Redis.Orchestrator
import Rustvello.Sqlite.Runtime

/-!
# Waiter priority on the three backends

`get_blocking_invocations` finds invocations that others wait for, and `claim_next` hands
them out ahead of the queue without looking at their status again.

* `WaitView` — who waits on whom and the status records, as any backend reports them;
* `Runnable`, `Answers` — what the query should find;
* `lists_iff` — a query that lists by another status filter answers rightly exactly when no
  invocation has a status on which the two filters differ (`Quiet`);
* `MemReached` — the in-memory orchestrator keeps the relation twice, and the two copies
  agree in runs that release and remove only what waits once;
* `blocking_answers` — the three backends together.
-/

namespace Rustvello.Backends

open Proto Rustvello.Core

/-! ## What the query should find -/

/-- What a backend reports about waiting and about statuses. -/
structure WaitView where
  waits : InvocationId → InvocationId → Prop
  record : InvocationId → Option InvocationStatusRecord

namespace WaitView

variable (v : WaitView)

/-- Somebody waits for the invocation, and it waits for no other one. -/
def Awaited (id : InvocationId) : Prop :=
  (∃ waiter, v.waits waiter id) ∧ ∀ other, v.waits id other → other = id

/-- Awaited, with a status from which it can be claimed. -/
def Runnable (id : InvocationId) : Prop :=
  v.Awaited id ∧ ∃ record ∈ v.record id, record.status.isAvailableForRun = true

/-- An answer of at most `maxNum` runnable invocations that omits none when it has room. -/
def Answers (maxNum : Nat) (result : List InvocationId) : Prop :=
  (∀ id ∈ result, v.Runnable id) ∧ (result.length < maxNum → ∀ id, v.Runnable id → id ∈ result)

/-- What the queries look for: waited on, waiting on nothing, with an accepted status. -/
def Listed (accepts : InvocationStatus → Bool) (id : InvocationId) : Prop :=
  (∃ waiter, v.waits waiter id) ∧ (¬ ∃ other, v.waits id other) ∧
    ∃ record ∈ v.record id, accepts record.status = true

/-- No awaited invocation has a status that the filter misjudges, and none that waits on
itself is available. -/
def Quiet (misjudged : List InvocationStatus) : Prop :=
  ∀ id, v.Awaited id → ∀ record ∈ v.record id,
    (v.waits id id → record.status.isAvailableForRun = false) ∧
    (¬ v.waits id id → record.status ∉ misjudged)

end WaitView

section Queries

variable {v : WaitView} {accepts : InvocationStatus → Bool} {misjudged : List InvocationStatus}

/-- Runnable and listed are the same exactly when nothing is misjudged. -/
theorem listed_iff_runnable
    (haccepts : ∀ status, status ∈ misjudged ↔ accepts status ≠ status.isAvailableForRun) :
    (∀ id, v.Listed accepts id ↔ v.Runnable id) ↔ v.Quiet misjudged := by
  constructor
  · intro h id hawaited record hrecord
    constructor
    · intro hself
      by_contra havailable
      have hlisted := (h id).mpr ⟨hawaited, record, hrecord, by simpa using havailable⟩
      exact hlisted.2.1 ⟨id, hself⟩
    · intro hself hmisjudged
      have hfree : ¬ ∃ other, v.waits id other := by
        rintro ⟨other, hother⟩
        exact hself (hawaited.2 other hother ▸ hother)
      have hdiffer := (haccepts _).mp hmisjudged
      cases haccept : accepts record.status with
      | true =>
          obtain ⟨record', hrecord', havailable⟩ :=
            ((h id).mp ⟨hawaited.1, hfree, record, hrecord, haccept⟩).2
          cases Option.mem_unique hrecord hrecord'
          rw [haccept, havailable] at hdiffer
          exact hdiffer rfl
      | false =>
          have havailable : record.status.isAvailableForRun = true := by
            rw [haccept] at hdiffer
            simpa using hdiffer.symm
          obtain ⟨record', hrecord', haccept'⟩ :=
            ((h id).mpr ⟨hawaited, record, hrecord, havailable⟩).2.2
          cases Option.mem_unique hrecord hrecord'
          rw [haccept] at haccept'
          cases haccept'
  · intro hquiet id
    have hagree : ∀ record ∈ v.record id, v.Awaited id → ¬ v.waits id id →
        accepts record.status = record.status.isAvailableForRun := by
      intro record hrecord hawaited hself
      by_contra hdiffer
      exact (hquiet id hawaited record hrecord).2 hself ((haccepts _).mpr hdiffer)
    constructor
    · rintro ⟨hwaiter, hfree, record, hrecord, haccept⟩
      have hawaited : v.Awaited id :=
        ⟨hwaiter, fun other hother => absurd ⟨other, hother⟩ hfree⟩
      have hself : ¬ v.waits id id := fun hself => hfree ⟨id, hself⟩
      exact ⟨hawaited, record, hrecord, hagree record hrecord hawaited hself ▸ haccept⟩
    · rintro ⟨hawaited, record, hrecord, havailable⟩
      have hself : ¬ v.waits id id := by
        intro hself
        have hfalse := (hquiet id hawaited record hrecord).1 hself
        rw [havailable] at hfalse
        cases hfalse
      refine ⟨hawaited.1, ?_, record, hrecord, ?_⟩
      · rintro ⟨other, hother⟩
        exact hself (hawaited.2 other hother ▸ hother)
      · rw [hagree record hrecord hawaited hself]
        exact havailable

/-- A family of answers that lists by a filter, in every order and up to every number. -/
structure Lists {ι : Type} (v : WaitView) (accepts : InvocationStatus → Bool)
    (answer : ι → Nat → List InvocationId) : Prop where
  sound : ∀ i maxNum, ∀ id ∈ answer i maxNum, v.Listed accepts id
  complete : ∀ i maxNum, (answer i maxNum).length < maxNum →
    ∀ id, v.Listed accepts id → id ∈ answer i maxNum
  roomy : ∃ i maxNum, (answer i maxNum).length < maxNum

/-- Listing by a filter answers rightly exactly when nothing is misjudged. -/
theorem lists_iff {ι : Type} {answer : ι → Nat → List InvocationId}
    (h : Lists v accepts answer)
    (haccepts : ∀ status, status ∈ misjudged ↔ accepts status ≠ status.isAvailableForRun) :
    (∀ i maxNum, v.Answers maxNum (answer i maxNum)) ↔ v.Quiet misjudged := by
  rw [← listed_iff_runnable haccepts]
  constructor
  · intro hanswers id
    obtain ⟨i, maxNum, hroom⟩ := h.roomy
    obtain ⟨hsound, hcomplete⟩ := hanswers i maxNum
    exact ⟨fun hlisted => hsound id (h.complete i maxNum hroom id hlisted),
      fun hrunnable => h.sound i maxNum id (hcomplete hroom id hrunnable)⟩
  · intro hsame i maxNum
    exact ⟨fun id hid => (hsame id).mp (h.sound i maxNum id hid),
      fun hroom id hrunnable => h.complete i maxNum hroom id ((hsame id).mpr hrunnable)⟩

/-- Cutting off a list of all that is listed. -/
theorem lists_take {ι : Type} {listed : ι → List InvocationId} (i₀ : ι)
    (hlisted : ∀ i id, id ∈ listed i ↔ v.Listed accepts id) :
    Lists v accepts fun i maxNum => (listed i).take maxNum where
  sound i maxNum id hid := (hlisted i id).mp (List.mem_of_mem_take hid)
  complete i maxNum hroom id hid := by
    have hall : (listed i).length ≤ maxNum := by
      rw [List.length_take] at hroom
      omega
    rw [List.take_of_length_le hall]
    exact (hlisted i id).mpr hid
  roomy := ⟨i₀, (listed i₀).length + 1, by simp⟩

/-- Two answers to the same question agree unless they are cut off. -/
theorem mem_iff_of_answers {maxNum : Nat} {result result' : List InvocationId}
    (h : v.Answers maxNum result) (h' : v.Answers maxNum result')
    (hroom : result.length < maxNum) (hroom' : result'.length < maxNum) (id : InvocationId) :
    id ∈ result ↔ id ∈ result' :=
  ⟨fun hid => h'.2 hroom' id (h.1 id hid), fun hid => h.2 hroom id (h'.1 id hid)⟩

/-- The status machine accepts any runner's claim of a runnable invocation. -/
theorem claim_ok_of_runnable {id : InvocationId} (h : v.Runnable id) (now : Timestamp)
    (runner : RunnerId) :
    ∃ current claimed, v.record id = some current ∧
      statusRecordTransition now (some current) .pending (some runner) = .ok claimed := by
  obtain ⟨-, current, hcurrent, havailable⟩ := h
  refine ⟨current, _, hcurrent, (statusRecordTransition_ok_iff _ _ _ _ _).mpr ⟨?_, ?_, rfl⟩⟩
  · exact (InvocationStatus.canTransitionTo_pending_iff _).mpr havailable
  · have hunowned : current.status.definition.requiresOwnership = false := by
      rcases (InvocationStatus.isAvailableForRun_iff _).mp havailable with h | h | h <;>
        rw [h] <;> rfl
    refine .inr ⟨fun howned => ?_, fun _ => by simp⟩
    rw [hunowned] at howned
    cases howned

end Queries

/-! ## SQLite -/

/-- The rows of `waiting_for` and of `status_records`. -/
def sqliteView (db : Sqlite.Database) : WaitView where
  waits waiter waitedOn := (waiter, waitedOn) ∈ db.waitingFor
  record id := db.statusRecords.lookup id

/-- `sr.status IN ('REGISTERED', 'PENDING', 'RUNNING')` -/
def sqliteAccepts (status : InvocationStatus) : Bool :=
  decide (status = .registered ∨ status = .pending ∨ status = .running)

/-- Where that filter is wrong. -/
def sqliteMisjudged : List InvocationStatus :=
  [.pending, .running, .retry, .rerouted]

theorem mem_sqliteMisjudged (status : InvocationStatus) :
    status ∈ sqliteMisjudged ↔ sqliteAccepts status ≠ status.isAvailableForRun := by
  revert status
  decide

theorem sqlite_lists (db : Sqlite.Database) :
    Lists (sqliteView db) sqliteAccepts db.getBlockingInvocations := by
  refine lists_take [] fun order id => ?_
  rw [mem_arrange, List.mem_filter, List.mem_dedup]
  have hcandidate : db.isBlockingCandidate id = true ↔
      (¬ ∃ other, (id, other) ∈ db.waitingFor) ∧
        ∃ record ∈ db.statusRecords.lookup id, sqliteAccepts record.status = true := by
    have hwaits : db.waitingFor.any (fun pair => pair.1 = id) = true ↔
        ∃ other, (id, other) ∈ db.waitingFor := by
      simp
    unfold Sqlite.Database.isBlockingCandidate Sqlite.Database.statusOf
    rw [Bool.and_eq_true, Bool.not_eq_true', ← Bool.not_eq_true, hwaits, and_comm]
    cases db.statusRecords.lookup id <;> simp [sqliteAccepts]
  rw [hcandidate]
  simp [WaitView.Listed, sqliteView]

/-! ## Redis -/

/-- The members of the waiter sets, and the status records. -/
def redisView (ks : Redis.Keyspace) : WaitView where
  waits waiter waitedOn := waiter ∈ ks.getWaiters waitedOn
  record id := ks.status.lookup id

def redisMisjudged : List InvocationStatus :=
  [.pending, .retry, .rerouted]

theorem mem_redisMisjudged (status : InvocationStatus) :
    status ∈ redisMisjudged ↔
      Redis.Keyspace.blockingStatus status ≠ status.isAvailableForRun := by
  revert status
  decide

/-- A scan of every set that exists. -/
theorem exists_scansWaiters (ks : Redis.Keyspace) : ∃ scanned, ks.ScansWaiters scanned := by
  refine ⟨ks.waiters.keys.filter fun id => ks.getWaiters id ≠ [], fun id => ?_⟩
  rw [List.mem_filter, decide_eq_true_eq]
  constructor
  · exact fun h => h.2
  · intro h
    refine ⟨?_, h⟩
    rw [← AList.mem_keys, ← AList.lookup_isSome]
    by_contra hnone
    have hempty : ks.getWaiters id = [] := by
      simp only [Bool.not_eq_true, Option.isSome_eq_false_iff, Option.isNone_iff_eq_none] at hnone
      rw [Redis.Keyspace.getWaiters, hnone]
      rfl
    exact h hempty

theorem redis_lists (ks : Redis.Keyspace) :
    Lists (redisView ks) Redis.Keyspace.blockingStatus
      fun (scan : { scanned // ks.ScansWaiters scanned }) maxNum =>
        ks.getBlockingInvocations scan.1 maxNum := by
  obtain ⟨scanned, hscanned⟩ := exists_scansWaiters ks
  refine lists_take ⟨scanned, hscanned⟩ fun scan id => ?_
  obtain ⟨scanned, hscanned⟩ := scan
  have hwaiting : id ∈ scanned.flatMap ks.getWaiters ↔ ∃ other, id ∈ ks.getWaiters other := by
    rw [List.mem_flatMap]
    constructor
    · rintro ⟨other, -, hmem⟩
      exact ⟨other, hmem⟩
    · rintro ⟨other, hmem⟩
      exact ⟨other, (hscanned other).mpr (List.ne_nil_of_mem hmem), hmem⟩
  have hwaiter : id ∈ scanned ↔ ∃ waiter, waiter ∈ ks.getWaiters id := by
    rw [hscanned id]
    constructor
    · exact List.exists_mem_of_ne_nil _
    · rintro ⟨waiter, hmem⟩
      exact List.ne_nil_of_mem hmem
  rw [List.mem_filter, hwaiter, Bool.and_eq_true, decide_eq_true_eq, hwaiting]
  have hstatus : (ks.status.lookup id).any (fun record =>
      Redis.Keyspace.blockingStatus record.status) = true ↔
        ∃ record ∈ ks.status.lookup id, Redis.Keyspace.blockingStatus record.status = true := by
    cases ks.status.lookup id <;> simp
  rw [hstatus]
  rfl

/-! ## In memory

The in-memory orchestrator keeps two maps: the waiters of an invocation, and the one
invocation that a waiter waits on.  The query reads both. -/

open Mem

/-- `get_waiters` -/
def memWaiters (s : OrchestratorState) (id : InvocationId) : List InvocationId :=
  (s.waiters.lookup id).getD []

/-- The waiters as `get_waiters` reports them, and the status records. -/
def memView (s : OrchestratorState) : WaitView where
  waits waiter waitedOn := waiter ∈ memWaiters s waitedOn
  record id := s.statusRecords.lookup id

/-- The two maps agree on who waits at all. -/
def MapsAgree (s : OrchestratorState) : Prop :=
  ∀ id, (s.waitingFor.lookup id).isSome = true ↔ ∃ other, id ∈ memWaiters s other

/-- `remove_invocation` -/
def removeInvocation (s : OrchestratorState) (id : InvocationId) : OrchestratorState :=
  let s := { s with
    statusRecords := s.statusRecords.erase id
    retries := s.retries.erase id
    taskInvocations := s.taskInvocations.keys.foldl
      (fun tasks key => tasks.insert key (((tasks.lookup key).getD ∅).erase id))
      s.taskInvocations }
  let s := s.removeFromConcurrencyIndex id
  { s with
    waitingFor := s.waitingFor.erase id
    waiters := s.waiters.erase id }

/-- `purge`; the runners are still alive and keep their heartbeats. -/
def purgeAll (s : OrchestratorState) : OrchestratorState :=
  { heartbeats := s.heartbeats }

/-- What changes the state of the in-memory orchestrator: the calls of the runtime, and the
removal of invocations. -/
inductive MemCall where
  | port (env : Env) (c : PortCall)
  | removeInvocation (id : InvocationId)
  /-- First step of `run_auto_purge`; the second one removes each of them. -/
  | unschedule (ids : List InvocationId)
  | purge

def MemCall.apply (s : MemRuntime) : MemCall → MemRuntime
  | port env c => (s.exec env c).2
  | removeInvocation id =>
      { s with orchestrator := Backends.removeInvocation s.orchestrator id }
  | unschedule ids =>
      { s with
        orchestrator := { s.orchestrator with
          autoPurgeQueue := ids.foldl (fun queue id => queue.erase id)
            s.orchestrator.autoPurgeQueue } }
  | purge => { s with orchestrator := purgeAll s.orchestrator }

/-- A release is of an invocation whose waiters wait on nothing else; a removed invocation
waits on nothing else, and its waiters wait on something else. -/
def Separate (s : OrchestratorState) : MemCall → Prop
  | .port _ (.releaseWaiters completed) =>
      ∀ waiter ∈ memWaiters s completed, ∀ other, waiter ∈ memWaiters s other → other = completed
  | .removeInvocation id =>
      (∀ other, id ∈ memWaiters s other → other = id) ∧
        ∀ waiter ∈ memWaiters s id, waiter ≠ id → ∃ other, other ≠ id ∧ waiter ∈ memWaiters s other
  | _ => True

/-- The states of every sequence of such calls. -/
inductive MemReached : MemRuntime → Prop where
  | start : MemReached {}
  | next {s : MemRuntime} (c : MemCall) :
      MemReached s → Separate s.orchestrator c → MemReached (c.apply s)

section Mem

variable {s s' : OrchestratorState}

theorem MapsAgree.congr (h : MapsAgree s) (hwaitingFor : s'.waitingFor = s.waitingFor)
    (hwaiters : s'.waiters = s.waiters) : MapsAgree s' := by
  intro id
  unfold memWaiters
  rw [hwaitingFor, hwaiters]
  exact h id

theorem memWaiters_setWaitingFor (waiter waitedOn x : InvocationId) :
    memWaiters (s.setWaitingFor waiter waitedOn) x =
      if x = waitedOn then (memWaiters s waitedOn).insert waiter else memWaiters s x := by
  unfold memWaiters OrchestratorState.setWaitingFor
  split
  · rename_i hx
    rw [hx, AList.lookup_insert]
    rfl
  · rename_i hx
    rw [AList.lookup_insert_ne hx]

theorem memWaiters_of_erase (id x : InvocationId) (h : s'.waiters = s.waiters.erase id) :
    memWaiters s' x = if x = id then [] else memWaiters s x := by
  unfold memWaiters
  rw [h]
  split
  · rename_i hx
    rw [hx, AList.lookup_erase]
    rfl
  · rename_i hx
    rw [AList.lookup_erase_ne hx]

/-- A new wait is entered on both sides. -/
theorem MapsAgree.setWaitingFor (h : MapsAgree s) (waiter waitedOn : InvocationId) :
    MapsAgree (s.setWaitingFor waiter waitedOn) := by
  intro id
  by_cases hid : id = waiter
  · subst hid
    have hlookup : ((s.setWaitingFor id waitedOn).waitingFor.lookup id).isSome = true := by
      simp [OrchestratorState.setWaitingFor]
    refine ⟨fun _ => ⟨waitedOn, ?_⟩, fun _ => hlookup⟩
    rw [memWaiters_setWaitingFor, if_pos rfl]
    exact List.mem_insert_self
  · have hlookup : (s.setWaitingFor waiter waitedOn).waitingFor.lookup id =
        s.waitingFor.lookup id := AList.lookup_insert_ne hid
    have hmem : ∀ other, id ∈ memWaiters (s.setWaitingFor waiter waitedOn) other ↔
        id ∈ memWaiters s other := by
      intro other
      rw [memWaiters_setWaitingFor]
      split
      · rename_i hother
        rw [hother, List.mem_insert_iff, or_iff_right hid]
      · rfl
    simp only [hlookup, hmem]
    exact h id

theorem lookup_foldl_erase (ids : List InvocationId) (table : HashMap InvocationId InvocationId)
    (x : InvocationId) :
    (ids.foldl (fun table id => table.erase id) table).lookup x =
      if x ∈ ids then none else table.lookup x := by
  induction ids generalizing table with
  | nil => simp
  | cons id rest ih =>
      rw [List.foldl_cons, ih]
      by_cases hrest : x ∈ rest
      · simp [hrest]
      · by_cases hx : x = id
        · subst hx
          simp
        · simp [hrest, hx, AList.lookup_erase_ne hx]

/-- A release forgets what its waiters wait on, all of it. -/
theorem MapsAgree.releaseWaiters (h : MapsAgree s) (completed : InvocationId)
    (hseparate : ∀ waiter ∈ memWaiters s completed, ∀ other, waiter ∈ memWaiters s other →
      other = completed) : MapsAgree (s.releaseWaiters completed).2 := by
  intro id
  have hwaiters : ∀ other, memWaiters (s.releaseWaiters completed).2 other =
      if other = completed then [] else memWaiters s other :=
    fun other => memWaiters_of_erase completed other rfl
  have hlookup : (s.releaseWaiters completed).2.waitingFor.lookup id =
      if id ∈ memWaiters s completed then none else s.waitingFor.lookup id :=
    lookup_foldl_erase _ _ _
  rw [hlookup]
  by_cases hreleased : id ∈ memWaiters s completed
  · rw [if_pos hreleased]
    refine ⟨fun hsome => Bool.noConfusion hsome, ?_⟩
    rintro ⟨other, hother⟩
    rw [hwaiters] at hother
    split at hother
    · cases hother
    · rename_i hne
      exact absurd (hseparate id hreleased other hother) hne
  · rw [if_neg hreleased, h id]
    constructor
    · rintro ⟨other, hother⟩
      have hne : other ≠ completed := fun heq => hreleased (heq ▸ hother)
      exact ⟨other, by rw [hwaiters, if_neg hne]; exact hother⟩
    · rintro ⟨other, hother⟩
      rw [hwaiters] at hother
      split at hother
      · cases hother
      · exact ⟨other, hother⟩

theorem removeInvocation_maps (s : OrchestratorState) (id : InvocationId) :
    (removeInvocation s id).waiters = s.waiters.erase id ∧
      (removeInvocation s id).waitingFor = s.waitingFor.erase id := by
  obtain ⟨ccIndex, ccReverse, hindex⟩ := OrchestratorState.removeFromConcurrencyIndex_eq
    { s with
      statusRecords := s.statusRecords.erase id
      retries := s.retries.erase id
      taskInvocations := s.taskInvocations.keys.foldl
        (fun tasks key => tasks.insert key (((tasks.lookup key).getD ∅).erase id))
        s.taskInvocations } id
  simp only [removeInvocation, hindex, and_self]

/-- A removal forgets the waiters of the invocation and what it waits on, on one side each. -/
theorem MapsAgree.removeInvocation (h : MapsAgree s) (id : InvocationId)
    (hseparate : Separate s (.removeInvocation id)) : MapsAgree (removeInvocation s id) := by
  obtain ⟨hwaits, hwaiters⟩ := hseparate
  obtain ⟨hmap, hwaiting⟩ := removeInvocation_maps s id
  intro x
  have hmem : ∀ other, x ∈ memWaiters (Backends.removeInvocation s id) other ↔
      other ≠ id ∧ x ∈ memWaiters s other := by
    intro other
    rw [memWaiters_of_erase id other hmap]
    split
    · rename_i heq
      simp [heq]
    · rename_i hne
      simp [hne]
  simp only [hwaiting, hmem]
  by_cases hx : x = id
  · subst hx
    rw [AList.lookup_erase]
    refine ⟨fun hsome => Bool.noConfusion hsome, ?_⟩
    rintro ⟨other, hne, hother⟩
    exact absurd (hwaits other hother) hne
  · rw [AList.lookup_erase_ne hx, h x]
    constructor
    · rintro ⟨other, hother⟩
      by_cases heq : other = id
      · exact hwaiters x (heq ▸ hother) hx
      · exact ⟨other, heq, hother⟩
    · rintro ⟨other, -, hother⟩
      exact ⟨other, hother⟩

/-- Every other call leaves both maps alone. -/
theorem exec_maps (env : Env) (c : PortCall) (s : MemRuntime)
    (hset : ∀ waiter waitedOn, c ≠ .setWaitingFor waiter waitedOn)
    (hrelease : ∀ completed, c ≠ .releaseWaiters completed) :
    (s.exec env c).2.orchestrator.waitingFor = s.orchestrator.waitingFor ∧
      (s.exec env c).2.orchestrator.waiters = s.orchestrator.waiters := by
  cases c <;> first | exact ⟨rfl, rfl⟩ | skip
  case setInvocationStatus id status runnerId =>
      simp only [MemRuntime.exec]
      rcases s.orchestrator.setInvocationStatus_cases env.clock id status runnerId with
        ⟨_, _, _, _, -, -, h⟩ | ⟨_, _, -, -, h⟩ | ⟨-, h⟩ <;> rw [h] <;> exact ⟨rfl, rfl⟩
  case setWaitingFor waiter waitedOn => exact absurd rfl (hset waiter waitedOn)
  case releaseWaiters completed => exact absurd rfl (hrelease completed)
  case tryAcquireConcurrencySlot id taskId config ccArgs =>
      obtain ⟨ccIndex, ccReverse, h⟩ :=
        s.orchestrator.tryAcquireConcurrencySlot_eq id taskId config ccArgs
      simp only [MemRuntime.exec, h, and_self]
  case removeFromConcurrencyIndex id =>
      obtain ⟨ccIndex, ccReverse, h⟩ := s.orchestrator.removeFromConcurrencyIndex_eq id
      simp only [MemRuntime.exec, h, and_self]

theorem MemReached.mapsAgree {s : MemRuntime} (h : MemReached s) : MapsAgree s.orchestrator := by
  induction h with
  | start =>
      intro id
      constructor
      · intro hsome
        cases hsome
      · rintro ⟨other, hmem⟩
        cases hmem
  | @next s c _ hseparate ih =>
      cases c with
      | port env c =>
          by_cases hset : ∃ waiter waitedOn, c = .setWaitingFor waiter waitedOn
          · obtain ⟨waiter, waitedOn, rfl⟩ := hset
            exact ih.setWaitingFor waiter waitedOn
          · by_cases hrelease : ∃ completed, c = .releaseWaiters completed
            · obtain ⟨completed, rfl⟩ := hrelease
              exact ih.releaseWaiters completed hseparate
            · obtain ⟨hwaitingFor, hwaiters⟩ := exec_maps env c s
                (fun waiter waitedOn heq => hset ⟨waiter, waitedOn, heq⟩)
                (fun completed heq => hrelease ⟨completed, heq⟩)
              exact ih.congr hwaitingFor hwaiters
      | removeInvocation id => exact ih.removeInvocation id hseparate
      | unschedule ids => exact ih.congr rfl rfl
      | purge =>
          intro id
          constructor
          · intro hsome
            cases hsome
          · rintro ⟨other, hmem⟩
            cases hmem

/-- The loop takes at least one candidate and then stops at `maxNum`. -/
theorem collectUpTo_eq (candidate : InvocationId → Bool) (maxNum : Nat)
    (result keys : List InvocationId) :
    OrchestratorState.collectUpTo candidate maxNum result keys =
      result ++ (keys.filter candidate).take (max 1 (maxNum - result.length)) := by
  induction keys generalizing result with
  | nil => simp [OrchestratorState.collectUpTo]
  | cons key rest ih =>
      unfold OrchestratorState.collectUpTo
      by_cases hkey : candidate key = true
      · rw [if_pos hkey, List.filter_cons_of_pos hkey]
        split
        · have hone : max 1 (maxNum - result.length) = 1 := by omega
          rw [hone, List.take_succ_cons, List.take_zero]
        · have hmore : max 1 (maxNum - result.length) =
              max 1 (maxNum - (result ++ [key]).length) + 1 := by
            rw [List.length_append, List.length_singleton]
            omega
          rw [ih, hmore, List.take_succ_cons, List.append_assoc, List.singleton_append]
      · rw [if_neg hkey, List.filter_cons_of_neg hkey]
        exact ih result

theorem mem_lists (h : MapsAgree s) :
    Lists (memView s) InvocationStatus.isAvailableForRun s.getBlockingInvocations := by
  have hanswer : ∀ order maxNum, s.getBlockingInvocations order maxNum =
      ((arrange order s.waiters.keys).filter s.isBlockingCandidate).take (max 1 maxNum) := by
    intro order maxNum
    exact collectUpTo_eq _ _ _ _
  have hlisted : ∀ order id, id ∈ (arrange order s.waiters.keys).filter s.isBlockingCandidate ↔
      (memView s).Listed InvocationStatus.isAvailableForRun id := by
    intro order id
    have hcandidate : s.isBlockingCandidate id = true ↔
        (∃ waiter, waiter ∈ memWaiters s id) ∧ (¬ ∃ other, id ∈ memWaiters s other) ∧
          ∃ record ∈ s.statusRecords.lookup id, record.status.isAvailableForRun = true := by
      have hwaiter : (!((s.waiters.lookup id).getD []).isEmpty) = true ↔
          ∃ waiter, waiter ∈ memWaiters s id := by
        unfold memWaiters
        cases (s.waiters.lookup id).getD [] <;> simp
      have hfree : (s.waitingFor.lookup id).isNone = true ↔ ¬ ∃ other, id ∈ memWaiters s other := by
        rw [← h id]
        cases s.waitingFor.lookup id <;> simp
      have hstatus : (s.statusOf id).any InvocationStatus.isAvailableForRun = true ↔
          ∃ record ∈ s.statusRecords.lookup id, record.status.isAvailableForRun = true := by
        unfold OrchestratorState.statusOf
        cases s.statusRecords.lookup id <;> simp
      rw [OrchestratorState.isBlockingCandidate, Bool.and_eq_true, Bool.and_eq_true, hwaiter, hfree,
        hstatus, and_assoc]
    rw [List.mem_filter, mem_arrange, hcandidate]
    refine ⟨fun hid => hid.2, fun hid => ⟨?_, hid⟩⟩
    obtain ⟨waiter, hmem⟩ := hid.1
    rw [← AList.mem_keys, ← AList.lookup_isSome]
    by_contra hnone
    have hempty : memWaiters s id = [] := by
      simp only [Bool.not_eq_true, Option.isSome_eq_false_iff, Option.isNone_iff_eq_none] at hnone
      rw [memWaiters, hnone]
      rfl
    have habsurd : waiter ∈ ([] : List InvocationId) := hempty ▸ hmem
    cases habsurd
  refine ⟨fun order maxNum id hid => ?_, fun order maxNum hroom id hid => ?_, ?_⟩
  · rw [hanswer] at hid
    exact (hlisted order id).mp (List.mem_of_mem_take hid)
  · rw [hanswer] at hroom ⊢
    have hall : ((arrange order s.waiters.keys).filter s.isBlockingCandidate).length ≤
        max 1 maxNum := by
      rw [List.length_take] at hroom
      omega
    rw [List.take_of_length_le hall]
    exact (hlisted order id).mpr hid
  · refine ⟨[], ((arrange [] s.waiters.keys).filter s.isBlockingCandidate).length + 2, ?_⟩
    rw [hanswer, List.length_take]
    omega

end Mem

/-! ## The three backends -/

/-- **Waiter priority.**  On each backend the query answers rightly exactly when no awaited
invocation has a status that its filter misjudges: on SQLite `pending`, `running`, `retry`
and `rerouted`, on Redis `pending`, `retry` and `rerouted`, in memory none.  Right answers
about the same relation agree unless they are cut off, and what they contain can be
claimed. -/
theorem blocking_answers {s : MemRuntime} (hs : MemReached s) (db : Sqlite.Database)
    (ks : Redis.Keyspace) (v : WaitView) :
    ((∀ order maxNum, (memView s.orchestrator).Answers maxNum
        (s.orchestrator.getBlockingInvocations order maxNum)) ↔
      (memView s.orchestrator).Quiet []) ∧
    ((∀ order maxNum, (sqliteView db).Answers maxNum (db.getBlockingInvocations order maxNum)) ↔
      (sqliteView db).Quiet sqliteMisjudged) ∧
    ((∀ scanned, ks.ScansWaiters scanned → ∀ maxNum,
        (redisView ks).Answers maxNum (ks.getBlockingInvocations scanned maxNum)) ↔
      (redisView ks).Quiet redisMisjudged) ∧
    (∀ maxNum result result', v.Answers maxNum result → v.Answers maxNum result' →
      result.length < maxNum → result'.length < maxNum → ∀ id, id ∈ result ↔ id ∈ result') ∧
    ∀ maxNum result, v.Answers maxNum result → ∀ id ∈ result, ∀ now runner,
      ∃ current claimed, v.record id = some current ∧
        statusRecordTransition now (some current) .pending (some runner) = .ok claimed := by
  refine ⟨?_, ?_, ?_, ?_, ?_⟩
  · exact lists_iff (mem_lists hs.mapsAgree) (by simp)
  · exact lists_iff (sqlite_lists db) mem_sqliteMisjudged
  · rw [← lists_iff (redis_lists ks) mem_redisMisjudged]
    exact ⟨fun h scan => h scan.1 scan.2, fun h scanned hscanned => h ⟨scanned, hscanned⟩⟩
  · exact fun maxNum result result' h h' hroom hroom' => mem_iff_of_answers h h' hroom hroom'
  · exact fun maxNum result h id hid now runner => claim_ok_of_runnable (h.1 id hid) now runner

/-- One invocation waits for another one, which is registered. -/
def memWaiting : MemRuntime :=
  MemCall.apply (MemCall.apply {} (.port {} (.registerInvocationWithId ⟨"a"⟩
    ⟨⟨⟨.rust, "tasks", "child"⟩, ""⟩, ⟨.rust, "tasks", "child"⟩, .empty⟩ none)))
    (.port {} (.setWaitingFor ⟨"b"⟩ ⟨"a"⟩))

theorem blocking_answers_memWaiting :
    MemReached memWaiting ∧
      memWaiting.orchestrator.getBlockingInvocations [] 5 = [⟨"a"⟩] ∧
      ((∀ order maxNum, (memView memWaiting.orchestrator).Answers maxNum
          (memWaiting.orchestrator.getBlockingInvocations order maxNum)) ↔
        (memView memWaiting.orchestrator).Quiet []) := by
  have hreached : MemReached memWaiting := .next _ (.next _ .start trivial) trivial
  exact ⟨hreached, by decide +kernel,
    (blocking_answers hreached {} {} (memView memWaiting.orchestrator)).1⟩

/-- The child runs on a worker of its own while somebody waits for it. -/
def sqliteRunning : Sqlite.Database :=
  let child : TaskId := ⟨.rust, "tasks", "child"⟩
  let db := (({} : Sqlite.Database).registerInvocationWithId 0 ⟨"a"⟩
    ⟨⟨child, ""⟩, child, .empty⟩ none).2
  let db := (db.setInvocationStatus 0 ⟨"a"⟩ .pending (some ⟨"w"⟩)).2
  let db := (db.setInvocationStatus 0 ⟨"a"⟩ .running (some ⟨"w"⟩)).2
  db.setWaitingFor ⟨"b"⟩ ⟨"a"⟩

/-- **A running child is handed out again**: SQLite finds it, although it cannot be
claimed. -/
theorem runningChild_found :
    ¬ ∀ order maxNum, (sqliteView sqliteRunning).Answers maxNum
      (sqliteRunning.getBlockingInvocations order maxNum) := by
  intro h
  have hfound : ⟨"a"⟩ ∈ sqliteRunning.getBlockingInvocations [] 1 := by decide +kernel
  obtain ⟨-, record, hrecord, havailable⟩ := (h [] 1).1 _ hfound
  have hrunning : (sqliteRunning.statusRecords.lookup ⟨"a"⟩).any
      (fun record => record.status.isAvailableForRun) = false := by decide +kernel
  have hlookup : sqliteRunning.statusRecords.lookup ⟨"a"⟩ = some record := hrecord
  rw [hlookup, Option.any_some, havailable] at hrunning
  cases hrunning

end Rustvello.Backends
