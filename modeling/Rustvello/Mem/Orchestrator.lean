import Rustvello.Core.Environment
import Mathlib.Data.List.AList
import Mathlib.Data.Finset.Lattice.Basic
import Mathlib.Data.Finset.Card

/-!
# The in-memory orchestrator

`MemOrchestrator` (`rustvello-mem/src/orchestrator`): status records, waiting
relations and the concurrency index behind one mutex, so every method is one
atomic step on `OrchestratorState`.

* `setInvocationStatus` — a status write through the status machine;
* `tryAcquireConcurrencySlot`, `removeFromConcurrencyIndex` — slots, kept per
  argument pair with a reverse map;
* `setWaitingFor`, `releaseWaiters`, `getBlockingInvocations` — waiter priority.

Each method has one lemma that says what it can do to the state; later modules
use these and do not unfold the methods.
-/

namespace Rustvello.Mem

open Proto Rustvello.Core

/-- A hash map by its entries.  Where iteration order is observable, it is an
argument of the method. -/
abbrev HashMap (K V : Type) := AList fun _ : K => V

/-- Key of the concurrency index: task, argument name, argument value. -/
abbrev CcKey := TaskId × String × String

structure OrchestratorState where
  statusRecords : HashMap InvocationId InvocationStatusRecord := ∅
  /-- task → its registered invocations -/
  taskInvocations : HashMap TaskId (Finset InvocationId) := ∅
  /-- waiter → the invocation it waits on -/
  waitingFor : HashMap InvocationId InvocationId := ∅
  /-- waited-on invocation → its waiters -/
  waiters : HashMap InvocationId (List InvocationId) := ∅
  ccIndex : HashMap CcKey (Finset InvocationId) := ∅
  ccReverse : HashMap InvocationId (List CcKey) := ∅
  retries : HashMap InvocationId Nat := ∅
  /-- runner → its last heartbeat -/
  heartbeats : HashMap RunnerId Timestamp := ∅
  autoPurgeQueue : HashMap InvocationId Timestamp := ∅

namespace OrchestratorState

/-- The stored status of an invocation. -/
def statusOf (s : OrchestratorState) (id : InvocationId) : Option InvocationStatus :=
  (s.statusRecords.lookup id).map InvocationStatusRecord.status

/-! ## Concurrency index -/

/-- The invocations indexed under a key. -/
def indexed (s : OrchestratorState) (key : CcKey) : Finset InvocationId :=
  (s.ccIndex.lookup key).getD ∅

/-- The invocations indexed under every pair; `none` when there is no pair. -/
def slotMembers (s : OrchestratorState) (taskId : TaskId) (pairs : List (String × String)) :
    Option (Finset InvocationId) :=
  pairs.foldl (fun intersection pair =>
    some (match intersection with
      | some previous => previous ∩ s.indexed (taskId, pair.1, pair.2)
      | none => s.indexed (taskId, pair.1, pair.2))) none

/-- Slots taken by other invocations. -/
def reservedByOthers (s : OrchestratorState) (id : InvocationId) (taskId : TaskId)
    (pairs : List (String × String)) : Nat :=
  match s.slotMembers taskId pairs with
  | none => 0
  | some members => (members.filter fun member => member ≠ id).card

/-- Enter an invocation under one key. -/
def indexUnder (s : OrchestratorState) (id : InvocationId) (key : CcKey) : OrchestratorState :=
  { s with ccIndex := s.ccIndex.insert key (insert id (s.indexed key)) }

def tryAcquireConcurrencySlot (s : OrchestratorState) (id : InvocationId) (taskId : TaskId)
    (config : TaskConfig) (ccArgs : Option SerializedArguments) : Bool × OrchestratorState :=
  if config.concurrencyControl = .unlimited then (true, s)
  else
    let pairs := (ccArgs.getD .empty).ccArgPairs
    if config.limit ≤ s.reservedByOthers id taskId pairs then (false, s)
    else
      let triples : List CcKey := pairs.map fun pair => (taskId, pair.1, pair.2)
      let s := triples.foldl (fun s key => s.indexUnder id key) s
      (true, { s with
        ccReverse := s.ccReverse.insert id ((s.ccReverse.lookup id).getD [] ++ triples) })

/-- The invocation occupies a slot as far as the batch path can see. -/
def isActive (s : OrchestratorState) (id : InvocationId) : Bool :=
  (s.statusOf id).any fun status => decide (status = .pending ∨ status = .running)

/-- Count what is pending or running under a key; without a key, of the whole task. -/
def checkRunningConcurrency (s : OrchestratorState) (taskId : TaskId) (config : TaskConfig)
    (ccArgs : Option SerializedArguments) : Bool :=
  if config.concurrencyControl = .unlimited then true
  else
    let candidates := match ccArgs with
      | some args => (s.slotMembers taskId args.ccArgPairs).getD ∅
      | none => (s.taskInvocations.lookup taskId).getD ∅
    decide ((candidates.filter fun id => s.isActive id = true).card < config.limit)

/-- Enter an invocation under the pairs of its key; without a key, under none. -/
def indexForConcurrencyControl (s : OrchestratorState) (id : InvocationId) (taskId : TaskId)
    (ccArgs : Option SerializedArguments) : OrchestratorState :=
  let pairs := (ccArgs.map SerializedArguments.ccArgPairs).getD []
  let triples : List CcKey := pairs.map fun pair => (taskId, pair.1, pair.2)
  let s := triples.foldl (fun s key => s.indexUnder id key) s
  if triples.isEmpty then s
  else { s with ccReverse := s.ccReverse.insert id ((s.ccReverse.lookup id).getD [] ++ triples) }

/-- Take an invocation out from under one key; an empty set leaves the index. -/
def unindexUnder (s : OrchestratorState) (id : InvocationId) (key : CcKey) : OrchestratorState :=
  match s.ccIndex.lookup key with
  | none => s
  | some members =>
      if members.erase id = ∅ then { s with ccIndex := s.ccIndex.erase key }
      else { s with ccIndex := s.ccIndex.insert key (members.erase id) }

def removeFromConcurrencyIndex (s : OrchestratorState) (id : InvocationId) : OrchestratorState :=
  match s.ccReverse.lookup id with
  | none => s
  | some triples =>
      triples.foldl (fun s key => s.unindexUnder id key)
        { s with ccReverse := s.ccReverse.erase id }

/-! ## Status -/

/-- Registration overwrites whatever record was there. -/
def registerInvocationWithId (s : OrchestratorState) (now : Timestamp) (id : InvocationId)
    (call : CallDTO) (runnerId : Option RunnerId) : InvocationStatusRecord × OrchestratorState :=
  let record : InvocationStatusRecord := ⟨.registered, runnerId, now⟩
  (record, { s with
    statusRecords := s.statusRecords.insert id record
    taskInvocations := s.taskInvocations.insert call.taskId
      (insert id ((s.taskInvocations.lookup call.taskId).getD ∅)) })

def getInvocationStatus (s : OrchestratorState) (id : InvocationId) :
    RustvelloResult InvocationStatusRecord :=
  match s.statusRecords.lookup id with
  | some record => .ok record
  | none => .error (.invocationNotFound id)

/-- A status write; a terminal status also leaves the concurrency index. -/
def setInvocationStatus (s : OrchestratorState) (now : Timestamp) (id : InvocationId)
    (status : InvocationStatus) (runnerId : Option RunnerId) :
    RustvelloResult InvocationStatusRecord × OrchestratorState :=
  match s.statusRecords.lookup id with
  | none => (.error (.invocationNotFound id), s)
  | some current =>
      match statusRecordTransition now (some current) status runnerId with
      | .error e => (.error (statusMachineErrorToRustvello e id current.status), s)
      | .ok record =>
          let s := { s with statusRecords := s.statusRecords.insert id record }
          (.ok record, if status.isTerminal then s.removeFromConcurrencyIndex id else s)

def incrementInvocationRetries (s : OrchestratorState) (id : InvocationId) :
    Nat × OrchestratorState :=
  let count := (s.retries.lookup id).getD 0 + 1
  (count, { s with retries := s.retries.insert id count })

def scheduleAutoPurge (s : OrchestratorState) (now : Timestamp) (id : InvocationId) :
    OrchestratorState :=
  { s with autoPurgeQueue := s.autoPurgeQueue.insert id now }

/-! ## Waiting -/

def setWaitingFor (s : OrchestratorState) (waiter waitedOn : InvocationId) : OrchestratorState :=
  { s with
    waitingFor := s.waitingFor.insert waiter waitedOn
    waiters := s.waiters.insert waitedOn (((s.waiters.lookup waitedOn).getD []).insert waiter) }

def releaseWaiters (s : OrchestratorState) (completed : InvocationId) :
    List InvocationId × OrchestratorState :=
  let released := (s.waiters.lookup completed).getD []
  (released, { s with
    waiters := s.waiters.erase completed
    waitingFor := released.foldl (fun waitingFor id => waitingFor.erase id) s.waitingFor })

/-- A waited-on invocation that can run: it has a waiter, waits on nothing itself,
and its status is available. -/
def isBlockingCandidate (s : OrchestratorState) (id : InvocationId) : Bool :=
  !((s.waiters.lookup id).getD []).isEmpty && (s.waitingFor.lookup id).isNone &&
    (s.statusOf id).any InvocationStatus.isAvailableForRun

/-- Collect the candidates in iteration order until there are `maxNum` of them; the
length is tested after a push. -/
def collectUpTo (candidate : InvocationId → Bool) (maxNum : Nat) :
    List InvocationId → List InvocationId → List InvocationId
  | result, [] => result
  | result, id :: rest =>
      if candidate id then
        if maxNum ≤ result.length + 1 then result ++ [id]
        else collectUpTo candidate maxNum (result ++ [id]) rest
      else collectUpTo candidate maxNum result rest

/-- `order` is the preferred iteration order of the hash map. -/
def getBlockingInvocations (s : OrchestratorState) (order : List InvocationId) (maxNum : Nat) :
    List InvocationId :=
  collectUpTo s.isBlockingCandidate maxNum [] (arrange order s.waiters.keys)

/-! ## What the methods do -/

section Lemmas

variable (s : OrchestratorState) (id : InvocationId) (taskId : TaskId)

/-- Writing one record changes one status. -/
theorem statusOf_of_insert {s' : OrchestratorState} (record : InvocationStatusRecord)
    (h : s'.statusRecords = s.statusRecords.insert id record) (x : InvocationId) :
    s'.statusOf x = if x = id then some record.status else s.statusOf x := by
  unfold statusOf
  rw [h]
  split
  · rename_i hx
    subst hx
    rw [AList.lookup_insert]
    rfl
  · rename_i hx
    rw [AList.lookup_insert_ne hx]

theorem foldl_unindexUnder_eq (triples : List CcKey) : ∃ ccIndex,
    triples.foldl (fun s key => s.unindexUnder id key) s = { s with ccIndex := ccIndex } := by
  induction triples generalizing s with
  | nil => exact ⟨s.ccIndex, rfl⟩
  | cons key rest ih =>
      obtain ⟨ccIndex, hrest⟩ := ih (s.unindexUnder id key)
      refine ⟨ccIndex, ?_⟩
      rw [List.foldl_cons, hrest]
      unfold unindexUnder
      split
      · rfl
      · split <;> rfl

theorem removeFromConcurrencyIndex_eq :
    ∃ ccIndex ccReverse, s.removeFromConcurrencyIndex id =
      { s with ccIndex := ccIndex, ccReverse := ccReverse } := by
  unfold removeFromConcurrencyIndex
  split
  · exact ⟨s.ccIndex, s.ccReverse, rfl⟩
  · rename_i triples _
    obtain ⟨ccIndex, h⟩ :=
      foldl_unindexUnder_eq { s with ccReverse := s.ccReverse.erase id } id triples
    exact ⟨ccIndex, s.ccReverse.erase id, h⟩

/-- Leaving the index drops the entry of the reverse map. -/
theorem lookup_ccReverse_remove (id x : InvocationId) :
    (s.removeFromConcurrencyIndex id).ccReverse.lookup x =
      if x = id then none else s.ccReverse.lookup x := by
  unfold removeFromConcurrencyIndex
  split
  · rename_i hnone
    split
    · rename_i hx
      rw [hx, hnone]
    · rfl
  · rename_i triples _
    obtain ⟨ccIndex, h⟩ :=
      foldl_unindexUnder_eq { s with ccReverse := s.ccReverse.erase id } id triples
    rw [h]
    split
    · rename_i hx
      rw [hx]
      exact AList.lookup_erase id s.ccReverse
    · rename_i hx
      exact AList.lookup_erase_ne hx

theorem foldl_indexUnder_eq (triples : List CcKey) : ∃ ccIndex,
    triples.foldl (fun s key => s.indexUnder id key) s = { s with ccIndex := ccIndex } := by
  induction triples generalizing s with
  | nil => exact ⟨s.ccIndex, rfl⟩
  | cons key rest ih =>
      obtain ⟨ccIndex, hrest⟩ := ih (s.indexUnder id key)
      exact ⟨ccIndex, by rw [List.foldl_cons, hrest]; rfl⟩

theorem tryAcquireConcurrencySlot_eq (config : TaskConfig) (ccArgs : Option SerializedArguments) :
    ∃ ccIndex ccReverse, (s.tryAcquireConcurrencySlot id taskId config ccArgs).2 =
      { s with ccIndex := ccIndex, ccReverse := ccReverse } := by
  unfold tryAcquireConcurrencySlot
  dsimp only
  split
  · exact ⟨s.ccIndex, s.ccReverse, rfl⟩
  · split
    · exact ⟨s.ccIndex, s.ccReverse, rfl⟩
    · obtain ⟨ccIndex, h⟩ := s.foldl_indexUnder_eq id
        (((ccArgs.getD .empty).ccArgPairs).map fun pair => (taskId, pair.1, pair.2))
      rw [h]
      exact ⟨ccIndex, _, rfl⟩

theorem indexForConcurrencyControl_eq (ccArgs : Option SerializedArguments) :
    ∃ ccIndex ccReverse, s.indexForConcurrencyControl id taskId ccArgs =
      { s with ccIndex := ccIndex, ccReverse := ccReverse } := by
  unfold indexForConcurrencyControl
  dsimp only
  obtain ⟨ccIndex, h⟩ := s.foldl_indexUnder_eq id
    (((ccArgs.map SerializedArguments.ccArgPairs).getD []).map fun pair =>
      (taskId, pair.1, pair.2))
  rw [h]
  split
  · exact ⟨ccIndex, s.ccReverse, rfl⟩
  · exact ⟨ccIndex, _, rfl⟩

@[simp] theorem removeFromConcurrencyIndex_statusRecords (id : InvocationId) :
    (s.removeFromConcurrencyIndex id).statusRecords = s.statusRecords := by
  obtain ⟨ccIndex, ccReverse, h⟩ := s.removeFromConcurrencyIndex_eq id
  rw [h]

@[simp] theorem tryAcquireConcurrencySlot_statusRecords (id : InvocationId) (taskId : TaskId)
    (config : TaskConfig) (ccArgs : Option SerializedArguments) :
    (s.tryAcquireConcurrencySlot id taskId config ccArgs).2.statusRecords = s.statusRecords := by
  obtain ⟨ccIndex, ccReverse, h⟩ := s.tryAcquireConcurrencySlot_eq id taskId config ccArgs
  rw [h]

/-- **What a status write can do.**  Accepted: the record is the machine's, and the
concurrency index may shrink.  Refused or unknown: nothing. -/
theorem setInvocationStatus_cases (now : Timestamp) (id : InvocationId)
    (status : InvocationStatus) (runnerId : Option RunnerId) :
    (∃ current record ccIndex ccReverse, s.statusRecords.lookup id = some current ∧
      statusRecordTransition now (some current) status runnerId = .ok record ∧
      s.setInvocationStatus now id status runnerId =
        (.ok record, { s with
          statusRecords := s.statusRecords.insert id record
          ccIndex := ccIndex
          ccReverse := ccReverse })) ∨
    (∃ current e, s.statusRecords.lookup id = some current ∧
      statusRecordTransition now (some current) status runnerId = .error e ∧
      s.setInvocationStatus now id status runnerId =
        (.error (statusMachineErrorToRustvello e id current.status), s)) ∨
    (s.statusRecords.lookup id = none ∧
      s.setInvocationStatus now id status runnerId = (.error (.invocationNotFound id), s)) := by
  unfold setInvocationStatus
  cases hlookup : s.statusRecords.lookup id with
  | none => exact .inr (.inr ⟨rfl, rfl⟩)
  | some current =>
      cases htrans : statusRecordTransition now (some current) status runnerId with
      | error e => exact .inr (.inl ⟨current, e, rfl, htrans, by simp [htrans]⟩)
      | ok record =>
          left
          obtain ⟨ccIndex, ccReverse, h⟩ := removeFromConcurrencyIndex_eq
            { s with statusRecords := s.statusRecords.insert id record } id
          by_cases hterm : status.isTerminal = true
          · exact ⟨current, record, ccIndex, ccReverse, rfl, htrans, by simp [htrans, hterm, h]⟩
          · exact ⟨current, record, s.ccIndex, s.ccReverse, rfl, htrans, by
              simp [htrans, hterm]⟩

/-- Membership in the intersection over a nonempty list of pairs. -/
theorem mem_slotMembers {pairs : List (String × String)} (hpairs : pairs ≠ []) :
    ∃ members, s.slotMembers taskId pairs = some members ∧
      ∀ x, x ∈ members ↔ ∀ pair ∈ pairs, x ∈ s.indexed (taskId, pair.1, pair.2) := by
  have hfold : ∀ (pairs : List (String × String)) (start : Finset InvocationId),
      ∃ members, pairs.foldl (fun intersection pair =>
        some (match intersection with
          | some previous => previous ∩ s.indexed (taskId, pair.1, pair.2)
          | none => s.indexed (taskId, pair.1, pair.2))) (some start) = some members ∧
        ∀ x, x ∈ members ↔
          x ∈ start ∧ ∀ pair ∈ pairs, x ∈ s.indexed (taskId, pair.1, pair.2) := by
    intro pairs
    induction pairs with
    | nil => exact fun start => ⟨start, rfl, by simp⟩
    | cons pair rest ih =>
        intro start
        obtain ⟨members, h, hmem⟩ := ih (start ∩ s.indexed (taskId, pair.1, pair.2))
        refine ⟨members, h, fun x => ?_⟩
        rw [hmem x]
        simp [and_assoc]
  cases pairs with
  | nil => exact absurd rfl hpairs
  | cons pair rest =>
      obtain ⟨members, h, hmem⟩ := hfold rest (s.indexed (taskId, pair.1, pair.2))
      exact ⟨members, h, fun x => by rw [hmem x]; simp⟩

/-- A granted slot: fewer than the limit of the others were indexed under every pair. -/
theorem card_lt_limit_of_granted {id : InvocationId} {taskId : TaskId} {config : TaskConfig}
    {ccArgs : Option SerializedArguments} (hlimited : config.concurrencyControl ≠ .unlimited)
    (hgranted : (s.tryAcquireConcurrencySlot id taskId config ccArgs).1 = true)
    {others : Finset InvocationId} (hothers : ∀ x ∈ others, x ≠ id ∧
      ∀ pair ∈ (ccArgs.getD .empty).ccArgPairs, x ∈ s.indexed (taskId, pair.1, pair.2)) :
    others.card < config.limit := by
  obtain ⟨members, hmembers, hmem⟩ := s.mem_slotMembers taskId
    (ccArgs.getD .empty).ccArgPairs_ne_nil
  have hcount : s.reservedByOthers id taskId (ccArgs.getD .empty).ccArgPairs =
      (members.filter fun member => member ≠ id).card := by
    rw [reservedByOthers, hmembers]
  have hfree : (members.filter fun member => member ≠ id).card < config.limit := by
    unfold tryAcquireConcurrencySlot at hgranted
    rw [if_neg hlimited] at hgranted
    dsimp only at hgranted
    split at hgranted
    · cases hgranted
    · rename_i hnot
      rw [hcount] at hnot
      exact Nat.lt_of_not_le hnot
  refine Nat.lt_of_le_of_lt (Finset.card_le_card fun x hx => ?_) hfree
  obtain ⟨hne, hindexed⟩ := hothers x hx
  exact Finset.mem_filter.mpr ⟨(hmem x).mpr hindexed, hne⟩

theorem mem_collectUpTo {candidate : InvocationId → Bool} {maxNum : Nat}
    {result keys : List InvocationId} {id : InvocationId}
    (h : id ∈ collectUpTo candidate maxNum result keys) :
    id ∈ result ∨ (id ∈ keys ∧ candidate id = true) := by
  induction keys generalizing result with
  | nil => exact .inl h
  | cons key rest ih =>
      simp only [collectUpTo] at h
      have hpush : id ∈ result ++ [key] → candidate key = true →
          id ∈ result ∨ (id ∈ key :: rest ∧ candidate id = true) := by
        intro hmem hkey
        rcases List.mem_append.mp hmem with hmem | hmem
        · exact .inl hmem
        · obtain rfl := List.mem_singleton.mp hmem
          exact .inr ⟨List.mem_cons_self, hkey⟩
      split at h
      · rename_i hkey
        split at h
        · exact hpush h hkey
        · rcases ih h with hmem | ⟨hmem, hid⟩
          · exact hpush hmem hkey
          · exact .inr ⟨List.mem_cons_of_mem _ hmem, hid⟩
      · rcases ih h with hmem | ⟨hmem, hid⟩
        · exact .inl hmem
        · exact .inr ⟨List.mem_cons_of_mem _ hmem, hid⟩

/-- Only candidates are found. -/
theorem isBlockingCandidate_of_mem {s : OrchestratorState} {order : List InvocationId}
    {maxNum : Nat} {id : InvocationId} (h : id ∈ s.getBlockingInvocations order maxNum) :
    id ∈ s.waiters ∧ s.isBlockingCandidate id = true := by
  rcases mem_collectUpTo h with hmem | ⟨hmem, hcandidate⟩
  · cases hmem
  · exact ⟨AList.mem_keys.mpr ((mem_arrange _ _ _).mp hmem), hcandidate⟩

end Lemmas

end OrchestratorState

end Rustvello.Mem
