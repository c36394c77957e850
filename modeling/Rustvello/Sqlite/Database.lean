import Rustvello.Core.Publication
import Rustvello.Orchestration.Execution
import Rustvello.Mem.Runtime

/-!
# The SQLite database

The tables of `rustvello-sqlite/src/db.rs` that the broker, the orchestrator, the
state backend and the publication transactions share, and the single statements they
are written with.

* `Database` — the committed content of one database file;
* `deleteQueueRows`, `insertQueueRow` — the queue with the trigger that drops the
  lease of a deleted row;
* `updateStatus`, `appendHistory` — the two copies of a status, and its audit trail;
* `Standing` — what the tables say about one invocation, and how each statement
  changes it.

A table with a primary key is its rows by key.  Columns that hold the `Display` text
of an identifier, a status or an instant hold the value itself.
-/

namespace Rustvello.Sqlite

open Proto Rustvello.Core

/-- `UPDATE … WHERE key`: nothing happens without the row. -/
def updateRow {K V : Type} [DecidableEq K] (table : Table K V) (key : K) (f : V → V) :
    Table K V :=
  match table.lookup key with
  | none => table
  | some row => table.insert key (f row)

structure QueueRow where
  id : Nat
  invocationId : InvocationId
  taskId : Option TaskId
  queueName : String
  priority : F64
deriving DecidableEq

structure HistoryRow where
  invocationId : InvocationId
  status : InvocationStatus
  runnerId : Option RunnerId
  timestamp : Timestamp
  message : Option String
  historyTimestamp : Option Timestamp
deriving DecidableEq

/-- Key of `cc_arg_pairs`: invocation, argument name, argument value. -/
abbrev CcRow := InvocationId × String × String

structure Database where
  /-- In the order of the row ids. -/
  brokerQueue : List QueueRow := []
  /-- The last id handed out (`AUTOINCREMENT`). -/
  lastQueueId : Nat := 0
  /-- Row id → end of the lease, in milliseconds. -/
  brokerReservations : Table Nat Int := ∅
  invocations : Table InvocationId InvocationDTO := ∅
  /-- The empty identity is left by a removed invocation. -/
  submissionPublications : Table InvocationId (Option SubmissionIdentity) := ∅
  calls : Table CallId CallDTO := ∅
  results : Table InvocationId String := ∅
  errors : Table InvocationId TaskError := ∅
  /-- In the order of the row ids. -/
  history : List HistoryRow := []
  statusRecords : Table InvocationId InvocationStatusRecord := ∅
  /-- Pairs of a waiter and the invocation it waits on. -/
  waitingFor : List (InvocationId × InvocationId) := []
  /-- The task under which an invocation holds an argument pair. -/
  ccArgPairs : Table CcRow TaskId := ∅
  runnerHeartbeats : Table RunnerId Timestamp := ∅
  retries : Table InvocationId Nat := ∅
  workflowRuns : Table InvocationId WorkflowIdentity := ∅
  /-- `workflow_data` under the identity key. -/
  workflowData : Table InvocationId ExecutionAttemptIdentity := ∅
  autoPurgeSchedule : Table InvocationId Timestamp := ∅
  /-- Claims and runs of the trigger outbox; the tables hold what the in-memory maps
  hold and are read and written alike. -/
  triggers : Mem.TriggerState := {}
  /-- The process-wide round-robin counter of the runners. -/
  nextQueueIndex : Nat := 0

namespace Database

/-- Delete rows of the queue; the trigger deletes their leases. -/
def deleteQueueRows (db : Database) (doomed : QueueRow → Bool) : Database :=
  { db with
    brokerQueue := db.brokerQueue.filter fun row => !doomed row
    brokerReservations := (db.brokerQueue.filter doomed).foldl
      (fun leases row => leases.erase row.id) db.brokerReservations }

/-- `DELETE FROM broker_queue WHERE invocation_id = …`. -/
def dequeue (db : Database) (id : InvocationId) : Database :=
  db.deleteQueueRows fun row => decide (row.invocationId = id)

def insertQueueRow (db : Database) (id : InvocationId) (taskId : Option TaskId)
    (queueName : String) (priority : F64) : Database :=
  { db with
    brokerQueue := db.brokerQueue ++ [⟨db.lastQueueId + 1, id, taskId, queueName, priority⟩]
    lastQueueId := db.lastQueueId + 1 }

/-- Set the end of a row's lease. -/
def lease (db : Database) (rowId : Nat) (expiresAtMs : Int) : Database :=
  { db with brokerReservations := db.brokerReservations.insert rowId expiresAtMs }

/-- Write a status record through to both tables that hold the status. -/
def updateStatus (db : Database) (id : InvocationId) (record : InvocationStatusRecord) :
    Database :=
  { db with
    statusRecords := updateRow db.statusRecords id fun _ => record
    invocations := updateRow db.invocations id fun row =>
      { row with status := record.status, updatedAt := record.timestamp } }

def appendHistory (db : Database) (row : HistoryRow) : Database :=
  { db with history := db.history ++ [row] }

/-- Delete the argument pairs of an invocation. -/
def deleteCcArgPairs (db : Database) (id : InvocationId) : Database :=
  { db with
    ccArgPairs := (db.ccArgPairs.keys.filter fun key => key.1 = id).foldl
      (fun pairs key => pairs.erase key) db.ccArgPairs }

/-- Enter an invocation under argument pairs (`INSERT OR REPLACE`). -/
def insertCcArgPairs (db : Database) (id : InvocationId) (taskId : TaskId)
    (pairs : List (String × String)) : Database :=
  { db with
    ccArgPairs := pairs.foldl
      (fun table pair => table.insert (id, pair.1, pair.2) taskId) db.ccArgPairs }

/-- The stored status of an invocation. -/
def statusOf (db : Database) (id : InvocationId) : Option InvocationStatus :=
  (db.statusRecords.lookup id).map InvocationStatusRecord.status

/-- An invocation has rows in `cc_arg_pairs`. -/
def HoldsSlot (db : Database) (id : InvocationId) : Prop :=
  ∃ key ∈ db.ccArgPairs.keys, key.1 = id

instance (db : Database) (id : InvocationId) : Decidable (db.HoldsSlot id) :=
  inferInstanceAs (Decidable (∃ key ∈ db.ccArgPairs.keys, key.1 = id))

end Database

/-! ## One invocation -/

/-- What the tables say about one invocation. -/
structure Standing where
  /-- `invocations.status` -/
  stored : Option InvocationStatus
  /-- `status_records` -/
  record : Option InvocationStatusRecord
  /-- The statuses of its history rows, oldest first. -/
  path : List InvocationStatus
  retries : Option Nat
  /-- How many rows of `broker_queue` it has. -/
  queued : Nat
  result : Option String
  error : Option TaskError

namespace Database

def standing (db : Database) (id : InvocationId) : Standing where
  stored := (db.invocations.lookup id).map InvocationDTO.status
  record := db.statusRecords.lookup id
  path := (db.history.filter fun row => decide (row.invocationId = id)).map HistoryRow.status
  retries := db.retries.lookup id
  queued := (db.brokerQueue.filter fun row => decide (row.invocationId = id)).length
  result := db.results.lookup id
  error := db.errors.lookup id

section Lemmas

variable (db : Database) (id x : InvocationId)

/-- `UPDATE … WHERE key` touches one row. -/
theorem lookup_updateRow {K V : Type} [DecidableEq K] (table : Table K V) (key k : K)
    (f : V → V) :
    (updateRow table key f).lookup k =
      if k = key then (table.lookup k).map f else table.lookup k := by
  unfold updateRow
  split
  · rename_i hnone
    split
    · rename_i hk
      rw [hk, hnone]
      rfl
    · rfl
  · rename_i row hrow
    split
    · rename_i hk
      rw [hk, AList.lookup_insert, hrow]
      rfl
    · rename_i hk
      exact AList.lookup_insert_ne hk

theorem standing_deleteQueueRows (doomed : QueueRow → Bool) :
    (db.deleteQueueRows doomed).standing x =
      { db.standing x with
        queued := (db.brokerQueue.filter fun row =>
          !doomed row && decide (row.invocationId = x)).length } := by
  simp [deleteQueueRows, standing, List.filter_filter, Bool.and_comm]

@[simp] theorem standing_dequeue :
    (db.dequeue id).standing x =
      { db.standing x with queued := if x = id then 0 else (db.standing x).queued } := by
  rw [dequeue, standing_deleteQueueRows]
  by_cases hx : x = id
  · subst hx
    simp
  · have hrows : db.brokerQueue.filter (fun row =>
        !decide (row.invocationId = id) && decide (row.invocationId = x)) =
        db.brokerQueue.filter fun row => decide (row.invocationId = x) := by
      refine List.filter_congr fun row _ => ?_
      by_cases hrow : row.invocationId = x
      · simp [hrow, hx]
      · simp [hrow]
    rw [hrows, if_neg hx]
    rfl

@[simp] theorem standing_insertQueueRow (taskId : Option TaskId) (queueName : String)
    (priority : F64) :
    (db.insertQueueRow id taskId queueName priority).standing x =
      { db.standing x with
        queued := if x = id then (db.standing x).queued + 1 else (db.standing x).queued } := by
  by_cases hx : x = id
  · subst hx
    simp [insertQueueRow, standing]
  · have hne : id ≠ x := Ne.symm hx
    simp [insertQueueRow, standing, hx, hne]

@[simp] theorem standing_updateStatus (record : InvocationStatusRecord) :
    (db.updateStatus id record).standing x =
      if x = id then
        { db.standing x with
          stored := (db.standing x).stored.map fun _ => record.status
          record := (db.standing x).record.map fun _ => record }
      else db.standing x := by
  by_cases hx : x = id
  · subst hx
    simp [updateStatus, standing, lookup_updateRow, Function.comp_def]
  · simp [updateStatus, standing, lookup_updateRow, hx]

@[simp] theorem standing_appendHistory (row : HistoryRow) :
    (db.appendHistory row).standing x =
      { db.standing x with
        path := if x = row.invocationId then (db.standing x).path ++ [row.status]
          else (db.standing x).path } := by
  by_cases hx : x = row.invocationId
  · subst hx
    simp [appendHistory, standing]
  · have hne : row.invocationId ≠ x := Ne.symm hx
    simp [appendHistory, standing, hx, hne]

@[simp] theorem standing_deleteCcArgPairs :
    (db.deleteCcArgPairs id).standing x = db.standing x := rfl

/-! Slots, under the same statements. -/

theorem holdsSlot_iff :
    db.HoldsSlot x ↔ ∃ pair : String × String, (x, pair.1, pair.2) ∈ db.ccArgPairs := by
  constructor
  · rintro ⟨⟨y, key, value⟩, hmem, rfl⟩
    exact ⟨(key, value), AList.mem_keys.mpr hmem⟩
  · rintro ⟨pair, hmem⟩
    exact ⟨(x, pair.1, pair.2), AList.mem_keys.mp hmem, rfl⟩

theorem holdsSlot_deleteCcArgPairs :
    (db.deleteCcArgPairs id).HoldsSlot x ↔ x ≠ id ∧ db.HoldsSlot x := by
  have hfold : ∀ (keys : List CcRow) (table : Table CcRow TaskId) (k : CcRow),
      k ∈ keys.foldl (fun pairs key => pairs.erase key) table ↔ k ∉ keys ∧ k ∈ table := by
    intro keys
    induction keys with
    | nil => simp
    | cons key rest ih =>
        intro table k
        rw [List.foldl_cons, ih, AList.mem_erase]
        simp only [List.mem_cons, not_or]
        tauto
  rw [holdsSlot_iff, holdsSlot_iff]
  constructor
  · rintro ⟨pair, hmem⟩
    obtain ⟨hnot, hmem⟩ := (hfold _ _ _).mp hmem
    refine ⟨fun hx => hnot ?_, pair, hmem⟩
    exact List.mem_filter.mpr ⟨AList.mem_keys.mp hmem, by simpa using hx⟩
  · rintro ⟨hx, pair, hmem⟩
    refine ⟨pair, (hfold _ _ _).mpr ⟨fun hdel => hx ?_, hmem⟩⟩
    simpa using (List.mem_filter.mp hdel).2

theorem holdsSlot_of_insertCcArgPairs {taskId : TaskId} {pairs : List (String × String)}
    (h : (db.insertCcArgPairs id taskId pairs).HoldsSlot x) : x = id ∨ db.HoldsSlot x := by
  have hfold : ∀ (pairs : List (String × String)) (table : Table CcRow TaskId) (k : CcRow),
      k ∈ pairs.foldl (fun table pair => table.insert (id, pair.1, pair.2) taskId) table →
      k.1 = id ∨ k ∈ table := by
    intro pairs
    induction pairs with
    | nil => exact fun table k hk => .inr hk
    | cons pair rest ih =>
        intro table k hk
        rcases ih _ k hk with hk | hk
        · exact .inl hk
        · rcases (AList.mem_insert _).mp hk with rfl | hk
          · exact .inl rfl
          · exact .inr hk
  obtain ⟨pair, hmem⟩ := (holdsSlot_iff _ _).mp h
  rcases hfold pairs db.ccArgPairs _ hmem with hk | hk
  · exact .inl hk
  · exact .inr ((holdsSlot_iff _ _).mpr ⟨pair, hk⟩)

end Lemmas

end Database

end Rustvello.Sqlite
