import Rustvello.Sqlite.Publication

/-!
# The SQLite backends together

Broker, orchestrator and state backend on one database (`broker.rs`, `orchestrator/` and
`state_backend/` of `rustvello-sqlite`), and `exec`, which carries out every port call as
one transaction.

* `reserve` — retrieval leases a row of the queue and leaves it there;
* `tryAcquireConcurrencySlot` — admission by argument pairs, without a look at the
  status;
* `setInvocationStatus` — a status write outside the publication transactions;
* `getBlockingInvocations` — the invocations that others wait for.
-/

namespace Rustvello.Sqlite

open Concurrency Proto Rustvello.Core

namespace Database

variable (db : Database)

/-! ## Broker -/

/-- The statuses in which a queued entry is delivered. -/
def deliverable (status : InvocationStatus) : Bool :=
  decide (status = .registered ∨ status = .retry ∨ status = .rerouted)

/-- The invocation of a row is owned or terminal. -/
def isObsolete (row : QueueRow) : Bool :=
  (db.statusOf row.invocationId).any fun status => !deliverable status

def cleanupBatch : Nat := 128

/-- A duplicate publication for an owned or terminal invocation must not redeliver
forever; cleanup is bounded per poll. -/
def cleanup (order : List Nat) (queue : String) : Database :=
  let obsolete := fun row => decide (row.queueName = queue) && db.isObsolete row
  let selected := (arrange order ((db.brokerQueue.filter obsolete).map QueueRow.id)).take
    cleanupBatch
  db.deleteQueueRows fun row => obsolete row && decide (row.id ∈ selected)

/-- An entry without a task is for Rust workers. -/
def forLanguage (language : TaskLanguage) (row : QueueRow) : Bool :=
  match row.taskId with
  | none => decide (language = .rust)
  | some taskId => decide (taskId.language = language)

/-- Nobody holds a lease on the row. -/
def leaseIsFree (now : Int) (row : QueueRow) : Bool :=
  (db.brokerReservations.lookup row.id).all fun expiresAtMs => expiresAtMs ≤ now

/-- The row of highest priority, the oldest among equals. -/
def firstByPriority : List QueueRow → Option QueueRow
  | [] => none
  | row :: rest =>
      match firstByPriority rest with
      | none => some row
      | some best => if best.priority.numericLe row.priority then some row else some best

def reserve (env : Env) (leaseMs : Nat) (queue : String) (task : Option TaskId)
    (language : Option TaskLanguage) : RustvelloResult (Option InvocationId) × Database :=
  match validateRouting queue (.finite 0) with
  | .error e => (.error e, db)
  | .ok _ =>
      let db := db.cleanup env.rowOrder queue
      let now := timestampMillis env.clock
      let visible := db.brokerQueue.filter fun row =>
        decide (row.queueName = queue) && task.all (fun t => decide (row.taskId = some t)) &&
          language.all (fun l => forLanguage l row) && db.leaseIsFree now row &&
          !db.isObsolete row
      match firstByPriority visible with
      | none => (.ok none, db)
      | some row => (.ok (some row.invocationId), db.lease row.id (now + leaseMs))

def routeInvocationWithOptions (id : InvocationId) (taskId : Option TaskId) (queueName : String)
    (priority : F64) : RustvelloResult Unit × Database :=
  match validateRouting queueName priority with
  | .error e => (.error e, db)
  | .ok _ => (.ok (), db.insertQueueRow id taskId queueName priority)

/-- The entry is inserted with a lease that nobody holds. -/
def routeInvocationAfter (now : Timestamp) (id : InvocationId) (taskId : Option TaskId)
    (queueName : String) (priority : F64) (delayMs : Nat) : RustvelloResult Unit × Database :=
  match validateRouting queueName priority with
  | .error e => (.error e, db)
  | .ok _ =>
      let db := db.insertQueueRow id taskId queueName priority
      (.ok (), db.lease db.lastQueueId (notBeforeMs now delayMs))

/-! ## Status -/

/-- A new row of `invocations` is only inserted where there is none; the status record
is replaced. -/
def registerInvocationWithId (now : Timestamp) (id : InvocationId) (call : CallDTO)
    (runnerId : Option RunnerId) : InvocationStatusRecord × Database :=
  let record : InvocationStatusRecord := ⟨.registered, runnerId, now⟩
  let invocations := match db.invocations.lookup id with
    | some _ => db.invocations
    | none => db.invocations.insert id (InvocationDTO.new now id call.taskId call.callId)
  (record, { db with
    invocations := invocations
    statusRecords := db.statusRecords.insert id record })

/-- A status write; ownership and delivery acknowledgment are one commit. -/
def setInvocationStatus (now : Timestamp) (id : InvocationId) (status : InvocationStatus)
    (runnerId : Option RunnerId) : RustvelloResult InvocationStatusRecord × Database :=
  match db.statusRecords.lookup id with
  | none => (.error (.invocationNotFound id), db)
  | some old =>
      match statusRecordTransition now (some old) status runnerId with
      | .error e => (.error (statusMachineErrorToRustvello e id old.status), db)
      | .ok record =>
          let db := db.updateStatus id record
          (.ok record, if status = .pending then db.dequeue id else db)

def incrementInvocationRetries (id : InvocationId) : Nat × Database :=
  let count := (db.retries.lookup id).getD 0 + 1
  (count, { db with retries := db.retries.insert id count })

def registerHeartbeat (now : Timestamp) (runnerId : RunnerId) : Database :=
  { db with runnerHeartbeats := db.runnerHeartbeats.insert runnerId now }

/-! ## Waiting -/

def setWaitingFor (waiter waitedOn : InvocationId) : Database :=
  { db with waitingFor := db.waitingFor.insert (waiter, waitedOn) }

def releaseWaiters (completed : InvocationId) : List InvocationId × Database :=
  ((db.waitingFor.filter fun pair => pair.2 = completed).map Prod.fst,
    { db with waitingFor := db.waitingFor.filter fun pair => pair.2 ≠ completed })

def getWaiters (waitedOn : InvocationId) : List InvocationId :=
  (db.waitingFor.filter fun pair => pair.2 = waitedOn).map Prod.fst

/-- A waited-on invocation that waits on nothing itself, with a status of the query. -/
def isBlockingCandidate (id : InvocationId) : Bool :=
  (db.statusOf id).any (fun status =>
    decide (status = .registered ∨ status = .pending ∨ status = .running)) &&
    !db.waitingFor.any fun pair => pair.1 = id

/-- `order` is the order in which the query visits the invocations. -/
def getBlockingInvocations (order : List InvocationId) (maxNum : Nat) : List InvocationId :=
  (arrange order ((db.waitingFor.map Prod.snd).dedup.filter db.isBlockingCandidate)).take maxNum

/-! ## Removal -/

/-- Remove an invocation.  If it was stored, its submission is never accepted again: the
submission keeps an empty identity. -/
def removeInvocation (id : InvocationId) : Database :=
  let db := match db.invocations.lookup id with
    | none => db
    | some _ => { db with submissionPublications := db.submissionPublications.insert id none }
  let db := (db.dequeue id).deleteCcArgPairs id
  { db with
    statusRecords := db.statusRecords.erase id
    waitingFor := db.waitingFor.filter fun pair => !decide (pair.1 = id ∨ pair.2 = id)
    retries := db.retries.erase id
    invocations := db.invocations.erase id
    autoPurgeSchedule := db.autoPurgeSchedule.erase id }

/-- `SqliteOrchestrator::purge`: every invocation that is stored, and every submission, keeps
an empty identity. -/
def purge : Database :=
  { db with
    submissionPublications :=
      (db.invocations.keys ++ db.submissionPublications.keys).foldl
        (fun table id => table.insert id none) db.submissionPublications
    ccArgPairs := ∅
    waitingFor := []
    statusRecords := ∅
    retries := ∅
    runnerHeartbeats := ∅
    autoPurgeSchedule := ∅
    invocations := ∅ }

/-! ## Concurrency slots -/

/-- The rows of other invocations of the task under one of the pairs. -/
def matchingRows (id : InvocationId) (taskId : TaskId) (pairs : List (String × String)) :
    List CcRow :=
  db.ccArgPairs.keys.filter fun key =>
    decide (db.ccArgPairs.lookup key = some taskId) && decide (key.1 ≠ id) &&
      decide ((key.2.1, key.2.2) ∈ pairs)

/-- Slots taken by other invocations: those with a row for every pair
(`GROUP BY … HAVING COUNT(*) = n`). -/
def reservedByOthers (id : InvocationId) (taskId : TaskId) (pairs : List (String × String)) :
    List InvocationId :=
  let rows := db.matchingRows id taskId pairs
  (rows.map Prod.fst).dedup.filter fun other =>
    decide ((rows.filter fun key => key.1 = other).length = pairs.length)

def tryAcquireConcurrencySlot (id : InvocationId) (taskId : TaskId) (config : TaskConfig)
    (ccArgs : Option SerializedArguments) : Bool × Database :=
  if config.concurrencyControl = .unlimited then (true, db)
  else
    let pairs := (ccArgs.getD .empty).ccArgPairs
    if config.limit ≤ (db.reservedByOthers id taskId pairs).length then (false, db)
    else (true, db.insertCcArgPairs id taskId pairs)

/-! ## State -/

def getInvocation (id : InvocationId) : RustvelloResult InvocationDTO :=
  match db.invocations.lookup id with
  | some invocation => .ok invocation
  | none => .error (.invocationNotFound id)

def getCall (callId : CallId) : RustvelloResult CallDTO :=
  match db.calls.lookup callId with
  | some call => .ok call
  | none => .error (.stateBackend ("call not found: " ++ callId.toText))

/-- The row of a history entry; only the owner in the status record is stored. -/
def addHistory (entry : InvocationHistory) : Database :=
  db.appendHistory ⟨entry.invocationId, entry.statusRecord.status, entry.statusRecord.runnerId,
    entry.statusRecord.timestamp, entry.message, entry.historyTimestamp⟩

def getHistory (id : InvocationId) : List InvocationHistory :=
  (db.history.filter fun row => row.invocationId = id).map fun row =>
    ⟨id, ⟨row.status, row.runnerId, row.timestamp⟩, row.message, row.runnerId, none,
      row.historyTimestamp⟩

end Database

/-- Claim trigger runs in one transaction. -/
def claimTriggerRuns (env : Env) (records : List TriggerRunRecord) (db : Database) :
    RustvelloResult (List Bool) × Database :=
  let answer := Mem.TriggerState.claimTriggerRunsWithRecords env.clock db.triggers records
  match boundary env "trigger.claim.before_commit" with
  | .error e => (.error e, db)
  | .ok _ =>
      ((boundary env "trigger.claim.after_commit").map fun _ => answer.1,
        { db with triggers := answer.2 })

/-- Carry out one port call; `leaseMs` is the broker's reservation lease. -/
def exec (leaseMs : Nat) (env : Env) :
    (c : PortCall) → Database → RustvelloResult c.Ans × Database
  | .registerInvocationWithId id call runnerId, db =>
      let answer := db.registerInvocationWithId env.clock id call runnerId
      (.ok answer.1, answer.2)
  | .getInvocationStatus id, db => (current db id, db)
  | .setInvocationStatus id status runnerId, db =>
      db.setInvocationStatus env.clock id status runnerId
  | .incrementInvocationRetries id, db =>
      let answer := db.incrementInvocationRetries id
      (.ok answer.1, answer.2)
  | .scheduleAutoPurge id, db =>
      (.ok (), { db with autoPurgeSchedule := db.autoPurgeSchedule.insert id env.clock })
  | .setWaitingFor waiter waitedOn, db => (.ok (), db.setWaitingFor waiter waitedOn)
  | .releaseWaiters completed, db =>
      let answer := db.releaseWaiters completed
      (.ok answer.1, answer.2)
  | .getBlockingInvocations maxNum, db => (.ok (db.getBlockingInvocations env.order maxNum), db)
  | .tryAcquireConcurrencySlot id taskId config ccArgs, db =>
      let answer := db.tryAcquireConcurrencySlot id taskId config ccArgs
      (.ok answer.1, answer.2)
  | .removeFromConcurrencyIndex id, db => (.ok (), db.deleteCcArgPairs id)
  | .upsertInvocation invocation call, db =>
      (.ok (), { db with
        invocations := db.invocations.insert invocation.invocationId invocation
        calls := db.calls.insert call.callId call })
  | .getInvocation id, db => (db.getInvocation id, db)
  | .getCall callId, db => (db.getCall callId, db)
  | .storeResult id result, db =>
      (.ok (), { db with results := db.results.insert id result })
  | .storeError id error, db => (.ok (), { db with errors := db.errors.insert id error })
  | .addHistory entry, db => (.ok (), db.addHistory entry)
  | .getHistory id, db => (.ok (db.getHistory id), db)
  | .getExecutionIdentity id, db => (.ok (db.workflowData.lookup id), db)
  | .setExecutionIdentity id identity, db =>
      (.ok (), { db with workflowData := db.workflowData.insert id identity })
  | .routeInvocationWithOptions id taskId queue priority, db =>
      db.routeInvocationWithOptions id taskId queue priority
  | .routeInvocationAfter id taskId queue priority delayMs, db =>
      db.routeInvocationAfter env.clock id taskId queue priority delayMs
  | .retrieveInvocationForLanguageFromQueue language queue, db =>
      db.reserve env leaseMs queue none (some language)
  | .publicationSubmit submission, db => submit env submission db
  | .publicationChange id runnerId requested autoPurge, db =>
      change env id runnerId requested autoPurge db
  | .publicationBeginExecution id runnerId retries incoming, db =>
      beginExecution env id runnerId retries incoming db
  | .reportStatusChange _ _ _ _, db => (.ok (), db)
  | .reportResult _ _ _ _, db => (.ok (), db)
  | .reportFailure _ _ _ _ _, db => (.ok (), db)
  | .satisfiedTriggers, db => (.ok env.firings, db)
  | .claimTriggerRunsWithRecords records, db => claimTriggerRuns env records db
  | .getPendingTriggerRuns limit, db =>
      (.ok (db.triggers.getPendingTriggerRuns env.runOrder limit), db)
  | .getTriggerRun triggerRunId, db => (.ok (db.triggers.runs.lookup triggerRunId), db)
  | .storeTriggerRun run, db =>
      (.ok (), { db with
        triggers := { db.triggers with runs := db.triggers.runs.insert run.triggerRunId run } })
  | .utcNow, db => (.ok env.clock, db)
  | .randomUnit, db => (.ok env.randomUnit, db)
  | .queueNamesForRetrieval config, db =>
      let answer := queueNamesForRetrieval env config db.nextQueueIndex
      (.ok answer.1, { db with nextQueueIndex := answer.2 })
  | .allocateTraceContext parent, db => (.ok (env.allocateTraceContext parent), db)
  | .middlewareBefore _ _, db => (env.middleware, db)
  | .superviseAttempt context timeoutMs cancelCheck, db =>
      (.ok (env.supervise context.invocationId (db.statusOf context.invocationId) timeoutMs
        cancelCheck), db)

end Rustvello.Sqlite
