import Rustvello.Sqlite.Database

/-!
# Publication transactions

`SqlitePublication` (`rustvello-sqlite/src/publication.rs`): a submission or a status
change commits with everything that belongs to it, or not at all.  The bodies below are
the transactions up to their commit; an error anywhere in a body rolls it back, and so
does the end of the process.  `boundary` marks the places at which a fault can be
injected.

* `submit` — accept a submission once;
* `change` — one status change, or two in one transaction (`recover`,
  `concurrencyReroute`);
* `beginExecution` — allocate the identity of an attempt.

What a committed transaction did is summed up once for each (`submitBody_ok`,
`changeBody_ok`), in terms of the `Standing` of an invocation.
-/

namespace Rustvello.Sqlite

open Proto Rustvello.Core

/-- A fault is injected at this boundary. -/
def boundary (env : Env) (name : String) : RustvelloResult Unit :=
  if env.failpoint = some name then .error (.stateBackend "injected publication write failure")
  else .ok ()

def sqlError (message : String) : RustvelloError :=
  .stateBackend ("SQLite error: " ++ message)

def uniqueViolation (column : String) : RustvelloError :=
  sqlError ("UNIQUE constraint failed: " ++ column)

def validateRoute (route : PublicationRoute) : RustvelloResult Unit :=
  if route.queue = "" ∨ route.priority.isFinite = false then
    .error (.configuration "publication requires a nonempty queue and finite priority")
  else .ok ()

/-- Replace any old reservation or delivery without changing the invocation identity. -/
def publish (db : Database) (id : InvocationId) (taskId : TaskId) (route : PublicationRoute) :
    RustvelloResult Database := do
  validateRoute route
  pure ((db.dequeue id).insertQueueRow id (some taskId) route.queue route.priority)

/-- Wall-clock milliseconds at which a delayed entry becomes deliverable. -/
def notBeforeMs (now : Timestamp) (delayMs : Nat) : Int :=
  min (timestampMillis now + min (delayMs : Int) i64Max) i64Max

/-- Hide the invocation's queued entry until the delay elapses. -/
def delayDelivery (env : Env) (db : Database) (id : InvocationId) (delayMs : Nat) : Database :=
  (db.brokerQueue.filter fun row => row.invocationId = id).foldl
    (fun db row => db.lease row.id (notBeforeMs env.clock delayMs)) db

def historyRow (id : InvocationId) (record : InvocationStatusRecord) (runner : RunnerId) :
    HistoryRow :=
  ⟨id, record.status, some runner, record.timestamp, none, some record.timestamp⟩

def current (db : Database) (id : InvocationId) : RustvelloResult InvocationStatusRecord :=
  match db.statusRecords.lookup id with
  | none => .error (.invocationNotFound id)
  | some record => .ok record

/-- One validated status change: both copies of the status, the history, and the
delivery when it is taken or no longer needed. -/
def transition (env : Env) (db : Database) (id : InvocationId) (runner : RunnerId)
    (old : InvocationStatusRecord) (status : InvocationStatus) :
    RustvelloResult (InvocationStatusRecord × Database) :=
  match statusRecordTransition env.clock (some old) status (some runner) with
  | .error e => .error (statusMachineErrorToRustvello e id old.status)
  | .ok record =>
      let db := (db.updateStatus id record).appendHistory (historyRow id record runner)
      .ok (record, if status = .pending ∨ status.isTerminal = true then db.dequeue id else db)

/-! ## Submission -/

/-- Some table already has rows under this id. -/
def occupied (db : Database) (id : InvocationId) : Bool :=
  (db.invocations.lookup id).isSome || db.history.any (fun row => row.invocationId = id) ||
    (db.results.lookup id).isSome || (db.errors.lookup id).isSome ||
    (db.workflowData.lookup id).isSome || (db.workflowRuns.lookup id).isSome

/-- Status record and invocation of a new submission. -/
def insertControl (env : Env) (s : SubmissionPublication) (db : Database) :
    RustvelloResult Database :=
  let id := s.invocation.invocationId
  match db.statusRecords.lookup id with
  | some _ => .error (uniqueViolation "status_records.invocation_id")
  | none =>
      .ok { db with
        invocations := db.invocations.insert id
          { s.invocation with
            status := .registered, createdAt := env.clock, updatedAt := env.clock }
        statusRecords := db.statusRecords.insert id
          ⟨.registered, some s.runnerId, env.clock⟩ }

/-- The call, unless it is stored already. -/
def insertCall (s : SubmissionPublication) (db : Database) : Database :=
  match db.calls.lookup s.call.callId with
  | some _ => db
  | none => { db with calls := db.calls.insert s.call.callId s.call }

/-- The run of a workflow whose root is submitted. -/
def insertWorkflowRun (s : SubmissionPublication) (db : Database) : RustvelloResult Database :=
  match s.workflowRoot, s.invocation.workflow with
  | true, some workflow =>
      match db.workflowRuns.lookup workflow.workflowId with
      | some _ => .error (uniqueViolation "workflow_runs.workflow_id")
      | none => .ok { db with
          workflowRuns := db.workflowRuns.insert workflow.workflowId workflow }
  | _, _ => .ok db

/-- The argument pairs under which the submission itself is indexed. -/
def insertSubmittedPairs (s : SubmissionPublication) (db : Database) :
    RustvelloResult Database :=
  match s.ccArguments with
  | none => .ok db
  | some arguments =>
      let id := s.invocation.invocationId
      if arguments.ccArgPairs.any fun pair =>
          (db.ccArgPairs.lookup (id, pair.1, pair.2)).isSome then
        .error (uniqueViolation
          "cc_arg_pairs.invocation_id, cc_arg_pairs.arg_key, cc_arg_pairs.arg_value")
      else .ok (db.insertCcArgPairs id s.invocation.taskId arguments.ccArgPairs)

/-- The writes of an accepted submission. -/
def acceptSubmission (env : Env) (s : SubmissionPublication) (db : Database) :
    RustvelloResult Database := do
  let id := s.invocation.invocationId
  let db ← insertControl env s db
  boundary env "submit.control"
  let db := insertCall s db
  boundary env "submit.call"
  let db ← insertWorkflowRun s db
  boundary env "submit.workflow"
  let db := db.appendHistory (historyRow id ⟨.registered, some s.runnerId, env.clock⟩ s.runnerId)
  boundary env "submit.history"
  let db ← insertSubmittedPairs s db
  let db ← publish db id s.invocation.taskId s.route
  boundary env "submit.queue"
  let db := { db with
    submissionPublications := db.submissionPublications.insert id (some (submissionIdentity s)) }
  boundary env "submit.before_commit"
  pure db

/-- A submission up to its commit; `none` when it was accepted before. -/
def submitBody (env : Env) (s : SubmissionPublication) (db : Database) :
    RustvelloResult (Option Database) := do
  validateRoute s.route
  if s.invocation.taskId ≠ s.call.taskId ∨ s.invocation.callId ≠ s.call.callId then
    .error (.configuration "invocation and call identities differ")
  else
    boundary env "submit.before_begin"
    match db.submissionPublications.lookup s.invocation.invocationId with
    | some none => .error (.configuration "submission ID was removed; use a fresh ID")
    | some (some existing) =>
        if existing ≠ submissionIdentity s then
          .error (.configuration
            "submission ID already accepted with different content or lineage")
        else pure none
    | none =>
        if occupied db s.invocation.invocationId then
          .error (.configuration "submission ID belongs to a legacy invocation; use a fresh ID")
        else
          let db ← acceptSubmission env s db
          pure (some db)

def submit (env : Env) (s : SubmissionPublication) (db : Database) :
    RustvelloResult Bool × Database :=
  match submitBody env s db with
  | .error e => (.error e, db)
  | .ok none => (.ok false, db)
  | .ok (some committed) =>
      ((boundary env "submit.after_commit").map fun _ => true, committed)

/-! ## Status changes -/

def operationName : PublicationChange → String
  | .recover _ _ _ => "recover"
  | .retry _ | .delayedRetry _ _ => "retry"
  | .reroute _ | .concurrencyReroute _ => "reroute"
  | .success _ | .failure _ => "complete"
  | .status status => "status." ++ status.toName

/-- The boundary of one stage of a change. -/
def point (env : Env) (change : PublicationChange) (stage : String) : RustvelloResult Unit :=
  boundary env (operationName change ++ "." ++ stage)

/-- The earliest instant of the calendar; an earlier cutoff stops the process's task. -/
def minInstant : Timestamp := -8334601228800 * 1000000000

/-- The instant before which an owner counts as dead. -/
def staleCutoff (now : Timestamp) (staleAfterSeconds : Nat) : RustvelloResult Timestamp :=
  let cutoff := now - min (staleAfterSeconds : Int) i64Max * 1000000000
  if cutoff < minInstant then .error (.internal "spawn_blocking join error") else .ok cutoff

/-- When the owner was last seen.  A runner without a heartbeat yet counts from its
`running` status time. -/
def lastSeen (db : Database) (old : InvocationStatusRecord) (expected : InvocationStatus) :
    Timestamp :=
  if expected = .pending then old.timestamp
  else (old.runnerId.bind db.runnerHeartbeats.lookup).getD old.timestamp

/-- The first of the two transitions of a recovery and of a concurrency reroute; `none`
when there is nothing to recover. -/
def prepare (env : Env) (db : Database) (id : InvocationId) (runner : RunnerId)
    (old : InvocationStatusRecord) (change : PublicationChange) :
    RustvelloResult (Option (InvocationStatusRecord × Database)) :=
  match change with
  | .recover status staleAfterSeconds _ =>
      match takenOverFrom status with
      | none => .error (.configuration "invalid recovery status")
      | some expected =>
          if old.status ≠ expected then .ok none
          else do
            let cutoff ← staleCutoff env.clock staleAfterSeconds
            if cutoff ≤ lastSeen db old expected then pure none
            else
              let moved ← transition env db id runner old status
              point env change "recovery_status"
              pure (some moved)
  | .concurrencyReroute _ => do
      let moved ← transition env db id runner old .concurrencyControlled
      point env change "concurrency_status"
      pure (some moved)
  | _ => .ok (some (old, db))

/-- Completion payloads need the running owner. -/
def checkPayload (id : InvocationId) (runner : RunnerId) (old : InvocationStatusRecord)
    (change : PublicationChange) : RustvelloResult Unit :=
  if hasPayload change = true ∧ (old.status ≠ .running ∨ old.runnerId ≠ some runner) then
    .error (.ownershipViolation id old.status (targetOf change)
      ((old.runnerId.map RunnerId.raw).getD "") runner.raw
      "completion payload requires current Running ownership")
  else .ok ()

/-- Retry counter, result or error of the change. -/
def writePayload (env : Env) (db : Database) (id : InvocationId) (change : PublicationChange) :
    RustvelloResult Database :=
  match change with
  | .retry _ | .delayedRetry _ _ => do
      let db := { db with retries := db.retries.insert id ((db.retries.lookup id).getD 0 + 1) }
      point env change "counter"
      pure db
  | .success result => do
      let db := { db with results := db.results.insert id result }
      point env change "payload"
      pure db
  | .failure error => do
      let db := { db with errors := db.errors.insert id error }
      point env change "payload"
      pure db
  | _ => .ok db

/-- A delayed retry is hidden until it is due. -/
def deferDelivery (env : Env) (db : Database) (id : InvocationId) :
    PublicationChange → Database
  | .delayedRetry _ delayMs => delayDelivery env db id delayMs
  | _ => db

/-- Queue the invocation again and give its slot back. -/
def writeRoute (env : Env) (db : Database) (id : InvocationId) (change : PublicationChange) :
    RustvelloResult Database :=
  match routeOf change with
  | none => .ok db
  | some route =>
      match db.invocations.lookup id with
      | none => .error (sqlError "Query returned no rows")
      | some row => do
          let db ← publish db id row.taskId route
          let db := deferDelivery env db id change
          let db := db.deleteCcArgPairs id
          point env change "queue"
          pure db

/-- Waiters, slot and purge of an invocation that ends. -/
def writeTerminal (env : Env) (db : Database) (id : InvocationId)
    (record : InvocationStatusRecord) (change : PublicationChange) (autoPurge : Bool) :
    RustvelloResult Database :=
  if (targetOf change).isTerminal then do
    let db := { db with waitingFor := db.waitingFor.filter fun pair => pair.2 ≠ id }
    let db := db.deleteCcArgPairs id
    let db := if autoPurge then
        { db with autoPurgeSchedule := db.autoPurgeSchedule.insert id record.timestamp }
      else db
    point env change "terminal_effects"
    pure db
  else .ok db

/-- The second half of a change: validation and fencing precede every payload write. -/
def completeChange (env : Env) (db : Database) (id : InvocationId) (runner : RunnerId)
    (old : InvocationStatusRecord) (change : PublicationChange) (autoPurge : Bool) :
    RustvelloResult (InvocationStatusRecord × Database) := do
  checkPayload id runner old change
  let moved ← transition env db id runner old (targetOf change)
  point env change "status_history"
  let db ← writePayload env moved.2 id change
  let db ← writeRoute env db id change
  let db ← writeTerminal env db id moved.1 change autoPurge
  point env change "before_commit"
  pure (moved.1, db)

/-- A change up to its commit; `none` when there is nothing to recover. -/
def changeBody (env : Env) (id : InvocationId) (runner : RunnerId) (change : PublicationChange)
    (autoPurge : Bool) (db : Database) :
    RustvelloResult (Option (InvocationStatusRecord × Database)) := do
  point env change "before_begin"
  let old ← current db id
  match ← prepare env db id runner old change with
  | none => pure none
  | some (old, db) =>
      let done ← completeChange env db id runner old change autoPurge
      pure (some done)

def change (env : Env) (id : InvocationId) (runner : RunnerId) (change : PublicationChange)
    (autoPurge : Bool) (db : Database) :
    RustvelloResult (Option InvocationStatusRecord) × Database :=
  match changeBody env id runner change autoPurge db with
  | .error e => (.error e, db)
  | .ok none => (.ok none, db)
  | .ok (some (record, committed)) =>
      ((point env change "after_commit").map fun _ => some record, committed)

/-! ## Execution identity -/

/-- Allocate and persist the identity of an execution, for the running owner. -/
def beginExecutionBody (env : Env) (id : InvocationId) (runner : RunnerId) (retries : Nat)
    (incoming : TraceContextCarrier) (db : Database) :
    RustvelloResult (ExecutionAttemptIdentity × Database) := do
  let old ← current db id
  if old.status ≠ .running ∨ old.runnerId ≠ some runner then
    .error (.configuration "execution identity requires current Running ownership")
  else
    let previous := db.workflowData.lookup id
    let attempt ← Orchestration.nextAttemptNumber previous retries
    let identity : ExecutionAttemptIdentity :=
      ⟨attempt, env.allocateTraceContext (Orchestration.parentTraceContext previous incoming),
        (previous.map ExecutionAttemptIdentity.executionTraceContext).getD {}⟩
    let db := { db with workflowData := db.workflowData.insert id identity }
    boundary env "execution.before_commit"
    pure (identity, db)

def beginExecution (env : Env) (id : InvocationId) (runner : RunnerId) (retries : Nat)
    (incoming : TraceContextCarrier) (db : Database) :
    RustvelloResult ExecutionAttemptIdentity × Database :=
  match beginExecutionBody env id runner retries incoming db with
  | .error e => (.error e, db)
  | .ok (identity, committed) =>
      ((boundary env "execution.after_commit").map fun _ => identity, committed)

/-- Beginning an execution writes its identity, and nothing else. -/
theorem beginExecution_frame (env : Env) (id : InvocationId) (runner : RunnerId) (retries : Nat)
    (incoming : TraceContextCarrier) (db : Database) : ∃ workflowData,
    (beginExecution env id runner retries incoming db).2 =
      { db with workflowData := workflowData } := by
  unfold beginExecution
  split
  · exact ⟨_, rfl⟩
  · rename_i identity committed hbody
    obtain ⟨old, -, hbody⟩ := bind_eq_ok.mp hbody
    split at hbody
    · cases hbody
    · obtain ⟨_, -, hbody⟩ := bind_eq_ok.mp hbody
      obtain ⟨_, -, hbody⟩ := bind_eq_ok.mp hbody
      cases hbody
      exact ⟨_, rfl⟩

/-! ## What a committed transaction did -/

namespace Standing

/-- One transition. -/
def move (st : Standing) (record : InvocationStatusRecord) : Standing :=
  { st with
    stored := st.stored.map fun _ => record.status
    record := st.record.map fun _ => record
    path := st.path ++ [record.status]
    queued := if record.status = .pending ∨ record.status.isTerminal = true then 0
      else st.queued }

/-- The payload of a change. -/
def pay (st : Standing) : PublicationChange → Standing
  | .retry _ | .delayedRetry _ _ => { st with retries := some (st.retries.getD 0 + 1) }
  | .success result => { st with result := some result }
  | .failure error => { st with error := some error }
  | _ => st

/-- A new submission. -/
def enter (st : Standing) (record : InvocationStatusRecord) : Standing :=
  { st with
    stored := some record.status
    record := some record
    path := st.path ++ [record.status]
    queued := 1 }

/-- A change with a route leaves one delivery. -/
def route (st : Standing) (change : PublicationChange) : Standing :=
  { st with queued := if (routeOf change).isSome then 1 else st.queued }

end Standing

section Committed

variable {env : Env} {db db' : Database} {id : InvocationId} {runner : RunnerId}
  {old record : InvocationStatusRecord} {status : InvocationStatus} {change : PublicationChange}
  {autoPurge : Bool} {s : SubmissionPublication}

/-- Both databases hold the same submissions and the same slots. -/
structure SameClaims (db db' : Database) : Prop where
  submissions : db'.submissionPublications = db.submissionPublications
  slots : db'.ccArgPairs = db.ccArgPairs

theorem transition_ok (h : transition env db id runner old status = .ok (record, db')) :
    old.status.canTransitionTo status = true ∧ record.status = status ∧
      OwnershipOk old status (some runner) ∧ SameClaims db db' ∧
      ∀ x, db'.standing x = if x = id then (db.standing x).move record else db.standing x := by
  unfold transition at h
  split at h
  · cases h
  · rename_i new htrans
    simp only [Except.ok.injEq, Prod.mk.injEq] at h
    obtain ⟨rfl, rfl⟩ := h
    obtain ⟨hcan, hown, hrecord⟩ := (statusRecordTransition_ok_iff _ _ _ _ _).mp htrans
    have hstatus : new.status = status := by rw [hrecord]
    refine ⟨hcan, hstatus, hown, ?_, fun x => ?_⟩
    · split
      · exact ⟨rfl, rfl⟩
      · exact ⟨rfl, rfl⟩
    · rw [← hstatus]
      by_cases hx : x = id
      · subst hx
        split
        · rename_i hends
          simp [Standing.move, historyRow, hends]
        · rename_i hends
          simp [Standing.move, historyRow, hends]
      · have hrow : x ≠ (historyRow id new runner).invocationId := hx
        split
        · simp [hx, hrow]
        · simp [hx, hrow]

theorem writePayload_ok (h : writePayload env db id change = .ok db') :
    SameClaims db db' ∧ db'.invocations = db.invocations ∧
      ∀ x, db'.standing x = if x = id then (db.standing x).pay change else db.standing x := by
  -- a change without payload writes nothing
  have hnone : db' = db → (∀ st : Standing, st.pay change = st) →
      SameClaims db db' ∧ db'.invocations = db.invocations ∧
        ∀ x, db'.standing x = if x = id then (db.standing x).pay change else db.standing x := by
    rintro rfl hpay
    refine ⟨⟨rfl, rfl⟩, rfl, fun x => ?_⟩
    rw [hpay, ite_self]
  -- the counter, the result and the error are one row of one table
  have hwritten : ∀ {p : RustvelloResult Unit} {written : Database},
      (p >>= fun _ => pure written) = .ok db' → SameClaims db written →
      written.invocations = db.invocations →
      (∀ x, written.standing x = if x = id then (db.standing x).pay change else db.standing x) →
      SameClaims db db' ∧ db'.invocations = db.invocations ∧
        ∀ x, db'.standing x = if x = id then (db.standing x).pay change else db.standing x := by
    intro p written hbody hclaims hrows hstanding
    obtain ⟨_, -, hdone⟩ := bind_eq_ok.mp hbody
    cases hdone
    exact ⟨hclaims, hrows, hstanding⟩
  cases change with
  | status s => exact hnone (Except.ok.inj h).symm fun _ => rfl
  | reroute route => exact hnone (Except.ok.inj h).symm fun _ => rfl
  | concurrencyReroute route => exact hnone (Except.ok.inj h).symm fun _ => rfl
  | recover s stale route => exact hnone (Except.ok.inj h).symm fun _ => rfl
  | _ =>
      -- a row of the retry counts, the results or the exceptions
      refine hwritten h ⟨rfl, rfl⟩ rfl fun x => ?_
      by_cases hx : x = id
      · subst hx
        simp [Database.standing, Standing.pay]
      · simp [Database.standing, hx, AList.lookup_insert_ne hx]

theorem publish_ok {taskId : TaskId} {route : PublicationRoute}
    (h : publish db id taskId route = .ok db') :
    SameClaims db db' ∧ ∀ x, db'.standing x =
      { db.standing x with queued := if x = id then 1 else (db.standing x).queued } := by
  obtain ⟨_, -, hdone⟩ := bind_eq_ok.mp h
  cases hdone
  refine ⟨⟨rfl, rfl⟩, fun x => ?_⟩
  by_cases hx : x = id
  · simp [hx]
  · simp [hx]

/-- Hiding a delivery changes neither submissions, slots nor standings. -/
theorem deferDelivery_same (env : Env) (db : Database) (id : InvocationId)
    (change : PublicationChange) :
    SameClaims db (deferDelivery env db id change) ∧
      ∀ x, (deferDelivery env db id change).standing x = db.standing x := by
  have hdelay : ∀ delayMs, SameClaims db (delayDelivery env db id delayMs) ∧
      ∀ x, (delayDelivery env db id delayMs).standing x = db.standing x := by
    intro delayMs
    unfold delayDelivery
    generalize db.brokerQueue.filter (fun row => row.invocationId = id) = rows
    induction rows generalizing db with
    | nil => exact ⟨⟨rfl, rfl⟩, fun _ => rfl⟩
    | cons row rest ih =>
        obtain ⟨hclaims, hstanding⟩ := ih (db.lease row.id (notBeforeMs env.clock delayMs))
        exact ⟨⟨hclaims.submissions, hclaims.slots⟩, fun x => hstanding x⟩
  unfold deferDelivery
  split
  · exact hdelay _
  · exact ⟨⟨rfl, rfl⟩, fun _ => rfl⟩

/-- A change with a route leaves one delivery and no slot. -/
theorem writeRoute_ok (h : writeRoute env db id change = .ok db') :
    db'.submissionPublications = db.submissionPublications ∧
      (∀ x, db'.HoldsSlot x → db.HoldsSlot x ∧ ((routeOf change).isSome = true → x ≠ id)) ∧
      ∀ x, db'.standing x = if x = id then (db.standing x).route change else db.standing x := by
  unfold writeRoute at h
  split at h
  · rename_i hroute
    cases h
    refine ⟨rfl, fun x hx => ⟨hx, by simp [hroute]⟩, fun x => ?_⟩
    simp [Standing.route, hroute]
  · rename_i route hroute
    split at h
    · cases h
    · obtain ⟨published, hpublish, hrest⟩ := bind_eq_ok.mp h
      obtain ⟨hclaims, hstanding⟩ := publish_ok hpublish
      obtain ⟨_, -, hdone⟩ := bind_eq_ok.mp hrest
      cases hdone
      obtain ⟨hdeferred, hsame⟩ := deferDelivery_same env published id change
      refine ⟨hdeferred.submissions.trans hclaims.submissions, fun x hx => ?_, fun x => ?_⟩
      · obtain ⟨hne, hold⟩ := (Database.holdsSlot_deleteCcArgPairs _ _ _).mp hx
        rw [Database.holdsSlot_iff, hdeferred.slots, hclaims.slots] at hold
        exact ⟨(Database.holdsSlot_iff _ _).mpr hold, fun _ => hne⟩
      · rw [Database.standing_deleteCcArgPairs, hsame, hstanding]
        by_cases hx : x = id
        · simp [hx, Standing.route, hroute]
        · simp [hx]

/-- An invocation that ends keeps no slot. -/
theorem writeTerminal_ok (h : writeTerminal env db id record change autoPurge = .ok db') :
    db'.submissionPublications = db.submissionPublications ∧
      (∀ x, db'.HoldsSlot x →
        db.HoldsSlot x ∧ ((targetOf change).isTerminal = true → x ≠ id)) ∧
      ∀ x, db'.standing x = db.standing x := by
  unfold writeTerminal at h
  split at h
  · obtain ⟨_, -, hdone⟩ := bind_eq_ok.mp h
    cases hdone
    have hpurge : ∀ db : Database, SameClaims db (if autoPurge then
          { db with autoPurgeSchedule := db.autoPurgeSchedule.insert id record.timestamp }
        else db) ∧
        ∀ x, Database.standing (if autoPurge then
          { db with autoPurgeSchedule := db.autoPurgeSchedule.insert id record.timestamp }
        else db) x = db.standing x := by
      intro db
      split
      · exact ⟨⟨rfl, rfl⟩, fun _ => rfl⟩
      · exact ⟨⟨rfl, rfl⟩, fun _ => rfl⟩
    refine ⟨(hpurge _).1.submissions, fun x hx => ?_, fun x => (hpurge _).2 x⟩
    rw [Database.holdsSlot_iff, (hpurge _).1.slots, ← Database.holdsSlot_iff,
      Database.holdsSlot_deleteCcArgPairs] at hx
    exact ⟨hx.2, fun _ => hx.1⟩
  · rename_i hterminal
    cases h
    exact ⟨rfl, fun x hx => ⟨hx, fun hterm => absurd hterm hterminal⟩, fun _ => rfl⟩

/-- **The second half of a committed change.** -/
theorem completeChange_ok
    (h : completeChange env db id runner old change autoPurge = .ok (record, db')) :
    old.status.canTransitionTo (targetOf change) = true ∧ record.status = targetOf change ∧
      db'.submissionPublications = db.submissionPublications ∧
      (∀ x, db'.HoldsSlot x →
        db.HoldsSlot x ∧ ((targetOf change).isTerminal = true → x ≠ id)) ∧
      ∀ x, db'.standing x = if x = id then (((db.standing x).move record).pay change).route change
        else db.standing x := by
  obtain ⟨_, -, h⟩ := bind_eq_ok.mp h
  obtain ⟨⟨moved, db₁⟩, hmove, h⟩ := bind_eq_ok.mp h
  obtain ⟨_, -, h⟩ := bind_eq_ok.mp h
  obtain ⟨db₂, hpayload, h⟩ := bind_eq_ok.mp h
  obtain ⟨db₃, hroute, h⟩ := bind_eq_ok.mp h
  obtain ⟨db₄, hterminal, h⟩ := bind_eq_ok.mp h
  obtain ⟨_, -, h⟩ := bind_eq_ok.mp h
  cases h
  obtain ⟨hcan, hstatus, -, hclaims₁, hstanding₁⟩ := transition_ok hmove
  obtain ⟨hclaims₂, -, hstanding₂⟩ := writePayload_ok hpayload
  obtain ⟨hsubmitted₃, hslots₃, hstanding₃⟩ := writeRoute_ok hroute
  obtain ⟨hsubmitted₄, hslots₄, hstanding₄⟩ := writeTerminal_ok hterminal
  refine ⟨hcan, hstatus, ?_, fun x hx => ?_, fun x => ?_⟩
  · rw [hsubmitted₄, hsubmitted₃, hclaims₂.submissions, hclaims₁.submissions]
  · obtain ⟨hx, hends⟩ := hslots₄ x hx
    obtain ⟨hx, -⟩ := hslots₃ x hx
    rw [Database.holdsSlot_iff, hclaims₂.slots, hclaims₁.slots] at hx
    exact ⟨(Database.holdsSlot_iff _ _).mpr hx, hends⟩
  · rw [hstanding₄, hstanding₃, hstanding₂, hstanding₁]
    by_cases hx : x = id
    · simp [hx]
    · simp [hx]

/-- The status between the two transitions of a change. -/
def midStatus : PublicationChange → Option InvocationStatus
  | .recover status _ _ => some status
  | .concurrencyReroute _ => some .concurrencyControlled
  | _ => none

/-- The statuses that no committed change of the runtime ends in. -/
def IsPassing (status : InvocationStatus) : Prop :=
  status = .concurrencyControlled ∨ status = .pendingRecovery ∨ status = .runningRecovery

/-- **What a committed change is.**  One transition, or a first one to `midStatus` and
then the second. -/
theorem changeBody_ok (h : changeBody env id runner change autoPurge db = .ok (some (record, db'))) :
    ∃ old, db.statusRecords.lookup id = some old ∧
      ((midStatus change = none ∧
          completeChange env db id runner old change autoPurge = .ok (record, db')) ∨
        ∃ status mid db₁, midStatus change = some status ∧ IsPassing status ∧
          transition env db id runner old status = .ok (mid, db₁) ∧
          completeChange env db₁ id runner mid change autoPurge = .ok (record, db')) := by
  obtain ⟨_, -, h⟩ := bind_eq_ok.mp h
  obtain ⟨old, hcurrent, h⟩ := bind_eq_ok.mp h
  have hold : db.statusRecords.lookup id = some old := by
    unfold current at hcurrent
    split at hcurrent
    · cases hcurrent
    · rename_i stored hlookup
      rw [hlookup, Except.ok.inj hcurrent]
  refine ⟨old, hold, ?_⟩
  obtain ⟨prepared, hprepare, h⟩ := bind_eq_ok.mp h
  cases prepared with
  | none => cases h
  | some moved =>
      obtain ⟨mid, db₁⟩ := moved
      obtain ⟨done, hcomplete, h⟩ := bind_eq_ok.mp h
      cases h
      -- changes of one transition are not prepared at all
      have hone : prepare env db id runner old change = .ok (some (old, db)) →
          midStatus change = none →
          midStatus change = none ∧
            completeChange env db id runner old change autoPurge = .ok (record, db') := by
        intro hsame hnone
        rw [hsame] at hprepare
        cases hprepare
        exact ⟨hnone, hcomplete⟩
      cases change with
      | status s => exact .inl (hone rfl rfl)
      | retry route => exact .inl (hone rfl rfl)
      | delayedRetry route delayMs => exact .inl (hone rfl rfl)
      | reroute route => exact .inl (hone rfl rfl)
      | success result => exact .inl (hone rfl rfl)
      | failure error => exact .inl (hone rfl rfl)
      | concurrencyReroute route =>
          obtain ⟨first, hfirst, h⟩ := bind_eq_ok.mp hprepare
          obtain ⟨_, -, h⟩ := bind_eq_ok.mp h
          cases h
          exact .inr ⟨_, mid, db₁, rfl, .inl rfl, hfirst, hcomplete⟩
      | recover s stale route =>
          right
          unfold prepare at hprepare
          dsimp only at hprepare
          split at hprepare
          · cases hprepare
          · rename_i expected hexpected
            have hpassing : IsPassing s := by
              unfold takenOverFrom at hexpected
              split at hexpected
              · exact .inr (.inl rfl)
              · exact .inr (.inr rfl)
              · cases hexpected
            split at hprepare
            · cases hprepare
            · obtain ⟨cutoff, -, h⟩ := bind_eq_ok.mp hprepare
              split at h
              · cases h
              · obtain ⟨first, hfirst, h⟩ := bind_eq_ok.mp h
                obtain ⟨_, -, h⟩ := bind_eq_ok.mp h
                cases h
                exact ⟨s, mid, db₁, rfl, hpassing, hfirst, hcomplete⟩

theorem insertControl_ok (h : insertControl env s db = .ok db') :
    db.statusRecords.lookup s.invocation.invocationId = none ∧ SameClaims db db' ∧
      ∀ x, db'.standing x = if x = s.invocation.invocationId then
          { db.standing x with
            stored := some .registered
            record := some ⟨.registered, some s.runnerId, env.clock⟩ }
        else db.standing x := by
  unfold insertControl at h
  dsimp only at h
  split at h
  · cases h
  · rename_i hnone
    cases h
    refine ⟨hnone, ⟨rfl, rfl⟩, fun x => ?_⟩
    by_cases hx : x = s.invocation.invocationId
    · rw [if_pos hx, hx]
      simp [Database.standing]
    · simp [Database.standing, hx, AList.lookup_insert_ne hx]

/-- The call and the workflow run are no part of a standing. -/
theorem insertCall_same (s : SubmissionPublication) (db : Database) :
    SameClaims db (insertCall s db) ∧ ∀ x, (insertCall s db).standing x = db.standing x := by
  unfold insertCall
  split
  · exact ⟨⟨rfl, rfl⟩, fun _ => rfl⟩
  · exact ⟨⟨rfl, rfl⟩, fun _ => rfl⟩

theorem insertWorkflowRun_ok (h : insertWorkflowRun s db = .ok db') :
    SameClaims db db' ∧ ∀ x, db'.standing x = db.standing x := by
  unfold insertWorkflowRun at h
  split at h
  · split at h
    · cases h
    · cases h
      exact ⟨⟨rfl, rfl⟩, fun _ => rfl⟩
  · cases h
    exact ⟨⟨rfl, rfl⟩, fun _ => rfl⟩

theorem insertSubmittedPairs_ok (h : insertSubmittedPairs s db = .ok db') :
    db'.submissionPublications = db.submissionPublications ∧
      (∀ x, db'.HoldsSlot x → x = s.invocation.invocationId ∨ db.HoldsSlot x) ∧
      ∀ x, db'.standing x = db.standing x := by
  unfold insertSubmittedPairs at h
  split at h
  · cases h
    exact ⟨rfl, fun _ hx => .inr hx, fun _ => rfl⟩
  · dsimp only at h
    split at h
    · cases h
    · cases h
      exact ⟨rfl, fun x hx => Database.holdsSlot_of_insertCcArgPairs _ _ _ hx, fun _ => rfl⟩

/-- **What a committed submission is.** -/
theorem acceptSubmission_ok (h : acceptSubmission env s db = .ok db') :
    db.statusRecords.lookup s.invocation.invocationId = none ∧
      db'.submissionPublications = db.submissionPublications.insert s.invocation.invocationId
        (some (submissionIdentity s)) ∧
      (∀ x, db'.HoldsSlot x → x = s.invocation.invocationId ∨ db.HoldsSlot x) ∧
      ∀ x, db'.standing x = if x = s.invocation.invocationId then
          (db.standing x).enter ⟨.registered, some s.runnerId, env.clock⟩
        else db.standing x := by
  obtain ⟨db₁, hcontrol, h⟩ := bind_eq_ok.mp h
  obtain ⟨_, -, h⟩ := bind_eq_ok.mp h
  obtain ⟨_, -, h⟩ := bind_eq_ok.mp h
  obtain ⟨db₂, hworkflow, h⟩ := bind_eq_ok.mp h
  obtain ⟨_, -, h⟩ := bind_eq_ok.mp h
  obtain ⟨_, -, h⟩ := bind_eq_ok.mp h
  obtain ⟨db₃, hpairs, h⟩ := bind_eq_ok.mp h
  obtain ⟨db₄, hpublish, h⟩ := bind_eq_ok.mp h
  obtain ⟨_, -, h⟩ := bind_eq_ok.mp h
  obtain ⟨_, -, h⟩ := bind_eq_ok.mp h
  cases h
  obtain ⟨hnone, hclaims₁, hstanding₁⟩ := insertControl_ok hcontrol
  obtain ⟨hclaims, hstanding⟩ := insertCall_same s db₁
  obtain ⟨hclaims₂, hstanding₂⟩ := insertWorkflowRun_ok hworkflow
  obtain ⟨hsubmitted₃, hslots₃, hstanding₃⟩ := insertSubmittedPairs_ok hpairs
  obtain ⟨hclaims₄, hstanding₄⟩ := publish_ok hpublish
  refine ⟨hnone, ?_, fun x hx => ?_, fun x => ?_⟩
  · have hsame : db₄.submissionPublications = db.submissionPublications := by
      rw [hclaims₄.submissions, hsubmitted₃]
      exact hclaims₂.submissions.trans (hclaims.submissions.trans hclaims₁.submissions)
    rw [← hsame]
  · have hx₃ : db₃.HoldsSlot x := by
      rw [Database.holdsSlot_iff, ← hclaims₄.slots]
      exact (Database.holdsSlot_iff _ _).mp hx
    refine (hslots₃ x hx₃).imp_right fun hx₂ => ?_
    rw [Database.holdsSlot_iff, ← hclaims₁.slots, ← hclaims.slots, ← hclaims₂.slots]
    exact (Database.holdsSlot_iff _ _).mp hx₂
  · change db₄.standing x = _
    rw [hstanding₄, hstanding₃, Database.standing_appendHistory, hstanding₂, hstanding, hstanding₁]
    by_cases hx : x = s.invocation.invocationId
    · simp [hx, Standing.enter, historyRow]
    · simp [hx, historyRow]

/-- A committed submission was new: no table had rows under its id. -/
theorem submitBody_ok (h : submitBody env s db = .ok (some db')) :
    db.submissionPublications.lookup s.invocation.invocationId = none ∧
      occupied db s.invocation.invocationId = false ∧
      acceptSubmission env s db = .ok db' := by
  obtain ⟨_, -, h⟩ := bind_eq_ok.mp h
  split at h
  · cases h
  · obtain ⟨_, -, h⟩ := bind_eq_ok.mp h
    split at h
    · cases h
    · split at h
      · cases h
      · cases h
    · rename_i hnew
      split at h
      · cases h
      · rename_i hfree
        obtain ⟨accepted, haccept, h⟩ := bind_eq_ok.mp h
        cases h
        exact ⟨hnew, by simpa using hfree, haccept⟩

end Committed

end Rustvello.Sqlite
