import Rustvello.Redis.Server

/-!
# Clients of the Redis server

`RedisBroker` (`broker.rs`) and `RedisPublication` (`publication.rs`) of
`rustvello-redis` as programs over the requests they send.  Between two requests of one
operation any other operation may run: a sequence number is drawn before the script that
uses it, and a status change is computed from a record that the script compares again.

* `routeInvocationWithOptions`, `popMatching` — the broker;
* `submit`, `change` — the publication;
* `redisMachine` — any number of these on one server.
-/

namespace Rustvello.Redis

open Concurrency Proto Rustvello.Core Keyspace

/-- An operation of a client: it can fail. -/
abbrev RedisM (α : Type) := ExceptT RustvelloError (Prog server) α

def request (c : RedisCall) : RedisM c.Ans :=
  Prog.ask (I := server) c

/-- A check made by the client itself. -/
def checked {α : Type} (result : RustvelloResult α) : RedisM α :=
  ExceptT.mk (pure result)

structure RedisOptions where
  deliveryLeaseMs : Nat := 5000
  maxQueueRows : Nat := 10000
  maxPayloadBytes : Nat := 65536

/-- The shared pool: its options, and how long the JSON texts of payloads are. -/
structure RedisPool where
  options : RedisOptions := {}
  submissionBytes : SubmissionIdentity → Nat
  errorBytes : TaskError → Nat

variable (pool : RedisPool)

/-! ## Broker -/

/-- Draw the next sequence number. -/
def nextSequence : RedisM Nat := do
  checked (← request .incrSequence)

def capacityReached : RustvelloError :=
  .configuration "Redis queue admission capacity reached"

def routeInvocationWithOptions (id : InvocationId) (taskId : Option TaskId) (queueName : String)
    (priority : F64) : RedisM Unit := do
  let route ← checked (ValidRoute.check queueName priority)
  let sequence ← nextSequence
  if i64Max.toNat < sequence then
    throw (.stateBackend "Redis broker sequence exhausted")
  else
    let accepted ← request (.route ⟨id, sequence, taskId, route, pool.options.maxQueueRows⟩)
    if accepted then pure () else throw capacityReached

def defaultQueue : String := "default"

def routeInvocation (id : InvocationId) : RedisM Unit :=
  routeInvocationWithOptions pool id none defaultQueue (.finite 0)

def routeInvocationForTask (id : InvocationId) (taskId : TaskId) : RedisM Unit :=
  routeInvocationWithOptions pool id (some taskId) defaultQueue (.finite 0)

def popMatching (route : ValidRoute) (mode : PopMode) : RedisM (Option InvocationId) := do
  let now ← request .utcNow
  let member ← request
    (.pop ⟨route, mode, timestampMillis now, pool.options.deliveryLeaseMs⟩)
  pure (member.map fun member => ⟨String.ofList (memberId member)⟩)

def retrieveInvocationFromQueue (queueName : String) (taskId : Option TaskId) :
    RedisM (Option InvocationId) := do
  let route ← checked (ValidRoute.check queueName (.finite 0))
  match taskId with
  | some taskId => popMatching pool route (.task taskId)
  | none => popMatching pool route .all

def retrieveInvocationForLanguageFromQueue (language : TaskLanguage) (queueName : String) :
    RedisM (Option InvocationId) := do
  let route ← checked (ValidRoute.check queueName (.finite 0))
  popMatching pool route (.language language)

/-! ## Submission -/

def historyEntry (id : InvocationId) (record : InvocationStatusRecord) (runner : RunnerId) :
    InvocationHistory :=
  (InvocationHistory.new id record none).withRunner runner

def validateRoute (route : PublicationRoute) : RustvelloResult ValidRoute := do
  let valid ← ValidRoute.check route.queue route.priority
  if 256 < route.queue.utf8ByteSize then
    .error (.configuration "queue name exceeds 256 bytes")
  else .ok valid

/-- The answers of the submission script. -/
def submitAnswer : Int → RustvelloResult Bool
  | 1 => .ok true
  | 0 => .ok false
  | -2 => .error (.configuration "submission ID was removed; use a fresh ID")
  | -3 => .error (.configuration
      "submission ID already accepted with different content or lineage")
  | -4 => .error capacityReached
  | -5 => .error (.configuration "call identity already has different content")
  | -6 => .error (.configuration
      "submission ID belongs to a legacy invocation; use a fresh ID")
  | _ => .error (.configuration "unexpected Redis publication response")

def submit (s : SubmissionPublication) : RedisM Bool := do
  let route ← checked (validateRoute s.route)
  if s.invocation.taskId ≠ s.call.taskId ∨ s.invocation.callId ≠ s.call.callId then
    throw (.configuration "invocation and call identities differ")
  else if pool.options.maxPayloadBytes < pool.submissionBytes (submissionIdentity s) then
    throw (.configuration "submission exceeds payload limit")
  else
    let now ← request .utcNow
    let record : InvocationStatusRecord := ⟨.registered, some s.runnerId, now⟩
    let sequence ← nextSequence
    let code ← request (.submit
      { submission := s
        route := route
        sequence := sequence
        record := record
        history := historyEntry s.invocation.invocationId record s.runnerId
        maxQueueRows := pool.options.maxQueueRows })
    checked (submitAnswer code)

/-! ## Status changes -/

/-- Status record and invocation, both needed. -/
def current (id : InvocationId) : RedisM (InvocationStatusRecord × InvocationDTO) := do
  match ← request (.getCurrent id) with
  | (none, _) => throw (.invocationNotFound id)
  | (some _, none) => throw (.configuration "invocation state is incomplete")
  | (some status, some invocation) => pure (status, invocation)

/-- One transition, at the clock of this moment. -/
def transition (id : InvocationId) (old : InvocationStatusRecord) (status : InvocationStatus)
    (runner : RunnerId) : RedisM InvocationStatusRecord := do
  let now ← request .utcNow
  match statusRecordTransition now (some old) status (some runner) with
  | .error e => throw (statusMachineErrorToRustvello e id old.status)
  | .ok record => pure record

/-- The heartbeat a recovery decides on, and when the owner was last seen. -/
def lastSeen (old : InvocationStatusRecord) (expected : InvocationStatus) :
    RedisM (Option (RunnerId × Option Timestamp) × Option Timestamp) :=
  if expected = .pending then pure (none, some old.timestamp)
  else do
    let key := old.runnerId.getD ⟨""⟩
    let value ← request (.getHeartbeat key)
    pure (some (key, value), value)

/-- The transitions of a change that makes two, and the heartbeat it relies on; `none` when
there is nothing to recover. -/
def prepare (id : InvocationId) (runner : RunnerId) (old : InvocationStatusRecord)
    (change : PublicationChange) :
    RedisM (Option (List InvocationStatusRecord × Option (RunnerId × Option Timestamp))) :=
  match change with
  | .recover status staleAfterSeconds _ =>
      match takenOverFrom status with
      | none => throw (.configuration "invalid recovery status")
      | some expected =>
          if old.status ≠ expected then pure none
          else do
            let now ← request .utcNow
            let cutoff := now - (min staleAfterSeconds 31536000 : Nat) * 1000000000
            let (heartbeat, seen) ← lastSeen old expected
            if seen.any fun timestamp => decide (cutoff ≤ timestamp) then pure none
            else
              let recovery ← transition id old status runner
              let rerouted ← transition id recovery .rerouted runner
              pure (some ([recovery, rerouted], heartbeat))
  | .concurrencyReroute _ => do
      let controlled ← transition id old .concurrencyControlled runner
      let rerouted ← transition id controlled .rerouted runner
      pure (some ([controlled, rerouted], none))
  | _ => pure (some ([], none))

/-- Completion payloads need the running owner. -/
def checkOwner (id : InvocationId) (runner : RunnerId) (old : InvocationStatusRecord)
    (change : PublicationChange) : RustvelloResult Unit :=
  if hasPayload change = true ∧ (old.status ≠ .running ∨ old.runnerId ≠ some runner) then
    .error (.ownershipViolation id old.status (targetOf change)
      ((old.runnerId.map RunnerId.raw).getD "") runner.raw
      "completion requires current Running ownership")
  else .ok ()

def payloadOf : PublicationChange → Payload
  | .success result => .result result
  | .failure error => .error error
  | _ => .none

def payloadBytes : Payload → Nat
  | .none => 0
  | .result result => result.utf8ByteSize
  | .error error => pool.errorBytes error

/-- The route of a change, checked. -/
def checkedRoute (change : PublicationChange) : RustvelloResult (Option ValidRoute) :=
  match routeOf change with
  | none => .ok none
  | some route => (validateRoute route).map some

/-- What the answer of the change script means; `none` is another attempt. -/
def changeAnswer (change : PublicationChange) (record : InvocationStatusRecord) :
    Int → RustvelloResult (Option (Option InvocationStatusRecord))
  | 1 => .ok (some (some record))
  | 0 =>
      match change with
      | .recover _ _ _ => .ok (some none)
      | _ => .ok none
  | -2 => .ok (some none)
  | -4 => .error capacityReached
  | _ => .error (.configuration "unexpected Redis transition response")

/-- Send the change with its route; only a routed change draws a sequence number. -/
def sendChange (args : Option (ValidRoute × Nat) → ChangeArgs) :
    Option ValidRoute → RedisM Int
  | none => request (.change (args none))
  | some route => do
      let sequence ← nextSequence
      request (.change (args (some (route, sequence))))

/-- One attempt of a change; `none` when the record changed meanwhile. -/
def changeAttempt (id : InvocationId) (runner : RunnerId) (change : PublicationChange)
    (autoPurge : Bool) : RedisM (Option (Option InvocationStatusRecord)) := do
  let (old, invocation) ← current id
  match ← prepare id runner old change with
  | none => pure (some none)
  | some (prepared, heartbeat) =>
      checked (checkOwner id runner old change)
      let records ← match prepared with
        | [] => do
            let record ← transition id old (targetOf change) runner
            pure [record]
        | _ => pure prepared
      let final := records.getLast?.getD old
      if pool.options.maxPayloadBytes < payloadBytes pool (payloadOf change) then
        throw (.configuration "completion payload exceeds limit")
      else
        let route ← checked (checkedRoute change)
        let code ← sendChange
          (fun route =>
            { id := id
              old := old
              record := final
              invocation :=
                { invocation with status := final.status, updatedAt := final.timestamp }
              histories := records.map fun record => historyEntry id record runner
              payload := payloadOf change
              countsRetry := match change with
                | .retry _ => true
                | _ => false
              autoPurge := autoPurge
              route := route
              maxQueueRows := pool.options.maxQueueRows
              heartbeat := heartbeat })
          route
        checked (changeAnswer change final code)

/-- Attempts until the record holds still. -/
def changeLoop (id : InvocationId) (runner : RunnerId) (change : PublicationChange)
    (autoPurge : Bool) : Nat → RedisM (Option InvocationStatusRecord)
  | 0 => throw (.configuration "status changed concurrently")
  | attempts + 1 => do
      match ← changeAttempt pool id runner change autoPurge with
      | some answer => pure answer
      | none => changeLoop id runner change autoPurge attempts

def change (id : InvocationId) (runner : RunnerId) (change : PublicationChange)
    (autoPurge : Bool) : RedisM (Option InvocationStatusRecord) :=
  match change with
  | .delayedRetry _ _ => throw (.notSupported "redis" "durable delayed retry publication")
  | _ => changeLoop pool id runner change autoPurge 8

/-! ## Any number of clients -/

/-- An operation as it is started. -/
inductive Request where
  | routeInvocation (id : InvocationId)
  | routeInvocationForTask (id : InvocationId) (taskId : TaskId)
  | routeInvocationWithOptions (id : InvocationId) (taskId : Option TaskId) (queueName : String)
      (priority : F64)
  | retrieveInvocationFromQueue (queueName : String) (taskId : Option TaskId)
  | retrieveInvocationForLanguageFromQueue (language : TaskLanguage) (queueName : String)
  | submit (submission : SubmissionPublication)
  | change (id : InvocationId) (runner : RunnerId) (change : PublicationChange)
      (autoPurge : Bool)

def Request.program : Request → Prog server Unit
  | routeInvocation id => (Redis.routeInvocation pool id).run.toUnit
  | routeInvocationForTask id taskId => (Redis.routeInvocationForTask pool id taskId).run.toUnit
  | routeInvocationWithOptions id taskId queueName priority =>
      (Redis.routeInvocationWithOptions pool id taskId queueName priority).run.toUnit
  | retrieveInvocationFromQueue queueName taskId =>
      (Redis.retrieveInvocationFromQueue pool queueName taskId).run.toUnit
  | retrieveInvocationForLanguageFromQueue language queueName =>
      (Redis.retrieveInvocationForLanguageFromQueue pool language queueName).run.toUnit
  | submit submission => (Redis.submit pool submission).run.toUnit
  | change id runner requested autoPurge =>
      (Redis.change pool id runner requested autoPurge).run.toUnit

def redisMachine (fmt : ScoreFormat) : Machine server Keyspace Env Request where
  exec := exec fmt
  program := Request.program pool

/-- The empty server before the first operation. -/
def redisStart : System server Keyspace Request :=
  ⟨{}, []⟩

end Rustvello.Redis
