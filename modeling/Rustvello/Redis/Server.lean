import Mathlib.Data.List.Sort
import Rustvello.Core.Environment
import Rustvello.Core.Publication
import Rustvello.Text.Fields

/-!
# The Redis server

The keys of `rustvello-redis` below one application prefix, and the Lua scripts that
change them.  A script is atomic.

* `Keyspace` — the keys of broker, orchestrator, state backend and publication;
* `routeScript`, `popScript` — the scripts of `broker.rs`;
* `submitScript`, `changeScript` — the scripts of `publication.rs`;
* `RedisCall`, `exec` — everything a client can ask of the server, as one interface.

Broker keys hold words, because the scripts take them apart again; JSON texts hold the
value they encode.  A key that does not exist is an empty set or hash.
-/

namespace Rustvello.Redis

open Concurrency Proto Rustvello.Core Text

/-- A string of the server. -/
abbrev Word := List Char

/-- `\31` -/
def unitSeparator : Char := Char.ofNat 31

def idWord (id : InvocationId) : Word :=
  id.raw.toList

/-- The task of a queue entry; without a task id it is empty. -/
def taskWord (taskId : Option TaskId) : Word :=
  (taskId.map fun t => t.toText.toList).getD []

/-- A queue name and a priority that `validate_routing` accepted. -/
structure ValidRoute where
  queue : String
  priority : F64
  valid : validateRouting queue priority = .ok ()
deriving DecidableEq

def ValidRoute.check (queue : String) (priority : F64) : RustvelloResult ValidRoute :=
  match h : validateRouting queue priority with
  | .error e => .error e
  | .ok () => .ok ⟨queue, priority, h⟩

def ValidRoute.queueWord (route : ValidRoute) : Word :=
  route.queue.toList

/-- How the server writes a score (`ZSCORE`) and Lua reads it back (`tonumber`). -/
structure ScoreFormat where
  text : F64 → Word
  number : Word → F64
  number_text : ∀ p, validPriority p = true → number (text p) = p
  text_ne_nil : ∀ p, text p ≠ []
  separator_notMem_text : ∀ p, unitSeparator ∉ text p

/-! ## Members

The member of a queue entry is a descending sequence number, a colon and the id. -/

/-- `{:019}` -/
def padded (n : Nat) : Word :=
  (Nat.toDigits 10 n).leftpad 19 '0'

def queueMember (sequence : Nat) (id : InvocationId) : Word :=
  padded (i64Max.toNat - min sequence i64Max.toNat) ++ ':' :: idWord id

/-- The id in a member: everything after the first colon. -/
def memberId (member : Word) : Word :=
  afterFirst ':' member

/-! ## Sorted sets -/

section SortedSets

variable {S : Type} [DecidableEq S]

/-- Order of a sorted set: by score, then by member. -/
def ranksBelow (le : S → S → Bool) (a b : (_ : Word) × S) : Prop :=
  le b.2 a.2 = false ∨ le a.2 b.2 = true ∧ a.1 ≤ b.1

instance (le : S → S → Bool) : DecidableRel (ranksBelow le) :=
  fun _ _ => inferInstanceAs (Decidable (_ ∨ _ ∧ _))

/-- `ZRANGE 0 -1` -/
def zrange (le : S → S → Bool) (set : Table Word S) : List Word :=
  (set.entries.insertionSort (ranksBelow le)).map Sigma.fst

end SortedSets

/-- `ZREVRANGE 0 -1` of a queue. -/
def zrevrange (queue : Table Word F64) : List Word :=
  (zrange F64.numericLe queue).reverse

/-- `ZRANGEBYSCORE -inf max` of the leases. -/
def zrangebyscore (leases : Table Word Int) (max : Int) : List Word :=
  (zrange (fun a b => decide (a ≤ b)) leases).filter fun member =>
    (leases.lookup member).any fun score => score ≤ max

/-! ## Keys -/

structure Keyspace where
  /-- `broker:sequence` -/
  sequence : Nat := 0
  /-- `broker:queue:<queue>`: members by priority. -/
  queues : Word → Table Word F64 := fun _ => ∅
  /-- `broker:metadata:<queue>`: the task of each member. -/
  metadata : Word → Table Word Word := fun _ => ∅
  /-- `broker:queued_by_inv`: queue and member of a queued invocation. -/
  queuedByInv : Table Word Word := ∅
  /-- `broker:leases`: members by the end of their lease, in milliseconds. -/
  leases : Table Word Int := ∅
  /-- `broker:lease_payload`: what a member needs to return to its queue. -/
  leasePayload : Table Word Word := ∅
  /-- `broker:leased_by_inv`: the member of a leased invocation. -/
  leasedByInv : Table Word Word := ∅
  /-- `broker:count` -/
  count : Nat := 0
  /-- `orch:status:<id>` -/
  status : Table InvocationId InvocationStatusRecord := ∅
  /-- `orch:retries:<id>` -/
  retries : Table InvocationId Nat := ∅
  /-- `orch:heartbeat:<runner>` -/
  heartbeats : Table RunnerId Timestamp := ∅
  /-- `orch:waiters:<id>`: who waits on an invocation. -/
  waiters : Table InvocationId (List InvocationId) := ∅
  /-- `orch:cc:<task, argument, value>`: who holds an argument pair. -/
  cc : Table Word (List InvocationId) := ∅
  /-- `orch:cc_rev:<id>`: the pair sets an invocation is in. -/
  ccReverse : Table InvocationId (List Word) := ∅
  /-- `orch:auto_purge:<id>` -/
  autoPurge : Table InvocationId Timestamp := ∅
  /-- `state:inv:<id>` -/
  invocations : Table InvocationId InvocationDTO := ∅
  /-- `state:call:<call id>` -/
  calls : Table CallId CallDTO := ∅
  /-- `state:history:<id>`, oldest first. -/
  histories : Table InvocationId (List InvocationHistory) := ∅
  /-- `state:result:<id>` -/
  results : Table InvocationId String := ∅
  /-- `state:error:<id>` -/
  errors : Table InvocationId TaskError := ∅
  /-- `state:wf_data:<id>` under the identity key. -/
  workflowData : Table InvocationId ExecutionAttemptIdentity := ∅
  /-- `publication:submission:<id>`; the empty identity is left by a removed one. -/
  submissions : Table InvocationId (Option SubmissionIdentity) := ∅

namespace Keyspace

/-! ## Parts of the scripts -/

section Parts

variable (ks : Keyspace)

/-- `ZADD`, `HSET` and `HSET`: put a member into a queue. -/
def enqueue (id queue member task : Word) (priority : F64) : Keyspace :=
  { ks with
    queues := Function.update ks.queues queue ((ks.queues queue).insert member priority)
    metadata := Function.update ks.metadata queue ((ks.metadata queue).insert member task)
    queuedByInv := ks.queuedByInv.insert id (join unitSeparator [queue, member]) }

/-- `ZREM` and `HDEL`: take a member out of a queue. -/
def dequeue (queue member : Word) : Keyspace :=
  { ks with
    queues := Function.update ks.queues queue ((ks.queues queue).erase member)
    metadata := Function.update ks.metadata queue ((ks.metadata queue).erase member) }

/-- Remove the queue entry that `queued_by_inv` names. -/
def removeQueued (id : Word) : Keyspace :=
  match ks.queuedByInv.lookup id with
  | none => ks
  | some queued => ks.dequeue (beforeFirst unitSeparator queued) (afterFirst unitSeparator queued)

/-- `HDEL broker:queued_by_inv` -/
def unlist (id : Word) : Keyspace :=
  { ks with queuedByInv := ks.queuedByInv.erase id }

/-- `ZREM` and `HDEL`: end a lease. -/
def endLease (member : Word) : Keyspace :=
  { ks with
    leases := ks.leases.erase member
    leasePayload := ks.leasePayload.erase member }

/-- Remove the lease that `leased_by_inv` names. -/
def removeLeased (id : Word) : Keyspace :=
  match ks.leasedByInv.lookup id with
  | none => ks
  | some leased => { ks.endLease leased with leasedByInv := ks.leasedByInv.erase id }

/-- The broker holds the invocation, queued or leased. -/
def has (id : Word) : Bool :=
  (ks.queuedByInv.lookup id).isSome || (ks.leasedByInv.lookup id).isSome

end Parts

/-! ## Broker -/

structure RouteArgs where
  id : InvocationId
  sequence : Nat
  taskId : Option TaskId
  route : ValidRoute
  maxQueueRows : Nat

/-- Replace any entry of the invocation by a new one; refused when the queue is full. -/
def routeScript (args : RouteArgs) (ks : Keyspace) : Bool × Keyspace :=
  let id := idWord args.id
  if ks.has id = false ∧ args.maxQueueRows ≤ ks.count then (false, ks)
  else
    let moved := ((ks.removeQueued id).removeLeased id).enqueue id args.route.queueWord
      (queueMember args.sequence args.id) (taskWord args.taskId) args.route.priority
    (true, if ks.has id then moved else { moved with count := ks.count + 1 })

/-- What a retrieval looks for. -/
inductive PopMode where
  | all
  | task (taskId : TaskId)
  | language (language : TaskLanguage)
deriving DecidableEq

/-- An entry without a task is for Rust workers. -/
def PopMode.accepts (task : Word) : PopMode → Bool
  | all => true
  | PopMode.task taskId => decide (task = taskId.toText.toList)
  | language l =>
      if task = [] then decide (l = .rust)
      else decide (task.take (l.asStr.toList.length + 2) = l.asStr.toList ++ [':', ':'])

/-- `id`, queue, member, task and priority of a leased entry, as one word. -/
def leaseWord (fmt : ScoreFormat) (id queue member task : Word) (priority : F64) : Word :=
  join unitSeparator [id, queue, member, task, fmt.text priority]

/-- Return an expired lease to its queue. -/
def expireLease (fmt : ScoreFormat) (ks : Keyspace) (member : Word) : Keyspace :=
  let returned := match ks.leasePayload.lookup member with
    | none => ks
    | some payload =>
        match runs unitSeparator payload with
        | [id, queue, queued, task, priority] =>
            if ks.leasedByInv.lookup id = some member then
              { ks.enqueue id queue queued task (fmt.number priority) with
                leasedByInv := ks.leasedByInv.erase id }
            else ks
        -- fewer or more fields: the entry is dropped with its lease
        | _ => ks
  returned.endLease member

def expireLeases (fmt : ScoreFormat) (now : Int) (ks : Keyspace) : Keyspace :=
  (zrangebyscore ks.leases now).foldl (expireLease fmt) ks

/-- Move a queued member to the leases. -/
def lease (fmt : ScoreFormat) (queue member : Word) (expiresAt : Int) (ks : Keyspace) :
    Keyspace :=
  let task := ((ks.metadata queue).lookup member).getD []
  let priority := ((ks.queues queue).lookup member).getD (.finite 0)
  let id := memberId member
  { ks.dequeue queue member with
    queuedByInv := ks.queuedByInv.erase id
    leases := ks.leases.insert member expiresAt
    leasePayload := ks.leasePayload.insert member (leaseWord fmt id queue member task priority)
    leasedByInv := ks.leasedByInv.insert id member }

structure PopArgs where
  queue : ValidRoute
  mode : PopMode
  now : Int
  leaseMs : Nat

/-- The member that a retrieval takes. -/
def candidate (args : PopArgs) (ks : Keyspace) : Option Word :=
  (zrevrange (ks.queues args.queue.queueWord)).find? fun member =>
    args.mode.accepts (((ks.metadata args.queue.queueWord).lookup member).getD [])

/-- Return what has expired, then lease the first matching entry. -/
def popScript (fmt : ScoreFormat) (args : PopArgs) (ks : Keyspace) : Option Word × Keyspace :=
  let ks := ks.expireLeases fmt args.now
  match ks.candidate args with
  | none => (none, ks)
  | some member =>
      (some member, ks.lease fmt args.queue.queueWord member (args.now + args.leaseMs))

/-! ## Publication -/

/-- `orch:cc:` key of one argument pair. -/
def ccKey (taskId : TaskId) (pair : String × String) : Word :=
  join unitSeparator [taskId.toText.toList, pair.1.toList, pair.2.toList]

/-- `SADD` -/
def sadd {K A : Type} [DecidableEq K] [DecidableEq A] (sets : Table K (List A)) (key : K) (a : A) :
    Table K (List A) :=
  let old := (sets.lookup key).getD []
  sets.insert key (if a ∈ old then old else old ++ [a])

/-- `SREM`; an emptied set is no key any more. -/
def srem {K A : Type} [DecidableEq K] [DecidableEq A] (sets : Table K (List A)) (key : K) (a : A) :
    Table K (List A) :=
  match sets.lookup key with
  | none => sets
  | some old =>
      let rest := old.filter fun b => b ≠ a
      if rest = [] then sets.erase key else sets.insert key rest

/-- `RPUSH` to a history. -/
def pushHistory (ks : Keyspace) (id : InvocationId) (history : InvocationHistory) : Keyspace :=
  { ks with
    histories := ks.histories.insert id ((ks.histories.lookup id).getD [] ++ [history]) }

/-- Enter an invocation under its argument pairs, in both directions. -/
def indexPairs (ks : Keyspace) (id : InvocationId) (taskId : TaskId)
    (pairs : List (String × String)) : Keyspace :=
  { ks with
    cc := pairs.foldl (fun sets pair => sadd sets (ccKey taskId pair) id) ks.cc
    ccReverse := pairs.foldl (fun sets pair => sadd sets id (ccKey taskId pair)) ks.ccReverse }

/-- Remove an invocation from every pair set of its reverse set. -/
def unindexPairs (ks : Keyspace) (id : InvocationId) : Keyspace :=
  { ks with
    cc := ((ks.ccReverse.lookup id).getD []).foldl (fun sets key => srem sets key id) ks.cc
    ccReverse := ks.ccReverse.erase id }

structure SubmitArgs where
  submission : SubmissionPublication
  route : ValidRoute
  sequence : Nat
  record : InvocationStatusRecord
  history : InvocationHistory
  maxQueueRows : Nat

/-- Some key of the state already belongs to this id. -/
def occupied (ks : Keyspace) (id : InvocationId) : Bool :=
  (ks.invocations.lookup id).isSome || (ks.status.lookup id).isSome ||
    (ks.histories.lookup id).isSome || (ks.results.lookup id).isSome ||
    (ks.errors.lookup id).isSome || (ks.workflowData.lookup id).isSome

/-- Why a submission is not accepted: the answer of the script. -/
def submitRefusal (args : SubmitArgs) (ks : Keyspace) : Option Int :=
  let id := args.submission.invocation.invocationId
  match ks.submissions.lookup id with
  | some none => some (-2)
  | some (some existing) =>
      if existing ≠ submissionIdentity args.submission then some (-3) else some 0
  | none =>
      if ks.occupied id then some (-6)
      else if (ks.calls.lookup args.submission.call.callId).any
          fun call => decide (call ≠ args.submission.call) then some (-5)
      else if args.maxQueueRows ≤ ks.count then some (-4)
      else none

/-- The writes of an accepted submission. -/
def acceptSubmission (args : SubmitArgs) (ks : Keyspace) : Keyspace :=
  let s := args.submission
  let id := s.invocation.invocationId
  let ks := { ks with
    invocations := ks.invocations.insert id s.invocation
    calls := ks.calls.insert s.call.callId s.call
    status := ks.status.insert id args.record }
  let ks := ks.pushHistory id args.history
  let ks := ks.indexPairs id s.invocation.taskId
    ((s.ccArguments.map SerializedArguments.ccArgPairs).getD [])
  let ks := ks.enqueue (idWord id) args.route.queueWord (queueMember args.sequence id)
    (taskWord (some s.invocation.taskId)) args.route.priority
  { ks with
    count := ks.count + 1
    submissions := ks.submissions.insert id (some (submissionIdentity s)) }

def submitScript (args : SubmitArgs) (ks : Keyspace) : Int × Keyspace :=
  match submitRefusal args ks with
  | some code => (code, ks)
  | none => (1, acceptSubmission args ks)

/-- Result or error that a change stores. -/
inductive Payload where
  | none
  | result (result : String)
  | error (error : TaskError)
deriving DecidableEq

structure ChangeArgs where
  id : InvocationId
  /-- The record the change was computed from. -/
  old : InvocationStatusRecord
  record : InvocationStatusRecord
  invocation : InvocationDTO
  /-- One entry for each transition. -/
  histories : List InvocationHistory
  payload : Payload
  countsRetry : Bool
  autoPurge : Bool
  /-- The route of the change and the sequence number of its new entry. -/
  route : Option (ValidRoute × Nat)
  maxQueueRows : Nat
  /-- The heartbeat that a recovery saw. -/
  heartbeat : Option (RunnerId × Option Timestamp)

/-- Why a change is not carried out: the answer of the script. -/
def changeRefusal (args : ChangeArgs) (ks : Keyspace) : Option Int :=
  if ks.status.lookup args.id ≠ some args.old then some 0
  else if args.heartbeat.any fun seen => decide (ks.heartbeats.lookup seen.1 ≠ seen.2) then
    some (-2)
  else if args.route.isSome ∧ ks.has (idWord args.id) = false ∧ args.maxQueueRows ≤ ks.count then
    some (-4)
  else none

/-- The broker part of a change: the old entry goes, and a routed change brings a new one. -/
def moveDelivery (args : ChangeArgs) (ks : Keyspace) : Keyspace :=
  let id := idWord args.id
  let removed := ((ks.removeQueued id).unlist id).removeLeased id
  match args.route with
  | none => { removed with count := if ks.has id then ks.count - 1 else ks.count }
  | some (route, sequence) =>
      { removed.enqueue id route.queueWord (queueMember sequence args.id)
          (taskWord (some args.invocation.taskId)) route.priority with
        count := if ks.has id then ks.count else ks.count + 1 }

/-- Waiters, argument pairs and purge of an invocation that ends. -/
def writeTerminal (args : ChangeArgs) (ks : Keyspace) : Keyspace :=
  if args.record.status.isTerminal then
    let ks := { ks with waiters := ks.waiters.erase args.id }.unindexPairs args.id
    if args.autoPurge then
      { ks with autoPurge := ks.autoPurge.insert args.id args.record.timestamp }
    else ks
  else ks

def writePayload (args : ChangeArgs) (ks : Keyspace) : Keyspace :=
  match args.payload with
  | .none => ks
  | .result result => { ks with results := ks.results.insert args.id result }
  | .error error => { ks with errors := ks.errors.insert args.id error }

/-- The writes of a change that is carried out. -/
def applyChange (args : ChangeArgs) (ks : Keyspace) : Keyspace :=
  let ks := ks.moveDelivery args
  let ks := { ks with
    status := ks.status.insert args.id args.record
    invocations := ks.invocations.insert args.id args.invocation }
  let ks := args.histories.foldl (fun ks history => ks.pushHistory args.id history) ks
  let ks := ks.writePayload args
  let ks := if args.countsRetry then
      { ks with retries := ks.retries.insert args.id ((ks.retries.lookup args.id).getD 0 + 1) }
    else ks
  ks.writeTerminal args

def changeScript (args : ChangeArgs) (ks : Keyspace) : Int × Keyspace :=
  match changeRefusal args ks with
  | some code => (code, ks)
  | none => (1, applyChange args ks)

end Keyspace

/-! ## The server as an interface -/

/-- What a client asks of the server; each request is atomic. -/
inductive RedisCall where
  | utcNow
  /-- `INCR broker:sequence` -/
  | incrSequence
  /-- Two `GET`s in one pipeline: status record and invocation. -/
  | getCurrent (id : InvocationId)
  | getHeartbeat (runnerId : RunnerId)
  | route (args : Keyspace.RouteArgs)
  | pop (args : Keyspace.PopArgs)
  | submit (args : Keyspace.SubmitArgs)
  | change (args : Keyspace.ChangeArgs)

abbrev RedisCall.Ans : RedisCall → Type
  | utcNow => Timestamp
  | incrSequence => RustvelloResult Nat
  | getCurrent _ => Option InvocationStatusRecord × Option InvocationDTO
  | getHeartbeat _ => Option Timestamp
  | route _ => Bool
  | pop _ => Option Word
  | submit _ => Int
  | change _ => Int

abbrev server : Interface :=
  ⟨RedisCall, RedisCall.Ans⟩

/-- `INCR`, which fails at the end of the 64-bit range. -/
def Keyspace.incrSequence (ks : Keyspace) : RustvelloResult Nat × Keyspace :=
  if i64Max.toNat ≤ ks.sequence then
    (.error (.stateBackend "Redis: increment or decrement would overflow"), ks)
  else (.ok (ks.sequence + 1), { ks with sequence := ks.sequence + 1 })

def exec (fmt : ScoreFormat) (env : Env) : (c : RedisCall) → Keyspace → c.Ans × Keyspace
  | .utcNow, ks => (env.clock, ks)
  | .incrSequence, ks => ks.incrSequence
  | .getCurrent id, ks => ((ks.status.lookup id, ks.invocations.lookup id), ks)
  | .getHeartbeat runnerId, ks => (ks.heartbeats.lookup runnerId, ks)
  | .route args, ks => ks.routeScript args
  | .pop args, ks => ks.popScript fmt args
  | .submit args, ks => ks.submitScript args
  | .change args, ks => ks.changeScript args

end Rustvello.Redis
