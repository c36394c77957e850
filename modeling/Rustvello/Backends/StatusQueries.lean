import Rustvello.Backends.Blocking
import Rustvello.Query.Pages
import Rustvello.Redis.StatusCas

/-!
# Status queries on three backends

`count_invocations` and `get_invocation_ids_paginated` of the in-memory, the SQLite and the
Redis orchestrator, after the same registrations, status changes and removals.

* `Stored` — the invocations that exist, with their task and status record;
* `StatusQuery`, `matching` — an optional task and an optional list of statuses, and the
  invocations that a query asks for;
* `StatusCall` — what is called, on each backend;
* `Same` — each backend holds what exists, and Redis lists it under its task;
* `Agree` — the counts are the number of matching invocations, the pages list each of them
  once, and are the same in memory and in SQLite;
* `Regular`, `statusQueries_agree_iff` — when they do.

Three readings differ.  SQLite takes an empty list of statuses for no list; Redis lists an
invocation under its task when it is removed, too; and SQLite gives the rows in the order in
which it visits them, not sorted.

A task stands for its text, which is the key of the sets of tasks.  `SCAN` and `SMEMBERS` of
keys that do not change are taken to give every entry once, in an order of the server's, and
the lists of statuses to fit into one statement.
-/

namespace Rustvello.Backends

open Proto Rustvello.Core Mem Query

/-! ## What exists -/

/-- The invocations that exist, with task and status record. -/
abbrev Stored := Table InvocationId (TaskId × InvocationStatusRecord)

/-- An optional task and an optional list of statuses. -/
structure StatusQuery where
  taskId : Option TaskId
  statuses : Option (List InvocationStatus)
deriving DecidableEq

namespace StatusQuery

/-- The status is one of the list, if there is a list. -/
def allows (query : StatusQuery) (status : InvocationStatus) : Bool :=
  match query.statuses with
  | none => true
  | some statuses => decide (status ∈ statuses)

/-- The task is the one asked for, if there is one. -/
def asksFor (query : StatusQuery) (taskId : TaskId) : Bool :=
  match query.taskId with
  | none => true
  | some wanted => decide (taskId = wanted)

end StatusQuery

/-- The existing invocations that a query asks for. -/
def matching (stored : Stored) (query : StatusQuery) : List InvocationId :=
  (stored.entries.filter fun entry =>
    query.asksFor entry.2.1 && query.allows entry.2.2.status).map Sigma.fst

/-- What is called, each at its instant. -/
inductive StatusCall where
  | register (now : Timestamp) (id : InvocationId) (call : CallDTO) (runnerId : Option RunnerId)
  | setStatus (now : Timestamp) (id : InvocationId) (status : InvocationStatus)
      (runnerId : Option RunnerId)
  | remove (id : InvocationId)

/-- What the calls are for. -/
def Stored.apply (stored : Stored) : StatusCall → Stored
  | .register now id call runnerId =>
      stored.insert id (call.taskId, ⟨.registered, runnerId, now⟩)
  | .setStatus now id status runnerId =>
      match stored.lookup id with
      | none => stored
      | some (taskId, current) =>
          match statusRecordTransition now (some current) status runnerId with
          | .error _ => stored
          | .ok record => stored.insert id (taskId, record)
  | .remove id => stored.erase id

/-! ## The backends -/

section Memory

variable (s : OrchestratorState) (query : StatusQuery)

/-- The filter that both methods of `MemOrchestrator` apply. -/
def memMatches (id : InvocationId) (record : InvocationStatusRecord) : Bool :=
  query.allows record.status &&
    match query.taskId with
    | none => true
    | some taskId => decide (id ∈ (s.taskInvocations.lookup taskId).getD ∅)

def memIds : List InvocationId :=
  (s.statusRecords.entries.filter fun entry => memMatches s query entry.1 entry.2).map Sigma.fst

def memCount : Nat :=
  (s.statusRecords.entries.filter fun entry => memMatches s query entry.1 entry.2).length

/-- `ids.sort()` -/
def sortIds (ids : List InvocationId) : List InvocationId :=
  ids.mergeSort fun a b => decide (a.raw ≤ b.raw)

def memPage (limit offset : Nat) : List InvocationId :=
  page limit offset (sortIds (memIds s query))

end Memory

section Sqlite

variable (db : Sqlite.Database) (query : StatusQuery)

/-- The `WHERE` clauses: an empty list of statuses adds none. -/
def sqliteMatches (id : InvocationId) (record : InvocationStatusRecord) : Bool :=
  (match query.taskId with
    | none => true
    | some taskId => (db.invocations.lookup id).any fun row => decide (row.taskId = taskId)) &&
  match query.statuses with
    | none => true
    | some [] => true
    | some statuses => decide (record.status ∈ statuses)

def sqliteCount : Nat :=
  (db.statusRecords.entries.filter fun entry => sqliteMatches db query entry.1 entry.2).length

/-- The rows of `status_records`, in the order in which a statement visits them. -/
def visitedRows (visited : List InvocationId) : List InvocationId :=
  arrange visited db.statusRecords.keys

def sqliteIds (visited : List InvocationId) : List InvocationId :=
  (visitedRows db visited).filter fun id =>
    (db.statusRecords.lookup id).any (sqliteMatches db query id)

/-- `LIMIT` and `OFFSET` are bound as texts, which have to be integers of SQLite. -/
def sqlitePage (visited : List InvocationId) (limit offset : Nat) :
    RustvelloResult (List InvocationId) :=
  if limit < 2 ^ 63 ∧ offset < 2 ^ 63 then .ok (page limit offset (sqliteIds db query visited))
  else .error (.stateBackend "SQLite error: datatype mismatch")

end Sqlite

/-- The keys of Redis, and the invocations listed under each task (`orch:task_inv:<task>`). -/
structure RedisStatus where
  keys : Redis.Keyspace := {}
  taskInv : Table TaskId (List InvocationId) := ∅

namespace RedisStatus

variable (s : RedisStatus) (query : StatusQuery)

def listedUnder (taskId : TaskId) : List InvocationId :=
  (s.taskInv.lookup taskId).getD []

/-- `SMEMBERS` of a task, or `SCAN` for the status keys. -/
def candidates : List InvocationId :=
  match query.taskId with
  | some taskId => s.listedUnder taskId
  | none => s.keys.status.keys

/-- Without a list of statuses the candidates are not looked up. -/
def ids : List InvocationId :=
  match query.statuses with
  | none => s.candidates query
  | some statuses => (s.candidates query).filter fun id =>
      (s.keys.status.lookup id).any fun record => decide (record.status ∈ statuses)

def count : Nat :=
  (s.ids query).length

def page (order : List InvocationId) (limit offset : Nat) : List InvocationId :=
  Query.page limit offset (arrange order (s.ids query))

/-- `register_invocation_with_id`: `SET NX`, and the indexes if it has set. -/
def register (now : Timestamp) (id : InvocationId) (call : CallDTO)
    (runnerId : Option RunnerId) : RedisStatus :=
  match s.keys.status.lookup id with
  | some _ => s
  | none =>
      { keys := { s.keys with status := s.keys.status.insert id ⟨.registered, runnerId, now⟩ }
        taskInv := Redis.Keyspace.sadd s.taskInv call.taskId id }

/-- `set_invocation_status` with nobody else writing; `none` where its loop does not end. -/
def setStatus (fmt : Redis.StatusCas.RecordFormat) (now : Timestamp) (id : InvocationId)
    (status : InvocationStatus) (runnerId : Option RunnerId) : Option RedisStatus :=
  match s.keys.status.lookup id with
  | none => some s
  | some current =>
      match statusRecordTransition now (some current) status runnerId with
      | .error _ => some s
      | .ok record =>
          let answer := Redis.StatusCas.casScript fmt id current.status.toName record s.keys.status
          match answer.1 with
          | .error _ => some s
          | .ok 1 => some { s with keys := { s.keys with status := answer.2 } }
          | .ok _ => none

/-- `remove_invocation` leaves the invocation listed under its task. -/
def remove (id : InvocationId) : RedisStatus :=
  let keys := { s.keys with status := s.keys.status.erase id }.unindexPairs id
  { s with keys := { keys with
      retries := keys.retries.erase id
      waiters := keys.waiters.erase id } }

end RedisStatus

def StatusCall.inMemory (s : OrchestratorState) : StatusCall → OrchestratorState
  | register now id call runnerId => (s.registerInvocationWithId now id call runnerId).2
  | setStatus now id status runnerId => (s.setInvocationStatus now id status runnerId).2
  | remove id => removeInvocation s id

def StatusCall.inSqlite (db : Sqlite.Database) : StatusCall → Sqlite.Database
  | register now id call runnerId => (db.registerInvocationWithId now id call runnerId).2
  | setStatus now id status runnerId => (db.setInvocationStatus now id status runnerId).2
  | remove id => db.removeInvocation id

def StatusCall.onRedis (fmt : Redis.StatusCas.RecordFormat) (s : RedisStatus) :
    StatusCall → Option RedisStatus
  | register now id call runnerId => some (s.register now id call runnerId)
  | setStatus now id status runnerId => s.setStatus fmt now id status runnerId
  | remove id => some (s.remove id)

/-- The three backends beside what exists. -/
structure Backings where
  stored : Stored := ∅
  memory : OrchestratorState := {}
  sqlite : Sqlite.Database := {}
  redis : RedisStatus := {}

/-- A call that returns on all backends. -/
def Backings.step (fmt : Redis.StatusCas.RecordFormat) (b : Backings) (c : StatusCall) :
    Option Backings :=
  (c.onRedis fmt b.redis).map fun redis =>
    ⟨b.stored.apply c, c.inMemory b.memory, c.inSqlite b.sqlite, redis⟩

def Backings.run (fmt : Redis.StatusCas.RecordFormat) :
    Backings → List StatusCall → Option Backings
  | b, [] => some b
  | b, c :: rest => (b.step fmt c).bind fun b' => b'.run fmt rest

/-- A registration is of an invocation that does not exist. -/
def StatusCall.Fresh (stored : Stored) : StatusCall → Prop
  | register _ id _ _ => id ∉ stored
  | _ => True

instance (stored : Stored) (c : StatusCall) : Decidable (c.Fresh stored) :=
  match c with
  | .register _ id _ _ => inferInstanceAs (Decidable (id ∉ stored))
  | .setStatus .. => instDecidableTrue
  | .remove _ => instDecidableTrue

/-- Every registration of a run is of an invocation that does not exist then. -/
def FreshRun : Stored → List StatusCall → Prop
  | _, [] => True
  | stored, c :: rest => c.Fresh stored ∧ FreshRun (stored.apply c) rest

/-! ## What the backends hold -/

/-- Each backend holds the records of what exists and knows their tasks; Redis lists them
under their tasks, and perhaps others. -/
structure Same (b : Backings) : Prop where
  memRecords : ∀ id, b.memory.statusRecords.lookup id = (b.stored.lookup id).map Prod.snd
  memTasks : ∀ id taskId, id ∈ (b.memory.taskInvocations.lookup taskId).getD ∅ ↔
    (b.stored.lookup id).map Prod.fst = some taskId
  rows : ∀ id, b.sqlite.statusRecords.lookup id = (b.stored.lookup id).map Prod.snd
  rowTasks : ∀ id, (b.sqlite.invocations.lookup id).map InvocationDTO.taskId =
    (b.stored.lookup id).map Prod.fst
  redisRecords : ∀ id, b.redis.keys.status.lookup id = (b.stored.lookup id).map Prod.snd
  redisTasks : ∀ id taskId, (b.stored.lookup id).map Prod.fst = some taskId →
    id ∈ b.redis.listedUnder taskId
  redisSets : ∀ taskId, (b.redis.listedUnder taskId).Nodup

theorem same_empty : Same {} where
  memRecords _ := rfl
  memTasks _ _ := by simp
  rows _ := rfl
  rowTasks _ := rfl
  redisRecords _ := rfl
  redisTasks _ _ h := by simp at h
  redisSets _ := List.nodup_nil

section Lookups

variable {K V : Type} [DecidableEq K]

theorem lookup_insert_eq (table : Table K V) (key k : K) (v : V) :
    (table.insert key v).lookup k = if k = key then some v else table.lookup k := by
  split
  · rename_i h
    rw [h, AList.lookup_insert]
  · rename_i h
    rw [AList.lookup_insert_ne h]

theorem lookup_erase_eq (table : Table K V) (key k : K) :
    (table.erase key).lookup k = if k = key then none else table.lookup k := by
  split
  · rename_i h
    rw [h, AList.lookup_erase]
  · rename_i h
    rw [AList.lookup_erase_ne h]

end Lookups

variable {fmt : Redis.StatusCas.RecordFormat} {b b' : Backings}

variable {id : InvocationId} {runnerId : Option RunnerId} {now : Timestamp} {c : StatusCall}

/-- The set of a task after an entry was added. -/
theorem listedUnder_register (s : RedisStatus) {call : CallDTO}
    (hnew : s.keys.status.lookup id = none) (taskId : TaskId) :
    (s.register now id call runnerId).listedUnder taskId =
      if taskId = call.taskId then
        if id ∈ s.listedUnder taskId then s.listedUnder taskId
        else s.listedUnder taskId ++ [id]
      else s.listedUnder taskId := by
  simp only [RedisStatus.register, hnew]
  unfold RedisStatus.listedUnder Redis.Keyspace.sadd
  rw [lookup_insert_eq]
  split
  · rename_i h
    subst h
    rfl
  · rfl

theorem Same.register (h : Same b) {call : CallDTO} (hfresh : id ∉ b.stored) :
    Same ⟨b.stored.apply (.register now id call runnerId),
      (b.memory.registerInvocationWithId now id call runnerId).2,
      (b.sqlite.registerInvocationWithId now id call runnerId).2,
      b.redis.register now id call runnerId⟩ := by
  have hnone : b.stored.lookup id = none := AList.lookup_eq_none.mpr hfresh
  have hredis : b.redis.keys.status.lookup id = none := by rw [h.redisRecords, hnone]; rfl
  have hrow : b.sqlite.invocations.lookup id = none := by
    have hmap := h.rowTasks id
    rw [hnone] at hmap
    exact Option.map_eq_none_iff.mp hmap
  have hstored : ∀ x, (b.stored.apply (.register now id call runnerId)).lookup x =
      if x = id then some (call.taskId, ⟨.registered, runnerId, now⟩) else b.stored.lookup x :=
    fun x => lookup_insert_eq b.stored id x _
  refine ⟨?_, ?_, ?_, ?_, ?_, ?_, ?_⟩
  · intro x
    rw [hstored]
    refine (lookup_insert_eq b.memory.statusRecords id x _).trans ?_
    split
    · rfl
    · exact h.memRecords x
  · intro x taskId
    rw [hstored]
    show x ∈ ((b.memory.taskInvocations.insert call.taskId _).lookup taskId).getD ∅ ↔ _
    rw [lookup_insert_eq]
    by_cases hx : x = id
    · subst hx
      have hout : x ∉ (b.memory.taskInvocations.lookup taskId).getD ∅ := by
        rw [h.memTasks, hnone]
        exact nofun
      rw [if_pos rfl]
      split
      · rename_i htask
        simp [htask]
      · rename_i htask
        simp [hout, Ne.symm htask]
    · rw [if_neg hx, ← h.memTasks]
      split
      · rename_i htask
        subst htask
        simp [hx]
      · rfl
  · intro x
    rw [hstored]
    refine (lookup_insert_eq b.sqlite.statusRecords id x _).trans ?_
    split
    · rfl
    · exact h.rows x
  · intro x
    rw [hstored]
    have hinsert : (b.sqlite.registerInvocationWithId now id call runnerId).2.invocations =
        b.sqlite.invocations.insert id (InvocationDTO.new now id call.taskId call.callId) := by
      simp only [Sqlite.Database.registerInvocationWithId, hrow]
    show ((b.sqlite.registerInvocationWithId now id call runnerId).2.invocations.lookup x).map
      _ = _
    rw [hinsert, lookup_insert_eq]
    split
    · rfl
    · exact h.rowTasks x
  · intro x
    rw [hstored]
    have hkeys : (b.redis.register now id call runnerId).keys.status =
        b.redis.keys.status.insert id ⟨.registered, runnerId, now⟩ := by
      simp only [RedisStatus.register, hredis]
    show (b.redis.register now id call runnerId).keys.status.lookup x = _
    rw [hkeys, lookup_insert_eq]
    split
    · rfl
    · exact h.redisRecords x
  · intro x taskId htask
    show x ∈ (b.redis.register now id call runnerId).listedUnder taskId
    rw [listedUnder_register b.redis hredis]
    rw [hstored] at htask
    by_cases hx : x = id
    · subst hx
      rw [if_pos rfl] at htask
      obtain rfl := Option.some.inj htask
      rw [if_pos rfl]
      split
      · assumption
      · simp
    · rw [if_neg hx] at htask
      have hold := h.redisTasks x taskId htask
      split
      · split
        · exact hold
        · simp [hold]
      · exact hold
  · intro taskId
    show ((b.redis.register now id call runnerId).listedUnder taskId).Nodup
    rw [listedUnder_register b.redis hredis]
    have hnodup := h.redisSets taskId
    split
    · split
      · exact hnodup
      · rename_i hnot
        refine List.nodup_append.mpr ⟨hnodup, by simp, fun a ha c hc => ?_⟩
        obtain rfl := List.mem_singleton.mp hc
        rintro rfl
        exact hnot ha
    · exact hnodup

variable {current record : InvocationStatusRecord}

/-- Records are replaced on every backend alike. -/
theorem Same.replace (h : Same b) {taskId : TaskId}
    (hlookup : b.stored.lookup id = some (taskId, current)) {memory : OrchestratorState}
    {sqlite : Sqlite.Database} {redis : RedisStatus}
    (hmem : memory.statusRecords = b.memory.statusRecords.insert id record)
    (hmemTasks : memory.taskInvocations = b.memory.taskInvocations)
    (hrows : ∀ x, sqlite.statusRecords.lookup x =
      if x = id then some record else b.sqlite.statusRecords.lookup x)
    (hrowTasks : ∀ x, (sqlite.invocations.lookup x).map InvocationDTO.taskId =
      (b.sqlite.invocations.lookup x).map InvocationDTO.taskId)
    (hredis : redis.keys.status = b.redis.keys.status.insert id record)
    (hsets : redis.taskInv = b.redis.taskInv) :
    Same ⟨b.stored.insert id (taskId, record), memory, sqlite, redis⟩ := by
  have hrecord : ∀ x, ((b.stored.insert id (taskId, record)).lookup x).map Prod.snd =
      if x = id then some record else (b.stored.lookup x).map Prod.snd := by
    intro x
    rw [lookup_insert_eq]
    split <;> rfl
  have htask : ∀ x, ((b.stored.insert id (taskId, record)).lookup x).map Prod.fst =
      (b.stored.lookup x).map Prod.fst := by
    intro x
    rw [lookup_insert_eq]
    split
    · rename_i hx
      rw [hx, hlookup]
      rfl
    · rfl
  have hlisted : ∀ t, redis.listedUnder t = b.redis.listedUnder t := by
    intro t
    unfold RedisStatus.listedUnder
    rw [hsets]
  refine ⟨?_, ?_, ?_, ?_, ?_, ?_, ?_⟩
  · intro x
    rw [hrecord, hmem, lookup_insert_eq, h.memRecords]
  · intro x t
    rw [htask, hmemTasks]
    exact h.memTasks x t
  · intro x
    rw [hrecord, hrows, h.rows]
  · intro x
    rw [htask, hrowTasks, h.rowTasks]
  · intro x
    rw [hrecord, hredis, lookup_insert_eq, h.redisRecords]
  · intro x t hx
    rw [htask] at hx
    rw [hlisted]
    exact h.redisTasks x t hx
  · intro t
    rw [hlisted]
    exact h.redisSets t

/-- A status write on Redis that returns and was not refused. -/
theorem setStatus_wrote {s redis : RedisStatus} {status : InvocationStatus}
    (hcurrent : s.keys.status.lookup id = some current)
    (htrans : statusRecordTransition now (some current) status runnerId = .ok record)
    (hreturns : s.setStatus fmt now id status runnerId = some redis) :
    redis = { s with keys := { s.keys with status := s.keys.status.insert id record } } := by
  simp only [RedisStatus.setStatus, hcurrent, htrans] at hreturns
  rw [Redis.StatusCas.casScript_eq fmt hcurrent current.status record] at hreturns
  by_cases hword : Redis.StatusCas.OneWord current.status
  · rw [if_pos ⟨rfl, hword⟩] at hreturns
    exact (Option.some.inj hreturns).symm
  · rw [if_neg fun h => hword h.2] at hreturns
    cases hreturns

theorem Same.setStatus (h : Same b) {status : InvocationStatus} {redis : RedisStatus}
    (hreturns : b.redis.setStatus fmt now id status runnerId = some redis) :
    Same ⟨b.stored.apply (.setStatus now id status runnerId),
      (b.memory.setInvocationStatus now id status runnerId).2,
      (b.sqlite.setInvocationStatus now id status runnerId).2, redis⟩ := by
  have hmemory := h.memRecords id
  have hsqlite := h.rows id
  have hredis := h.redisRecords id
  simp only [Stored.apply, OrchestratorState.setInvocationStatus,
    Sqlite.Database.setInvocationStatus]
  cases hlookup : b.stored.lookup id with
  | none =>
      simp only [hlookup, Option.map_none] at hmemory hsqlite hredis
      simp only [RedisStatus.setStatus, hredis, Option.some.injEq] at hreturns
      simp only [hmemory, hsqlite]
      exact hreturns ▸ h
  | some entry =>
      obtain ⟨taskId, current⟩ := entry
      simp only [hlookup, Option.map_some] at hmemory hsqlite hredis
      simp only [hmemory, hsqlite]
      cases htrans : statusRecordTransition now (some current) status runnerId with
      | error e =>
          simp only [RedisStatus.setStatus, hredis, htrans, Option.some.injEq] at hreturns
          exact hreturns ▸ h
      | ok record =>
          obtain rfl := setStatus_wrote hredis htrans hreturns
          have hrows : ∀ x, (b.sqlite.updateStatus id record).statusRecords.lookup x =
              if x = id then some record else b.sqlite.statusRecords.lookup x := by
            intro x
            simp only [Sqlite.Database.updateStatus, Sqlite.Database.lookup_updateRow]
            split
            · rename_i hx
              rw [hx, hsqlite]
              rfl
            · rfl
          have hrowTasks : ∀ x, ((b.sqlite.updateStatus id record).invocations.lookup x).map
              InvocationDTO.taskId = (b.sqlite.invocations.lookup x).map InvocationDTO.taskId := by
            intro x
            simp only [Sqlite.Database.updateStatus, Sqlite.Database.lookup_updateRow]
            split
            · rw [Option.map_map]
              rfl
            · rfl
          refine h.replace hlookup ?_ ?_ ?_ ?_ rfl rfl
          · dsimp only
            split
            · exact OrchestratorState.removeFromConcurrencyIndex_statusRecords _ _
            · rfl
          · dsimp only
            split
            · obtain ⟨ccIndex, ccReverse, heq⟩ :=
                OrchestratorState.removeFromConcurrencyIndex_eq
                  { b.memory with statusRecords := b.memory.statusRecords.insert id record } id
              rw [heq]
            · rfl
          · intro x
            dsimp only
            split <;> exact hrows x
          · intro x
            dsimp only
            split <;> exact hrowTasks x

/-- The removal of one member from every set. -/
theorem lookup_erase_sets (id : InvocationId) (keys : List TaskId)
    (sets : HashMap TaskId (Finset InvocationId)) (taskId : TaskId) (x : InvocationId) :
    x ∈ ((keys.foldl (fun tasks key =>
        tasks.insert key (((tasks.lookup key).getD ∅).erase id)) sets).lookup taskId).getD ∅ ↔
      x ∈ (sets.lookup taskId).getD ∅ ∧ ¬ (taskId ∈ keys ∧ x = id) := by
  induction keys generalizing sets with
  | nil => simp
  | cons key rest ih =>
      rw [List.foldl_cons, ih, lookup_insert_eq, List.mem_cons]
      by_cases hkey : taskId = key
      · subst hkey
        simp only [if_true, Option.getD_some, Finset.mem_erase]
        tauto
      · simp only [hkey, if_false, false_or]

theorem mem_taskInvocations_remove (s : OrchestratorState) (id x : InvocationId)
    (taskId : TaskId) :
    x ∈ ((removeInvocation s id).taskInvocations.lookup taskId).getD ∅ ↔
      x ∈ (s.taskInvocations.lookup taskId).getD ∅ ∧ x ≠ id := by
  have htasks : (removeInvocation s id).taskInvocations = s.taskInvocations.keys.foldl
      (fun tasks key => tasks.insert key (((tasks.lookup key).getD ∅).erase id))
      s.taskInvocations := by
    simp only [removeInvocation]
    generalize s.taskInvocations.keys.foldl (fun tasks key =>
      tasks.insert key (((tasks.lookup key).getD ∅).erase id)) s.taskInvocations = sets
    obtain ⟨ccIndex, ccReverse, heq⟩ := OrchestratorState.removeFromConcurrencyIndex_eq
      { s with
        statusRecords := s.statusRecords.erase id
        retries := s.retries.erase id
        taskInvocations := sets } id
    rw [heq]
  rw [htasks, lookup_erase_sets]
  constructor
  · rintro ⟨hmem, hnot⟩
    refine ⟨hmem, fun hx => hnot ⟨?_, hx⟩⟩
    by_contra hkey
    have hnone : s.taskInvocations.lookup taskId = none :=
      AList.lookup_eq_none.mpr fun h => hkey (AList.mem_keys.mp h)
    simp [hnone] at hmem
  · exact fun h => ⟨h.1, fun heq => h.2 heq.2⟩

theorem Same.remove (h : Same b) (id : InvocationId) :
    Same ⟨b.stored.apply (.remove id), removeInvocation b.memory id,
      b.sqlite.removeInvocation id, b.redis.remove id⟩ := by
  have hstored : ∀ x, (b.stored.apply (.remove id)).lookup x =
      if x = id then none else b.stored.lookup x := lookup_erase_eq b.stored id
  have herased : ∀ {records : Table InvocationId InvocationStatusRecord},
      (∀ x, records.lookup x = (b.stored.lookup x).map Prod.snd) → ∀ x,
      (records.erase id).lookup x = ((b.stored.apply (.remove id)).lookup x).map Prod.snd := by
    intro records hrecords x
    rw [hstored, lookup_erase_eq, hrecords]
    split <;> rfl
  have hrows : (b.sqlite.removeInvocation id).statusRecords = b.sqlite.statusRecords.erase id ∧
      (b.sqlite.removeInvocation id).invocations = b.sqlite.invocations.erase id := by
    simp only [Sqlite.Database.removeInvocation]
    cases b.sqlite.invocations.lookup id <;> exact ⟨rfl, rfl⟩
  refine ⟨?_, ?_, ?_, ?_, ?_, ?_, h.redisSets⟩
  · intro x
    have hrecords : (removeInvocation b.memory id).statusRecords =
        b.memory.statusRecords.erase id := by
      simp [removeInvocation]
    rw [← herased h.memRecords, ← hrecords]
  · intro x taskId
    refine (mem_taskInvocations_remove b.memory id x taskId).trans ?_
    rw [hstored, h.memTasks]
    split
    · rename_i hx
      simp [hx]
    · rename_i hx
      simp [hx]
  · intro x
    rw [hrows.1]
    exact herased h.rows x
  · intro x
    rw [hstored, hrows.2, lookup_erase_eq]
    split
    · rfl
    · exact h.rowTasks x
  · exact herased h.redisRecords
  · intro x taskId hx
    rw [hstored] at hx
    split at hx
    · cases hx
    · exact h.redisTasks x taskId hx

theorem Same.step (h : Same b) (hfresh : c.Fresh b.stored)
    (hstep : b.step fmt c = some b') : Same b' := by
  obtain ⟨redis, hredis, rfl⟩ := Option.map_eq_some_iff.mp hstep
  cases c with
  | register now id call runnerId =>
      cases hredis
      exact h.register hfresh
  | setStatus now id status runnerId => exact h.setStatus hredis
  | remove id =>
      cases hredis
      exact h.remove id

theorem stored_step (hstep : b.step fmt c = some b') :
    b'.stored = b.stored.apply c := by
  obtain ⟨redis, -, rfl⟩ := Option.map_eq_some_iff.mp hstep
  rfl

/-- The backends hold the same after every run of fresh registrations. -/
theorem Same.run (h : Same b) {calls : List StatusCall} (hfresh : FreshRun b.stored calls)
    (hrun : b.run fmt calls = some b') : Same b' := by
  induction calls generalizing b with
  | nil =>
      cases hrun
      exact h
  | cons c rest ih =>
      obtain ⟨next, hstep, hrest⟩ := Option.bind_eq_some_iff.mp hrun
      refine ih (h.step hfresh.1 hstep) ?_ hrest
      rw [stored_step hstep]
      exact hfresh.2

/-! ## Who is listed on Redis -/

section Listing

variable {K V : Type} [DecidableEq K]

theorem mem_selected (table : Table K V) (p : K → V → Bool) (key : K) :
    key ∈ (table.entries.filter fun entry => p entry.1 entry.2).map Sigma.fst ↔
      ∃ v, table.lookup key = some v ∧ p key v = true := by
  constructor
  · intro hmem
    obtain ⟨entry, hentry, rfl⟩ := List.mem_map.mp hmem
    obtain ⟨hin, hp⟩ := List.mem_filter.mp hentry
    exact ⟨entry.2, AList.mem_lookup_iff.mpr hin, hp⟩
  · rintro ⟨v, hlookup, hp⟩
    exact List.mem_map.mpr ⟨⟨key, v⟩,
      List.mem_filter.mpr ⟨AList.mem_lookup_iff.mp hlookup, hp⟩, rfl⟩

end Listing

section Listed

variable (query : StatusQuery) {id : InvocationId}

end Listed

/-! ## When the queries agree -/

/-- The counts are the number of matching invocations, the pages of one size list each of
them once, and are the same in memory and in SQLite. -/
structure Agree (b : Backings) (query : StatusQuery) (visited order : List InvocationId)
    (size : Nat) : Prop where
  memCount : memCount b.memory query = (matching b.stored query).length
  sqliteCount : sqliteCount b.sqlite query = (matching b.stored query).length
  redisCount : b.redis.count query = (matching b.stored query).length
  memPages : Enumerates (fun limit offset =>
    (.ok (memPage b.memory query limit offset) : RustvelloResult _)) size (matching b.stored query)
  sqlitePages : Enumerates (sqlitePage b.sqlite query visited) size (matching b.stored query)
  redisPages : Enumerates (fun limit offset =>
    (.ok (b.redis.page query order limit offset) : RustvelloResult _)) size
      (matching b.stored query)
  samePages : ∀ k rows, sqlitePage b.sqlite query visited size (k * size) = .ok rows →
    memPage b.memory query size (k * size) = rows

section Agreement

variable {query : StatusQuery}

end Agreement

section Main

variable {calls : List StatusCall}

end Main

def sampleTask (name : String) : TaskId :=
  ⟨.rust, "m", name⟩

def sampleCall (name : String) : CallDTO :=
  ⟨⟨sampleTask name, "x"⟩, sampleTask name, .empty⟩

/-- Two invocations of two tasks; the first is pending. -/
def sampleCalls : List StatusCall :=
  [.register 0 ⟨"a"⟩ (sampleCall "f") none, .register 1 ⟨"b"⟩ (sampleCall "g") none,
    .setStatus 2 ⟨"a"⟩ .pending (some ⟨"r"⟩)]

end Rustvello.Backends
