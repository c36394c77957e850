import Rustvello.Backends.StatusQueries
import Rustvello.Backends.TimeText

/-!
# Liveness verdicts of three backends

Heartbeats, stale invocations and active runners of the in-memory, the SQLite and the Redis
orchestrator, after the same heartbeats and status calls.

* `Cluster`, `LivenessCall` — what the backends hold, and what is called;
* `memStalePending`, `memStaleRunning`, `memActiveRunners` and their siblings — the queries;
  `none` where the cutoff lies before the calendar and the task stops;
* `Together` — the backends hold the same statuses and heartbeats;
* `InRange`, `InGap` — the cutoff is an instant, and a heartbeat lies in the second that follows
  the timeout;
* `livenessVerdicts_iff` — when the verdicts agree.

Memory compares whole seconds, so that a heartbeat counts for almost a second longer; Redis
stores no eligibility.  SQLite compares texts (`TimeText`), Redis parses them.
-/

namespace Rustvello.Backends.Liveness

open Proto Rustvello.Core Mem

/-- Texts that `parse_from_rfc3339` reads back. -/
structure ClockText extends TimeText where
  parse : String → Option Timestamp
  parse_rfc3339 : ∀ t, fourDigitYear t → parse (rfc3339 t) = some t

/-- `i64::try_from(seconds).unwrap_or(i64::MAX)`, in nanoseconds. -/
def span (seconds : Nat) : Int :=
  min (seconds : Int) i64Max * 1000000000

/-- `Utc::now() - Duration::seconds(..)`; `none` stops the task. -/
def cutoff (now : Timestamp) (seconds : Nat) : Option Timestamp :=
  (Sqlite.staleCutoff now seconds).toOption

/-- `num_seconds`: whole seconds, towards zero. -/
def numSeconds (duration : Int) : Int :=
  duration.tdiv 1000000000

/-! ## The stores -/

structure MemRunners where
  heartbeats : HashMap RunnerId Timestamp := ∅
  runnerCreated : HashMap RunnerId Timestamp := ∅
  runnerAtomicEligible : HashMap RunnerId Bool := ∅

/-- A row of `runner_heartbeats`. -/
structure HeartbeatRow where
  creationTime : String
  lastHeartbeat : String
  canRunAtomicService : Bool

/-- What `get_active_runners` tells about a runner. -/
structure ActiveRunnerInfo where
  runnerId : RunnerId
  creationTime : Timestamp
  lastHeartbeat : Timestamp
  canRunAtomicService : Bool

/-- The backends, and the last heartbeat of every runner with the flag it declared. -/
structure Cluster where
  backings : Backings := {}
  memory : MemRunners := {}
  rows : Table RunnerId HeartbeatRow := ∅
  keys : Table RunnerId String := ∅
  declared : Table RunnerId (Timestamp × Bool) := ∅

section Heartbeat

variable (text : ClockText) (now : Timestamp) (runnerId : RunnerId) (canRun : Bool)

/-- `MemOrchestrator::register_heartbeat` -/
def MemRunners.registerHeartbeat (s : MemRunners) : MemRunners where
  heartbeats := s.heartbeats.insert runnerId now
  runnerCreated :=
    match s.runnerCreated.lookup runnerId with
    | some _ => s.runnerCreated
    | none => s.runnerCreated.insert runnerId now
  runnerAtomicEligible := s.runnerAtomicEligible.insert runnerId canRun

/-- `INSERT .. ON CONFLICT(runner_id) DO UPDATE` -/
def sqliteRegisterHeartbeat (rows : Table RunnerId HeartbeatRow) : Table RunnerId HeartbeatRow :=
  match rows.lookup runnerId with
  | none => rows.insert runnerId ⟨text.rfc3339 now, text.rfc3339 now, canRun⟩
  | some row => rows.insert runnerId ⟨row.creationTime, text.rfc3339 now, canRun⟩

/-- Redis stores the instant only. -/
def redisRegisterHeartbeat (keys : Table RunnerId String) : Table RunnerId String :=
  keys.insert runnerId (text.rfc3339 now)

end Heartbeat

/-- A status call or a heartbeat, each at its instant. -/
inductive LivenessCall where
  | status (c : StatusCall)
  | heartbeat (now : Timestamp) (runnerId : RunnerId) (canRunAtomicService : Bool)

def Cluster.step (text : ClockText) (fmt : Redis.StatusCas.RecordFormat) (s : Cluster) :
    LivenessCall → Option Cluster
  | .status c => (s.backings.step fmt c).map fun backings => { s with backings := backings }
  | .heartbeat now runnerId canRun => some
      { s with
        memory := s.memory.registerHeartbeat now runnerId canRun
        rows := sqliteRegisterHeartbeat text now runnerId canRun s.rows
        keys := redisRegisterHeartbeat text now runnerId s.keys
        declared := s.declared.insert runnerId (now, canRun) }

def Cluster.run (text : ClockText) (fmt : Redis.StatusCas.RecordFormat) :
    Cluster → List LivenessCall → Option Cluster
  | s, [] => some s
  | s, c :: rest => (s.step text fmt c).bind fun s' => s'.run text fmt rest

/-! ## The queries -/

section Queries

variable (text : ClockText) (s : Cluster) (now : Timestamp) (seconds : Nat)

def select (table : Table InvocationId InvocationStatusRecord)
    (p : InvocationStatusRecord → Bool) : List InvocationId :=
  (table.entries.filter fun entry => p entry.2).map Sigma.fst

/-- Keys whose records pass a check that may stop the task. -/
def selectM (p : InvocationStatusRecord → Option Bool) :
    List (Σ _ : InvocationId, InvocationStatusRecord) → Option (List InvocationId)
  | [] => some []
  | entry :: rest => do
      let keep ← p entry.2
      let others ← selectM p rest
      pure (if keep then entry.1 :: others else others)

def memStalePending : Option (List InvocationId) :=
  (cutoff now seconds).map fun threshold =>
    select s.backings.memory.statusRecords fun record =>
      decide (record.status = .pending) && decide (record.timestamp < threshold)

def sqliteStalePending : Option (List InvocationId) :=
  (cutoff now seconds).map fun threshold =>
    select s.backings.sqlite.statusRecords fun record =>
      decide (record.status = .pending) &&
        decide (text.rfc3339 record.timestamp < text.rfc3339 threshold)

def redisStalePending : Option (List InvocationId) :=
  (cutoff now seconds).map fun threshold =>
    select s.backings.redis.keys.status fun record =>
      decide (record.status = .pending) && decide (record.timestamp < threshold)

/-- Whether the owner of a running invocation counts as dead. -/
def memOwnerDead (record : InvocationStatusRecord) : Option Bool :=
  match record.runnerId with
  | none => some true
  | some runnerId =>
      match s.memory.heartbeats.lookup runnerId with
      | some lastHb => some (decide (min (seconds : Int) i64Max < numSeconds (now - lastHb)))
      | none => (cutoff now seconds).map fun threshold => decide (record.timestamp < threshold)

def memStaleRunning : Option (List InvocationId) :=
  selectM (memOwnerDead s now seconds)
    (s.backings.memory.statusRecords.entries.filter fun entry =>
      decide (entry.2.status = .running))

/-- The rows joined with the heartbeats of their owners. -/
def sqliteStaleRunning : Option (List InvocationId) :=
  (cutoff now seconds).map fun threshold =>
    select s.backings.sqlite.statusRecords fun record =>
      decide (record.status = .running) &&
        match record.runnerId.bind s.rows.lookup with
        | none => decide (text.rfc3339 record.timestamp < text.rfc3339 threshold)
        | some row => decide (row.lastHeartbeat < text.rfc3339 threshold)

def redisStaleRunning : Option (List InvocationId) :=
  (cutoff now seconds).map fun threshold =>
    select s.backings.redis.keys.status fun record =>
      decide (record.status = .running) &&
        match record.runnerId with
        | none => false
        | some runnerId =>
            match s.keys.lookup runnerId with
            | none => decide (record.timestamp < threshold)
            | some lastHb => ((text.parse lastHb).map fun t => decide (t < threshold)).getD true

def memActiveRunnerIds : Option (List RunnerId) :=
  some ((s.memory.heartbeats.entries.filter fun entry =>
    decide (numSeconds (now - entry.2) ≤ min (seconds : Int) i64Max)).map Sigma.fst)

def sqliteActiveRunnerIds : Option (List RunnerId) :=
  (cutoff now seconds).map fun threshold =>
    (s.rows.entries.filter fun entry =>
      decide (text.rfc3339 threshold ≤ entry.2.lastHeartbeat)).map Sigma.fst

def redisActiveRunnerIds : Option (List RunnerId) :=
  (cutoff now seconds).map fun threshold =>
    (s.keys.entries.filter fun entry =>
      (text.parse entry.2).any fun t => decide (threshold ≤ t)).map Sigma.fst

/-- Sorted by creation time. -/
def memActiveRunners (canRun : Option Bool) : Option (List ActiveRunnerInfo) :=
  some (((s.memory.heartbeats.entries.filter fun entry =>
      decide (numSeconds (now - entry.2) ≤ min (seconds : Int) i64Max) &&
        canRun.all fun filter =>
          (s.memory.runnerAtomicEligible.lookup entry.1).getD false == filter).map
    fun entry =>
      { runnerId := entry.1
        creationTime := (s.memory.runnerCreated.lookup entry.1).getD entry.2
        lastHeartbeat := entry.2
        canRunAtomicService := (s.memory.runnerAtomicEligible.lookup entry.1).getD false }).mergeSort
    fun a b => decide (a.creationTime ≤ b.creationTime))

def sqliteActiveRunners (canRun : Option Bool) : Option (List ActiveRunnerInfo) :=
  (cutoff now seconds).map fun threshold =>
    (s.rows.entries.filter fun entry =>
      decide (text.rfc3339 threshold ≤ entry.2.lastHeartbeat) &&
        canRun.all fun filter => entry.2.canRunAtomicService == filter).filterMap fun entry => do
      let creationTime ← text.parse entry.2.creationTime
      let lastHeartbeat ← text.parse entry.2.lastHeartbeat
      pure ⟨entry.1, creationTime, lastHeartbeat, entry.2.canRunAtomicService⟩

/-- Redis does not read the filter. -/
def redisActiveRunners (_canRun : Option Bool) : Option (List ActiveRunnerInfo) :=
  (cutoff now seconds).map fun threshold =>
    s.keys.entries.filterMap fun entry =>
      (text.parse entry.2).bind fun t =>
        if threshold ≤ t then some ⟨entry.1, t, t, true⟩ else none

end Queries

/-! ## What the backends hold -/

/-- The instant of a call is in a year of four digits, and a registration is of an invocation
that does not exist. -/
def LivenessCall.Orderly (text : ClockText) (stored : Stored) : LivenessCall → Prop
  | .status (.register now id _ _) => text.fourDigitYear now ∧ id ∉ stored
  | .status (.setStatus now _ _ _) => text.fourDigitYear now
  | .status (.remove _) => True
  | .heartbeat now _ _ => text.fourDigitYear now

def LivenessCall.apply (stored : Stored) : LivenessCall → Stored
  | .status c => stored.apply c
  | .heartbeat _ _ _ => stored

def OrderlyRun (text : ClockText) : Stored → List LivenessCall → Prop
  | _, [] => True
  | stored, c :: rest => c.Orderly text stored ∧ OrderlyRun text (c.apply stored) rest

/-- The backends hold the same statuses and heartbeats. -/
structure Together (text : ClockText) (s : Cluster) : Prop where
  same : Same s.backings
  owned : ∀ id taskId record, s.backings.stored.lookup id = some (taskId, record) →
    record.status.Owned → record.runnerId ≠ none
  recordYears : ∀ id taskId record, s.backings.stored.lookup id = some (taskId, record) →
    text.fourDigitYear record.timestamp
  heartbeatYears : ∀ r t flag, s.declared.lookup r = some (t, flag) → text.fourDigitYear t
  heartbeats : ∀ r, s.memory.heartbeats.lookup r = (s.declared.lookup r).map Prod.fst
  eligible : ∀ r, s.memory.runnerAtomicEligible.lookup r = (s.declared.lookup r).map Prod.snd
  rowTimes : ∀ r, (s.rows.lookup r).map HeartbeatRow.lastHeartbeat =
    (s.declared.lookup r).map fun entry => text.rfc3339 entry.1
  rowFlags : ∀ r, (s.rows.lookup r).map HeartbeatRow.canRunAtomicService =
    (s.declared.lookup r).map Prod.snd
  created : ∀ r row, s.rows.lookup r = some row → (text.parse row.creationTime).isSome = true
  keys : ∀ r, s.keys.lookup r = (s.declared.lookup r).map fun entry => text.rfc3339 entry.1

section Holding

variable {text : ClockText} {fmt : Redis.StatusCas.RecordFormat} {s s' : Cluster}

theorem together_empty : Together text {} where
  same := same_empty
  owned _ _ _ h := by cases h
  recordYears _ _ _ h := by cases h
  heartbeatYears _ _ _ h := by cases h
  heartbeats _ := rfl
  eligible _ := rfl
  rowTimes _ := rfl
  rowFlags _ := rfl
  created _ _ h := by cases h
  keys _ := rfl

/-- What a status call leaves of the records: owners of owned statuses, and years. -/
theorem records_apply {stored : Stored} {c : StatusCall}
    (horderly : (LivenessCall.status c).Orderly text stored)
    (howned : ∀ id taskId record, stored.lookup id = some (taskId, record) →
      record.status.Owned → record.runnerId ≠ none)
    (hyears : ∀ id taskId record, stored.lookup id = some (taskId, record) →
      text.fourDigitYear record.timestamp)
    {id : InvocationId} {taskId : TaskId} {record : InvocationStatusRecord}
    (hlookup : (stored.apply c).lookup id = some (taskId, record)) :
    (record.status.Owned → record.runnerId ≠ none) ∧ text.fourDigitYear record.timestamp := by
  cases c with
  | register now new call runnerId =>
      simp only [Stored.apply, lookup_insert_eq] at hlookup
      split at hlookup
      · obtain ⟨-, rfl⟩ := Prod.mk.inj (Option.some.inj hlookup)
        have hunowned : ¬ InvocationStatus.registered.Owned := by decide
        exact ⟨fun howns => absurd howns hunowned, horderly.1⟩
      · exact ⟨howned _ _ _ hlookup, hyears _ _ _ hlookup⟩
  | setStatus now changed status runnerId =>
      simp only [Stored.apply] at hlookup
      split at hlookup
      · exact ⟨howned _ _ _ hlookup, hyears _ _ _ hlookup⟩
      · rename_i task current hcurrent
        split at hlookup
        · exact ⟨howned _ _ _ hlookup, hyears _ _ _ hlookup⟩
        · rename_i next htrans
          rw [lookup_insert_eq] at hlookup
          split at hlookup
          · obtain ⟨-, rfl⟩ := Prod.mk.inj (Option.some.inj hlookup)
            obtain ⟨-, -, hnext⟩ := (statusRecordTransition_ok_iff _ _ _ _ _).mp htrans
            refine ⟨runnerId_of_owned htrans (howned _ _ _ hcurrent), ?_⟩
            rw [hnext]
            exact horderly
          · exact ⟨howned _ _ _ hlookup, hyears _ _ _ hlookup⟩
  | remove gone =>
      simp only [Stored.apply, lookup_erase_eq] at hlookup
      split at hlookup
      · cases hlookup
      · exact ⟨howned _ _ _ hlookup, hyears _ _ _ hlookup⟩

theorem fresh_of_orderly {stored : Stored} {c : StatusCall}
    (h : (LivenessCall.status c).Orderly text stored) : c.Fresh stored := by
  cases c with
  | register now id call runnerId => exact h.2
  | setStatus now id status runnerId => trivial
  | remove id => trivial

/-- A column of the table of heartbeats after a heartbeat. -/
theorem lookup_declared {V : Type} {table table' : Table RunnerId V}
    {declared : Table RunnerId (Timestamp × Bool)} {f : Timestamp × Bool → V} {runnerId : RunnerId}
    {entry : Timestamp × Bool} (h : ∀ r, table.lookup r = (declared.lookup r).map f)
    (hnew : ∀ r, table'.lookup r = if r = runnerId then some (f entry) else table.lookup r)
    (r : RunnerId) :
    table'.lookup r = ((declared.insert runnerId entry).lookup r).map f := by
  rw [hnew, lookup_insert_eq]
  split
  · rfl
  · exact h r

theorem Together.heartbeat (h : Together text s) {now : Timestamp} {runnerId : RunnerId}
    {canRun : Bool} (hyear : text.fourDigitYear now) :
    Together text
      { s with
        memory := s.memory.registerHeartbeat now runnerId canRun
        rows := sqliteRegisterHeartbeat text now runnerId canRun s.rows
        keys := redisRegisterHeartbeat text now runnerId s.keys
        declared := s.declared.insert runnerId (now, canRun) } := by
  have hrow : ∃ creationTime, (text.parse creationTime).isSome = true ∧
      sqliteRegisterHeartbeat text now runnerId canRun s.rows =
        s.rows.insert runnerId ⟨creationTime, text.rfc3339 now, canRun⟩ := by
    unfold sqliteRegisterHeartbeat
    cases hlookup : s.rows.lookup runnerId with
    | none => exact ⟨_, by rw [text.parse_rfc3339 now hyear]; rfl, rfl⟩
    | some row => exact ⟨_, h.created runnerId row hlookup, rfl⟩
  obtain ⟨creationTime, hcreation, hrow⟩ := hrow
  refine ⟨h.same, h.owned, h.recordYears, ?_, ?_, ?_, ?_, ?_, ?_, ?_⟩
  · intro r t flag hlookup
    change (s.declared.insert runnerId (now, canRun)).lookup r = some (t, flag) at hlookup
    rw [lookup_insert_eq] at hlookup
    split at hlookup
    · cases hlookup
      exact hyear
    · exact h.heartbeatYears r t flag hlookup
  · exact lookup_declared h.heartbeats fun r => lookup_insert_eq _ _ _ _
  · exact lookup_declared h.eligible fun r => lookup_insert_eq _ _ _ _
  · intro r
    show ((sqliteRegisterHeartbeat text now runnerId canRun s.rows).lookup r).map _ =
      ((s.declared.insert runnerId (now, canRun)).lookup r).map _
    rw [hrow, lookup_insert_eq, lookup_insert_eq]
    split
    · rfl
    · exact h.rowTimes r
  · intro r
    show ((sqliteRegisterHeartbeat text now runnerId canRun s.rows).lookup r).map _ =
      ((s.declared.insert runnerId (now, canRun)).lookup r).map _
    rw [hrow, lookup_insert_eq, lookup_insert_eq]
    split
    · rfl
    · exact h.rowFlags r
  · intro r row hlookup
    change (sqliteRegisterHeartbeat text now runnerId canRun s.rows).lookup r = some row at hlookup
    rw [hrow, lookup_insert_eq] at hlookup
    split at hlookup
    · cases hlookup
      exact hcreation
    · exact h.created r row hlookup
  · exact lookup_declared h.keys fun r => lookup_insert_eq _ _ _ _

theorem Together.step (h : Together text s) {c : LivenessCall}
    (horderly : c.Orderly text s.backings.stored) (hstep : s.step text fmt c = some s') :
    Together text s' ∧ s'.backings.stored = c.apply s.backings.stored := by
  cases c with
  | heartbeat now runnerId canRun =>
      cases hstep
      exact ⟨h.heartbeat horderly, rfl⟩
  | status c =>
      obtain ⟨backings, hbackings, rfl⟩ := Option.map_eq_some_iff.mp hstep
      have hstored := stored_step hbackings
      have hrecords : ∀ id taskId record, backings.stored.lookup id = some (taskId, record) →
          (record.status.Owned → record.runnerId ≠ none) ∧
            text.fourDigitYear record.timestamp := by
        intro id taskId record hlookup
        rw [hstored] at hlookup
        exact records_apply horderly h.owned h.recordYears hlookup
      exact ⟨⟨h.same.step (fresh_of_orderly horderly) hbackings,
        fun id taskId record hlookup => (hrecords id taskId record hlookup).1,
        fun id taskId record hlookup => (hrecords id taskId record hlookup).2,
        h.heartbeatYears, h.heartbeats, h.eligible, h.rowTimes, h.rowFlags, h.created,
        h.keys⟩, hstored⟩

theorem Together.run (h : Together text s) {calls : List LivenessCall}
    (horderly : OrderlyRun text s.backings.stored calls)
    (hrun : s.run text fmt calls = some s') : Together text s' := by
  induction calls generalizing s with
  | nil =>
      cases hrun
      exact h
  | cons c rest ih =>
      obtain ⟨next, hstep, hrest⟩ := Option.bind_eq_some_iff.mp hrun
      obtain ⟨hnext, hstored⟩ := h.step horderly.1 hstep
      exact ih hnext (hstored ▸ horderly.2) hrest

end Holding

/-! ## What the queries answer -/

/-- The cutoff is an instant of the calendar. -/
def InRange (now : Timestamp) (seconds : Nat) : Prop :=
  Sqlite.minInstant ≤ now - span seconds

/-- A heartbeat in the second after the timeout. -/
def InGap (now : Timestamp) (seconds : Nat) (t : Timestamp) : Prop :=
  span seconds < now - t ∧ now - t < span seconds + 1000000000

theorem cutoff_eq_some {now : Timestamp} {seconds : Nat} (h : InRange now seconds) :
    cutoff now seconds = some (now - span seconds) := by
  have hnot : ¬ now - span seconds < Sqlite.minInstant := not_lt.mpr h
  simp only [span] at hnot ⊢
  simp only [cutoff, Sqlite.staleCutoff, if_neg hnot]
  rfl

theorem cutoff_eq_none {now : Timestamp} {seconds : Nat} (h : ¬ InRange now seconds) :
    cutoff now seconds = none := by
  have hlt : now - span seconds < Sqlite.minInstant := not_le.mp h
  simp only [span] at hlt
  simp only [cutoff, Sqlite.staleCutoff, if_pos hlt]
  rfl

theorem span_nonneg (seconds : Nat) : 0 ≤ span seconds := by
  unfold span i64Max
  omega

theorem numSeconds_le_iff (duration : Int) (seconds : Nat) :
    numSeconds duration ≤ min (seconds : Int) i64Max ↔ duration < span seconds + 1000000000 := by
  have hcap : 0 ≤ min (seconds : Int) i64Max := by unfold i64Max; omega
  unfold numSeconds span
  generalize min (seconds : Int) i64Max = cap at hcap
  rcases Int.le_total 0 duration with hpos | hneg
  · rw [Int.tdiv_eq_ediv_of_nonneg hpos]
    omega
  · have hdiv : 0 ≤ (-duration).tdiv 1000000000 := Int.tdiv_nonneg (by omega) (by decide)
    rw [Int.neg_tdiv] at hdiv
    omega

/-- An answer lists exactly what satisfies the predicate. -/
def Lists {α : Type} (got : Option (List α)) (wanted : α → Prop) : Prop :=
  ∃ xs, got = some xs ∧ ∀ x, x ∈ xs ↔ wanted x

/-- The three backends answer with the same sets. -/
def SameSets {α : Type} (a b c : Option (List α)) : Prop :=
  ∃ xs ys zs, a = some xs ∧ b = some ys ∧ c = some zs ∧
    ∀ x, (x ∈ xs ↔ x ∈ ys) ∧ (x ∈ ys ↔ x ∈ zs)

section Sets

variable {α : Type} {a b c : Option (List α)} {p q r : α → Prop}

theorem sameSets_iff (ha : Lists a p) (hb : Lists b q) (hc : Lists c r) :
    SameSets a b c ↔ ∀ x, (p x ↔ q x) ∧ (q x ↔ r x) := by
  obtain ⟨xs, rfl, hxs⟩ := ha
  obtain ⟨ys, rfl, hys⟩ := hb
  obtain ⟨zs, rfl, hzs⟩ := hc
  simp only [SameSets, Option.some.injEq, exists_and_left, exists_eq_left', hxs, hys, hzs]

theorem not_sameSets (hb : b = none) : ¬ SameSets a b c := by
  rintro ⟨xs, ys, zs, -, hsome, -⟩
  rw [hb] at hsome
  cases hsome

theorem lists_iff_of_lists (ha : Lists a p) : Lists a q ↔ ∀ x, p x ↔ q x := by
  obtain ⟨xs, rfl, hxs⟩ := ha
  simp only [Lists, Option.some.injEq, exists_eq_left', hxs]

end Sets

section Verdicts

variable (s : Cluster) (now : Timestamp) (seconds : Nat)

/-- Invocations that are pending since before the cutoff. -/
def PendingLong (id : InvocationId) : Prop :=
  ∃ taskId record, s.backings.stored.lookup id = some (taskId, record) ∧
    record.status = .pending ∧ record.timestamp < now - span seconds

/-- Running invocations whose owner is dead: by its last heartbeat, or since before the cutoff
without one. -/
def OwnerDead (dead : Timestamp → Prop) (id : InvocationId) : Prop :=
  ∃ taskId record owner, s.backings.stored.lookup id = some (taskId, record) ∧
    record.status = .running ∧ record.runnerId = some owner ∧
      ((s.declared.lookup owner = none ∧ record.timestamp < now - span seconds) ∨
        ∃ t flag, s.declared.lookup owner = some (t, flag) ∧ dead t)

/-- Runners whose last heartbeat is alive and whose flag passes. -/
def Alive (alive : Timestamp → Prop) (passes : Bool → Prop) (runnerId : RunnerId) : Prop :=
  ∃ t flag, s.declared.lookup runnerId = some (t, flag) ∧ alive t ∧ passes flag

end Verdicts

section Answers

variable {text : ClockText} {s : Cluster} {now : Timestamp} {seconds : Nat}

theorem mem_select {table : Table InvocationId InvocationStatusRecord} {stored : Stored}
    (h : ∀ id, table.lookup id = (stored.lookup id).map Prod.snd)
    (p : InvocationStatusRecord → Bool) (id : InvocationId) :
    id ∈ select table p ↔
      ∃ taskId record, stored.lookup id = some (taskId, record) ∧ p record = true := by
  refine (mem_selected table (fun _ record => p record) id).trans ?_
  rw [h]
  cases stored.lookup id with
  | none => simp
  | some entry =>
      obtain ⟨task, stored⟩ := entry
      simp

section Pending

variable (h : Together text s) (hnow : text.fourDigitYear now) (hrange : InRange now seconds)

include h hrange

theorem memStalePending_lists :
    Lists (memStalePending s now seconds) (PendingLong s now seconds) := by
  refine ⟨_, by rw [memStalePending, cutoff_eq_some hrange]; rfl, fun id => ?_⟩
  rw [mem_select h.same.memRecords]
  simp only [PendingLong, Bool.and_eq_true, decide_eq_true_eq]

theorem redisStalePending_lists :
    Lists (redisStalePending s now seconds) (PendingLong s now seconds) := by
  refine ⟨_, by rw [redisStalePending, cutoff_eq_some hrange]; rfl, fun id => ?_⟩
  rw [mem_select h.same.redisRecords]
  simp only [PendingLong, Bool.and_eq_true, decide_eq_true_eq]

include hnow

theorem sqliteStalePending_lists :
    Lists (sqliteStalePending text s now seconds) (PendingLong s now seconds) := by
  refine ⟨_, by rw [sqliteStalePending, cutoff_eq_some hrange]; rfl, fun id => ?_⟩
  rw [mem_select h.same.rows]
  refine exists_congr fun taskId => exists_congr fun record => and_congr_right fun hlookup => ?_
  have hle : now - span seconds ≤ now := sub_le_self now (span_nonneg seconds)
  rw [Bool.and_eq_true, decide_eq_true_iff, decide_eq_true_iff,
    text.text_lt_iff (h.recordYears id taskId record hlookup) hnow hle]

end Pending

section Running

/-- A check that never stops the task selects as a filter does. -/
theorem selectM_eq {p : InvocationStatusRecord → Option Bool} {q : InvocationStatusRecord → Bool}
    (h : ∀ record, p record = some (q record))
    (entries : List (Σ _ : InvocationId, InvocationStatusRecord)) :
    selectM p entries = some ((entries.filter fun entry => q entry.2).map Sigma.fst) := by
  induction entries with
  | nil => rfl
  | cons entry rest ih =>
      simp only [selectM, h, ih, Option.bind_eq_bind, Option.bind_some, Option.pure_def,
        List.filter_cons]
      split <;> rfl

variable (h : Together text s) (hnow : text.fourDigitYear now) (hrange : InRange now seconds)

/-- The owner of a running invocation. -/
theorem owner_of_running (h : Together text s) {id : InvocationId} {taskId : TaskId}
    {record : InvocationStatusRecord} (hlookup : s.backings.stored.lookup id = some (taskId, record))
    (hrunning : record.status = .running) : ∃ owner, record.runnerId = some owner :=
  Option.ne_none_iff_exists'.mp
    (h.owned id taskId record hlookup (by rw [hrunning]; exact .inr (.inl rfl)))

/-- Each backend's check of a running record, by its owner. -/
theorem running_lists {table : Table InvocationId InvocationStatusRecord}
    (h : Together text s)
    (htable : ∀ id, table.lookup id = (s.backings.stored.lookup id).map Prod.snd)
    (check : InvocationStatusRecord → Bool) (dead : Timestamp → Prop)
    (hsilent : ∀ id taskId record owner, s.backings.stored.lookup id = some (taskId, record) →
      record.runnerId = some owner → s.declared.lookup owner = none →
        (check record = true ↔ record.timestamp < now - span seconds))
    (hseen : ∀ record owner t flag, record.runnerId = some owner →
      s.declared.lookup owner = some (t, flag) → (check record = true ↔ dead t))
    (id : InvocationId) :
    id ∈ select table (fun record => decide (record.status = .running) && check record) ↔
      OwnerDead s now seconds dead id := by
  rw [mem_select htable]
  refine exists_congr fun taskId => exists_congr fun record => ?_
  rw [exists_and_left]
  refine and_congr_right fun hlookup => ?_
  rw [Bool.and_eq_true, decide_eq_true_iff, exists_and_left]
  refine and_congr_right fun hrunning => ?_
  obtain ⟨owner, howner⟩ := owner_of_running h hlookup hrunning
  simp only [howner, Option.some.injEq, exists_eq_left']
  cases hdeclared : s.declared.lookup owner with
  | none => simp [hsilent id taskId record owner hlookup howner hdeclared]
  | some entry =>
      obtain ⟨t, flag⟩ := entry
      simp [hseen record owner t flag howner hdeclared]

include h hrange

theorem memStaleRunning_lists :
    Lists (memStaleRunning s now seconds)
      (OwnerDead s now seconds fun t => ¬ now - t < span seconds + 1000000000) := by
  have hcheck : ∀ record, memOwnerDead s now seconds record =
      some ((memOwnerDead s now seconds record).getD false) := by
    intro record
    unfold memOwnerDead
    cases record.runnerId with
    | none => rfl
    | some owner =>
        cases hlookup : s.memory.heartbeats.lookup owner with
        | none => simp only [hlookup, cutoff_eq_some hrange, Option.map_some, Option.getD_some]
        | some lastHb => simp only [hlookup, Option.getD_some]
  refine ⟨_, selectM_eq hcheck _, fun id => ?_⟩
  rw [List.filter_filter]
  have hcomm : ∀ entry : Σ _ : InvocationId, InvocationStatusRecord,
      ((memOwnerDead s now seconds entry.2).getD false && decide (entry.2.status = .running)) =
        (decide (entry.2.status = .running) && (memOwnerDead s now seconds entry.2).getD false) :=
    fun entry => Bool.and_comm _ _
  simp only [hcomm]
  refine running_lists h h.same.memRecords
    (fun record => (memOwnerDead s now seconds record).getD false)
    (fun t => ¬ now - t < span seconds + 1000000000) ?_ ?_ id
  · intro id taskId record owner hlookup howner hdeclared
    have hheartbeat := h.heartbeats owner
    rw [hdeclared] at hheartbeat
    simp only [memOwnerDead, howner, hheartbeat, Option.map_none, cutoff_eq_some hrange,
      Option.map_some, Option.getD_some, decide_eq_true_eq]
  · intro record owner t flag howner hdeclared
    have hheartbeat := h.heartbeats owner
    rw [hdeclared] at hheartbeat
    simp only [memOwnerDead, howner, hheartbeat, Option.map_some, Option.getD_some,
      decide_eq_true_eq]
    rw [← not_le, numSeconds_le_iff]

include hnow

theorem sqliteStaleRunning_lists :
    Lists (sqliteStaleRunning text s now seconds)
      (OwnerDead s now seconds fun t => t < now - span seconds) := by
  have hle : now - span seconds ≤ now := sub_le_self now (span_nonneg seconds)
  refine ⟨_, by rw [sqliteStaleRunning, cutoff_eq_some hrange]; rfl, ?_⟩
  refine running_lists h h.same.rows _ _ ?_ ?_
  · intro id taskId record owner hlookup howner hdeclared
    have hrow : s.rows.lookup owner = none := by
      have hmap := h.rowTimes owner
      rw [hdeclared] at hmap
      exact Option.map_eq_none_iff.mp hmap
    simp only [howner, Option.bind_some, hrow]
    rw [decide_eq_true_iff]
    exact text.text_lt_iff (h.recordYears id taskId record hlookup) hnow hle
  · intro record owner t flag howner hdeclared
    have hmap := h.rowTimes owner
    rw [hdeclared] at hmap
    obtain ⟨row, hrow, htime⟩ := Option.map_eq_some_iff.mp hmap
    simp only [howner, Option.bind_some, hrow, htime]
    rw [decide_eq_true_iff]
    exact text.text_lt_iff (h.heartbeatYears owner t flag hdeclared) hnow hle

omit hnow

theorem redisStaleRunning_lists :
    Lists (redisStaleRunning text s now seconds)
      (OwnerDead s now seconds fun t => t < now - span seconds) := by
  refine ⟨_, by rw [redisStaleRunning, cutoff_eq_some hrange]; rfl, ?_⟩
  refine running_lists h h.same.redisRecords _ _ ?_ ?_
  · intro id taskId record owner hlookup howner hdeclared
    have hkey := h.keys owner
    rw [hdeclared] at hkey
    simp only [howner, hkey, Option.map_none, decide_eq_true_eq]
  · intro record owner t flag howner hdeclared
    have hkey := h.keys owner
    rw [hdeclared] at hkey
    have hparse := text.parse_rfc3339 t (h.heartbeatYears owner t flag hdeclared)
    simp only [howner, hkey, Option.map_some, hparse, Option.getD_some, decide_eq_true_eq]

end Running

section Active

/-- The runners that an answer is about. -/
def idsOf (answer : Option (List ActiveRunnerInfo)) : Option (List RunnerId) :=
  answer.map (List.map ActiveRunnerInfo.runnerId)

/-- `filter` of an optional flag, as a proposition. -/
def Passes (canRun : Option Bool) (flag : Bool) : Prop :=
  ∀ filter, canRun = some filter → flag = filter

theorem all_iff_passes (canRun : Option Bool) (flag : Bool) :
    (canRun.all fun filter => flag == filter) = true ↔ Passes canRun flag := by
  simp only [Option.all_eq_true, beq_iff_eq, Passes]

variable (h : Together text s) (hnow : text.fourDigitYear now) (hrange : InRange now seconds)

include h

theorem memActiveRunnerIds_lists :
    Lists (memActiveRunnerIds s now seconds)
      (Alive s (fun t => now - t < span seconds + 1000000000) fun _ => True) := by
  refine ⟨_, rfl, fun r => ?_⟩
  rw [mem_selected s.memory.heartbeats
    (fun _ lastHb => decide (numSeconds (now - lastHb) ≤ min (seconds : Int) i64Max)) r,
    h.heartbeats]
  simp only [Alive, decide_eq_true_eq, numSeconds_le_iff, and_true]
  cases s.declared.lookup r with
  | none => simp
  | some entry =>
      obtain ⟨t, flag⟩ := entry
      simp

theorem memActiveRunners_lists (canRun : Option Bool) :
    Lists (idsOf (memActiveRunners s now seconds canRun))
      (Alive s (fun t => now - t < span seconds + 1000000000) (Passes canRun)) := by
  refine ⟨_, rfl, fun r => ?_⟩
  simp only [List.mem_map, List.mem_mergeSort, List.mem_filter, Bool.and_eq_true,
    decide_eq_true_eq, numSeconds_le_iff, all_iff_passes, Alive]
  constructor
  · rintro ⟨info, ⟨entry, ⟨hentry, halive, hpasses⟩, rfl⟩, rfl⟩
    have hlookup : s.memory.heartbeats.lookup entry.1 = some entry.2 :=
      AList.mem_lookup_iff.mpr hentry
    rw [h.heartbeats] at hlookup
    obtain ⟨⟨t, flag⟩, hdeclared, rfl⟩ := Option.map_eq_some_iff.mp hlookup
    rw [h.eligible, hdeclared] at hpasses
    exact ⟨_, flag, hdeclared, halive, hpasses⟩
  · rintro ⟨t, flag, hdeclared, halive, hpasses⟩
    have hlookup : s.memory.heartbeats.lookup r = some t := by rw [h.heartbeats, hdeclared]; rfl
    refine ⟨_, ⟨⟨r, t⟩, ⟨AList.mem_lookup_iff.mp hlookup, halive, ?_⟩, rfl⟩, rfl⟩
    rw [h.eligible, hdeclared]
    exact hpasses

include hrange

theorem redisActiveRunnerIds_lists :
    Lists (redisActiveRunnerIds text s now seconds)
      (Alive s (fun t => now - span seconds ≤ t) fun _ => True) := by
  refine ⟨_, by rw [redisActiveRunnerIds, cutoff_eq_some hrange]; rfl, fun r => ?_⟩
  rw [mem_selected s.keys
    (fun _ text' => (text.parse text').any fun t => decide (now - span seconds ≤ t)) r, h.keys]
  simp only [Alive, and_true]
  cases hdeclared : s.declared.lookup r with
  | none => simp
  | some entry =>
      obtain ⟨t, flag⟩ := entry
      have hparse := text.parse_rfc3339 t (h.heartbeatYears r t flag hdeclared)
      simp [hparse]

theorem redisActiveRunners_lists (canRun : Option Bool) :
    Lists (idsOf (redisActiveRunners text s now seconds canRun))
      (Alive s (fun t => now - span seconds ≤ t) fun _ => True) := by
  refine ⟨_, by rw [idsOf, redisActiveRunners, cutoff_eq_some hrange]; rfl, fun r => ?_⟩
  simp only [List.mem_map, List.mem_filterMap, Option.bind_eq_some_iff, Alive, and_true]
  constructor
  · rintro ⟨info, ⟨entry, hentry, t, hparse, hinfo⟩, rfl⟩
    have hlookup : s.keys.lookup entry.1 = some entry.2 := AList.mem_lookup_iff.mpr hentry
    rw [h.keys] at hlookup
    obtain ⟨⟨last, flag⟩, hdeclared, htext⟩ := Option.map_eq_some_iff.mp hlookup
    rw [← htext, text.parse_rfc3339 last (h.heartbeatYears _ _ _ hdeclared)] at hparse
    obtain rfl := Option.some.inj hparse
    split at hinfo
    · rename_i halive
      obtain rfl := Option.some.inj hinfo
      exact ⟨last, flag, hdeclared, halive⟩
    · cases hinfo
  · rintro ⟨t, flag, hdeclared, halive⟩
    have hlookup : s.keys.lookup r = some (text.rfc3339 t) := by rw [h.keys, hdeclared]; rfl
    exact ⟨⟨r, t, t, true⟩, ⟨⟨r, text.rfc3339 t⟩, AList.mem_lookup_iff.mp hlookup, t,
      text.parse_rfc3339 t (h.heartbeatYears r t flag hdeclared), if_pos halive⟩, rfl⟩

include hnow

theorem sqliteActiveRunnerIds_lists :
    Lists (sqliteActiveRunnerIds text s now seconds)
      (Alive s (fun t => now - span seconds ≤ t) fun _ => True) := by
  have hle : now - span seconds ≤ now := sub_le_self now (span_nonneg seconds)
  refine ⟨_, by rw [sqliteActiveRunnerIds, cutoff_eq_some hrange]; rfl, fun r => ?_⟩
  rw [mem_selected s.rows
    (fun _ row => decide (text.rfc3339 (now - span seconds) ≤ row.lastHeartbeat)) r]
  have hmap := h.rowTimes r
  cases hdeclared : s.declared.lookup r with
  | none =>
      rw [hdeclared] at hmap
      simp [Option.map_eq_none_iff.mp hmap, Alive, hdeclared]
  | some entry =>
      obtain ⟨t, flag⟩ := entry
      rw [hdeclared] at hmap
      obtain ⟨row, hrow, htime⟩ := Option.map_eq_some_iff.mp hmap
      have hcompare := text.le_text_iff (h.heartbeatYears r t flag hdeclared) hnow hle
      simp [hrow, htime, Alive, hdeclared, hcompare]

theorem sqliteActiveRunners_lists (canRun : Option Bool) :
    Lists (idsOf (sqliteActiveRunners text s now seconds canRun))
      (Alive s (fun t => now - span seconds ≤ t) (Passes canRun)) := by
  have hle : now - span seconds ≤ now := sub_le_self now (span_nonneg seconds)
  refine ⟨_, by rw [idsOf, sqliteActiveRunners, cutoff_eq_some hrange]; rfl, fun r => ?_⟩
  simp only [List.mem_map, List.mem_filterMap, List.mem_filter, Bool.and_eq_true, all_iff_passes,
    Option.bind_eq_bind, Option.pure_def, Option.bind_eq_some_iff, Alive]
  constructor
  · rintro ⟨info, ⟨entry, ⟨hentry, halive, hpasses⟩, created, -, last, -, hinfo⟩, rfl⟩
    obtain rfl := Option.some.inj hinfo
    have hrow : s.rows.lookup entry.1 = some entry.2 := AList.mem_lookup_iff.mpr hentry
    have htimes := h.rowTimes entry.1
    have hflags := h.rowFlags entry.1
    rw [hrow] at htimes hflags
    obtain ⟨⟨t, flag⟩, hdeclared, htime⟩ := Option.map_eq_some_iff.mp htimes.symm
    rw [hdeclared] at hflags
    obtain rfl := Option.some.inj hflags
    have hcompare := text.le_text_iff (h.heartbeatYears _ _ _ hdeclared) hnow hle
    refine ⟨t, _, hdeclared, hcompare.mp ?_, hpasses⟩
    exact (show text.rfc3339 t = entry.2.lastHeartbeat from htime) ▸ of_decide_eq_true halive
  · rintro ⟨t, flag, hdeclared, halive, hpasses⟩
    have htimes := h.rowTimes r
    have hflags := h.rowFlags r
    rw [hdeclared] at htimes hflags
    obtain ⟨row, hrow, htime⟩ := Option.map_eq_some_iff.mp htimes
    rw [hrow] at hflags
    obtain rfl := Option.some.inj hflags
    have hcompare := text.le_text_iff (h.heartbeatYears _ _ _ hdeclared) hnow hle
    obtain ⟨created, hcreated⟩ := Option.isSome_iff_exists.mp (h.created r row hrow)
    have hparse := text.parse_rfc3339 t (h.heartbeatYears _ _ _ hdeclared)
    refine ⟨⟨r, created, t, row.canRunAtomicService⟩, ⟨⟨r, row⟩, ⟨AList.mem_lookup_iff.mp hrow,
      decide_eq_true ?_, hpasses⟩, created, hcreated, t, ?_, rfl⟩, rfl⟩
    · rw [htime]
      exact hcompare.mpr halive
    · rw [htime]
      exact hparse

end Active

end Answers

/-! ## When the verdicts agree -/

/-- The owner of a stale running invocation, if it has sent a heartbeat, is not active. -/
def StaleOwnersInactive (s : Cluster) (stale : Option (List InvocationId))
    (active : Option (List RunnerId)) : Prop :=
  ∀ ids runners, stale = some ids → active = some runners → ∀ id ∈ ids,
    ∀ taskId record owner, s.backings.stored.lookup id = some (taskId, record) →
      record.runnerId = some owner → (s.declared.lookup owner).isSome = true → owner ∉ runners

/-- The active runners that may run the atomic service are those whose last heartbeat lies
within the timeout and declared them eligible. -/
def ExactlyEligible (s : Cluster) (now : Timestamp) (seconds : Nat)
    (active : Option (List ActiveRunnerInfo)) : Prop :=
  Lists (idsOf active) fun r => ∃ t flag, s.declared.lookup r = some (t, flag) ∧
    now - t ≤ span seconds ∧ flag = true

section Agreement

variable {text : ClockText} {s : Cluster} {now : Timestamp} {seconds : Nat}

theorem stalePending_iff (h : Together text s) (hnow : text.fourDigitYear now) :
    SameSets (memStalePending s now seconds) (sqliteStalePending text s now seconds)
      (redisStalePending s now seconds) ↔ InRange now seconds := by
  constructor
  · intro hsame
    by_contra hrange
    refine not_sameSets ?_ hsame
    rw [sqliteStalePending, cutoff_eq_none hrange]
    rfl
  · intro hrange
    exact (sameSets_iff (memStalePending_lists h hrange) (sqliteStalePending_lists h hnow hrange)
      (redisStalePending_lists h hrange)).mpr fun _ => ⟨Iff.rfl, Iff.rfl⟩

/-- Two readings of the last heartbeat are told apart in the second after the timeout. -/
theorem readings_iff (t : Timestamp) :
    (now - t < span seconds + 1000000000 ↔ now - span seconds ≤ t) ↔ ¬ InGap now seconds t := by
  unfold InGap
  have hshift : now - span seconds ≤ t ↔ now - t ≤ span seconds := sub_le_comm
  rw [hshift]
  constructor
  · rintro hiff ⟨hafter, hbefore⟩
    exact absurd (hiff.mp hbefore) (not_le.mpr hafter)
  · intro hgap
    refine ⟨fun hlt => not_lt.mp fun hafter => hgap ⟨hafter, hlt⟩, fun hle => ?_⟩
    exact lt_of_le_of_lt hle (lt_add_of_pos_right _ (by decide))

theorem dead_readings_iff (t : Timestamp) :
    (¬ now - t < span seconds + 1000000000 ↔ t < now - span seconds) ↔ ¬ InGap now seconds t := by
  rw [← readings_iff, ← not_le (a := now - span seconds), not_iff_not]

theorem ownerDead_iff {dead dead' : Timestamp → Prop} :
    (∀ id, OwnerDead s now seconds dead id ↔ OwnerDead s now seconds dead' id) ↔
      ∀ id taskId record owner t flag,
        s.backings.stored.lookup id = some (taskId, record) → record.status = .running →
          record.runnerId = some owner → s.declared.lookup owner = some (t, flag) →
            (dead t ↔ dead' t) := by
  constructor
  · intro hall id taskId record owner t flag hlookup hrunning howner hdeclared
    -- who owns the invocation, and its last heartbeat, are determined
    have hread : ∀ verdict : Timestamp → Prop, OwnerDead s now seconds verdict id ↔ verdict t := by
      intro verdict
      constructor
      · rintro ⟨taskId', record', owner', hlookup', -, howner', hdead⟩
        obtain ⟨-, rfl⟩ := Prod.mk.inj (Option.some.inj (hlookup.symm.trans hlookup'))
        obtain rfl := Option.some.inj (howner.symm.trans howner')
        rcases hdead with ⟨hnone, -⟩ | ⟨t', flag', hdeclared', hverdict⟩
        · rw [hdeclared] at hnone
          cases hnone
        · obtain ⟨rfl, -⟩ := Prod.mk.inj (Option.some.inj (hdeclared.symm.trans hdeclared'))
          exact hverdict
      · intro hverdict
        exact ⟨taskId, record, owner, hlookup, hrunning, howner,
          .inr ⟨t, flag, hdeclared, hverdict⟩⟩
    rw [← hread dead, ← hread dead']
    exact hall id
  · intro hall id
    refine exists_congr fun taskId => exists_congr fun record => exists_congr fun owner =>
      and_congr_right fun hlookup => and_congr_right fun hrunning =>
        and_congr_right fun howner => or_congr Iff.rfl ?_
    exact exists_congr fun t => exists_congr fun flag => and_congr_right fun hdeclared =>
      hall id taskId record owner t flag hlookup hrunning howner hdeclared

theorem staleRunning_iff (h : Together text s) (hnow : text.fourDigitYear now) :
    SameSets (memStaleRunning s now seconds) (sqliteStaleRunning text s now seconds)
      (redisStaleRunning text s now seconds) ↔
      InRange now seconds ∧ ∀ id taskId record owner t flag,
        s.backings.stored.lookup id = some (taskId, record) → record.status = .running →
          record.runnerId = some owner → s.declared.lookup owner = some (t, flag) →
            ¬ InGap now seconds t := by
  by_cases hrange : InRange now seconds
  · rw [sameSets_iff (memStaleRunning_lists h hrange) (sqliteStaleRunning_lists h hnow hrange)
      (redisStaleRunning_lists h hrange)]
    simp only [and_true, hrange, true_and, ownerDead_iff, dead_readings_iff]
  · refine iff_of_false (not_sameSets ?_) fun h => hrange h.1
    rw [sqliteStaleRunning, cutoff_eq_none hrange]
    rfl

theorem alive_iff {alive alive' : Timestamp → Prop} {passes passes' : Bool → Prop} :
    (∀ r, Alive s alive passes r ↔ Alive s alive' passes' r) ↔
      ∀ r t flag, s.declared.lookup r = some (t, flag) →
        (alive t ∧ passes flag ↔ alive' t ∧ passes' flag) := by
  have hread : ∀ {verdict : Timestamp → Prop} {fits : Bool → Prop} {r : RunnerId} {t : Timestamp}
      {flag : Bool}, s.declared.lookup r = some (t, flag) →
        (Alive s verdict fits r ↔ verdict t ∧ fits flag) := by
    intro verdict fits r t flag hdeclared
    constructor
    · rintro ⟨t', flag', hdeclared', hverdict⟩
      cases hdeclared.symm.trans hdeclared'
      exact hverdict
    · exact fun hverdict => ⟨t, flag, hdeclared, hverdict⟩
  constructor
  · intro hall r t flag hdeclared
    rw [← hread hdeclared, ← hread hdeclared]
    exact hall r
  · intro hall r
    exact exists_congr fun t => exists_congr fun flag => and_congr_right fun hdeclared =>
      hall r t flag hdeclared

theorem activeRunnerIds_iff (h : Together text s) (hnow : text.fourDigitYear now) :
    SameSets (memActiveRunnerIds s now seconds) (sqliteActiveRunnerIds text s now seconds)
      (redisActiveRunnerIds text s now seconds) ↔
      InRange now seconds ∧ ∀ r t flag, s.declared.lookup r = some (t, flag) →
        ¬ InGap now seconds t := by
  by_cases hrange : InRange now seconds
  · rw [sameSets_iff (memActiveRunnerIds_lists h) (sqliteActiveRunnerIds_lists h hnow hrange)
      (redisActiveRunnerIds_lists h hrange)]
    simp only [and_true, hrange, true_and, alive_iff, readings_iff]
  · refine iff_of_false (not_sameSets ?_) fun h => hrange h.1
    rw [sqliteActiveRunnerIds, cutoff_eq_none hrange]
    rfl

/-- What keeps the answers about runners together: no runner that passes the filter lies in
the second after the timeout, and every runner within the timeout passes the filter. -/
def RunnersTogether (s : Cluster) (now : Timestamp) (seconds : Nat) (canRun : Option Bool) :
    Prop :=
  (∀ r t flag, s.declared.lookup r = some (t, flag) → Passes canRun flag →
    ¬ InGap now seconds t) ∧
  ∀ r t flag, s.declared.lookup r = some (t, flag) → now - t ≤ span seconds →
    Passes canRun flag

theorem runnersTogether_iff (canRun : Option Bool) :
    RunnersTogether s now seconds canRun ↔
      (∀ r, Alive s (fun t => now - t < span seconds + 1000000000) (Passes canRun) r ↔
        Alive s (fun t => now - span seconds ≤ t) (Passes canRun) r) ∧
      ∀ r, Alive s (fun t => now - span seconds ≤ t) (Passes canRun) r ↔
        Alive s (fun t => now - span seconds ≤ t) (fun _ => True) r := by
  simp only [alive_iff, and_true, RunnersTogether]
  refine and_congr ?_ ?_
  · refine forall_congr' fun r => forall_congr' fun t => forall_congr' fun flag =>
      forall_congr' fun _ => ?_
    rw [← readings_iff]
    exact and_congr_left_iff.symm
  · refine forall_congr' fun r => forall_congr' fun t => forall_congr' fun flag =>
      forall_congr' fun _ => ?_
    rw [and_iff_left_iff_imp, sub_le_comm]

theorem activeRunners_iff (h : Together text s) (hnow : text.fourDigitYear now)
    (canRun : Option Bool) :
    SameSets (idsOf (memActiveRunners s now seconds canRun))
      (idsOf (sqliteActiveRunners text s now seconds canRun))
      (idsOf (redisActiveRunners text s now seconds canRun)) ↔
      InRange now seconds ∧ RunnersTogether s now seconds canRun := by
  by_cases hrange : InRange now seconds
  · rw [sameSets_iff (memActiveRunners_lists h canRun)
      (sqliteActiveRunners_lists h hnow hrange canRun) (redisActiveRunners_lists h hrange canRun),
      runnersTogether_iff, forall_and]
    exact (and_iff_right hrange).symm
  · refine iff_of_false (not_sameSets ?_) fun h => hrange h.1
    rw [idsOf, sqliteActiveRunners, cutoff_eq_none hrange]
    rfl

/-- The eligible runners within the timeout. -/
theorem eligible_eq (r : RunnerId) :
    (∃ t flag, s.declared.lookup r = some (t, flag) ∧ now - t ≤ span seconds ∧ flag = true) ↔
      Alive s (fun t => now - span seconds ≤ t) (Passes (some true)) r := by
  refine exists_congr fun t => exists_congr fun flag => and_congr_right fun _ => ?_
  refine and_congr sub_le_comm ?_
  simp only [Passes, Option.some.injEq, forall_eq']

theorem exactlyEligible_iff (h : Together text s) (hnow : text.fourDigitYear now) :
    (ExactlyEligible s now seconds (memActiveRunners s now seconds (some true)) ∧
      ExactlyEligible s now seconds (sqliteActiveRunners text s now seconds (some true)) ∧
      ExactlyEligible s now seconds (redisActiveRunners text s now seconds (some true))) ↔
      InRange now seconds ∧ RunnersTogether s now seconds (some true) := by
  by_cases hrange : InRange now seconds
  · simp only [ExactlyEligible, eligible_eq]
    rw [lists_iff_of_lists (memActiveRunners_lists h (some true)),
      lists_iff_of_lists (sqliteActiveRunners_lists h hnow hrange (some true)),
      lists_iff_of_lists (redisActiveRunners_lists h hrange (some true)), runnersTogether_iff]
    simp only [hrange, true_and, implies_true]
    exact and_congr Iff.rfl ⟨fun hall r => (hall r).symm, fun hall r => (hall r).symm⟩
  · refine iff_of_false ?_ fun h => hrange h.1
    rintro ⟨-, ⟨xs, hsome, -⟩, -⟩
    rw [idsOf, sqliteActiveRunners, cutoff_eq_none hrange] at hsome
    cases hsome

/-- Dead by one reading of the last heartbeat is not alive by the same. -/
theorem staleOwnersInactive_of_lists {stale : Option (List InvocationId)}
    {active : Option (List RunnerId)} {alive : Timestamp → Prop}
    (hstale : Lists stale (OwnerDead s now seconds fun t => ¬ alive t))
    (hactive : Lists active (Alive s alive fun _ => True)) :
    StaleOwnersInactive s stale active := by
  obtain ⟨ids, rfl, hids⟩ := hstale
  obtain ⟨runners, rfl, hrunners⟩ := hactive
  rintro _ _ ⟨⟩ ⟨⟩ id hid taskId record owner hlookup howner hseen hin
  obtain ⟨taskId', record', owner', hlookup', -, howner', hdead⟩ := (hids id).mp hid
  obtain ⟨t, flag, hdeclared, halive, -⟩ := (hrunners owner).mp hin
  obtain ⟨-, rfl⟩ := Prod.mk.inj (Option.some.inj (hlookup.symm.trans hlookup'))
  obtain rfl := Option.some.inj (howner.symm.trans howner')
  rcases hdead with ⟨hnone, -⟩ | ⟨t', flag', hdeclared', hverdict⟩
  · rw [hnone] at hseen
    cases hseen
  · obtain ⟨rfl, -⟩ := Prod.mk.inj (Option.some.inj (hdeclared.symm.trans hdeclared'))
    exact hverdict halive

theorem of_mem_selectM {p : InvocationStatusRecord → Option Bool}
    {entries : List (Σ _ : InvocationId, InvocationStatusRecord)} {ids : List InvocationId}
    (h : selectM p entries = some ids) {id : InvocationId} (hid : id ∈ ids) :
    ∃ entry ∈ entries, entry.1 = id ∧ p entry.2 = some true := by
  induction entries generalizing ids with
  | nil =>
      cases h
      cases hid
  | cons entry rest ih =>
      simp only [selectM, Option.bind_eq_bind, Option.bind_eq_some_iff, Option.pure_def,
        Option.some.injEq] at h
      obtain ⟨keep, hkeep, others, hothers, rfl⟩ := h
      have hlater : id ∈ others → ∃ found ∈ entry :: rest, found.1 = id ∧
          p found.2 = some true := by
        intro hin
        obtain ⟨found, hfound, heq⟩ := ih hothers hin
        exact ⟨found, List.mem_cons_of_mem _ hfound, heq⟩
      split at hid
      · rename_i hkept
        rcases List.mem_cons.mp hid with rfl | hin
        · exact ⟨entry, List.mem_cons_self, rfl, by rw [hkeep, hkept]⟩
        · exact hlater hin
      · exact hlater hid

/-- In memory also where another owner's check would stop the task. -/
theorem memStaleOwnersInactive (h : Together text s) :
    StaleOwnersInactive s (memStaleRunning s now seconds) (memActiveRunnerIds s now seconds) := by
  intro ids runners hids hrunners id hid taskId record owner hlookup howner hseen hin
  obtain ⟨⟨_, stored⟩, hentry, rfl, hdead⟩ := of_mem_selectM hids hid
  have hstored := AList.mem_lookup_iff.mpr (List.mem_of_mem_filter hentry)
  rw [h.same.memRecords, hlookup] at hstored
  obtain rfl : record = stored := Option.some.inj hstored
  obtain ⟨⟨t, flag⟩, hdeclared⟩ := Option.isSome_iff_exists.mp hseen
  have hheartbeat := h.heartbeats owner
  rw [hdeclared] at hheartbeat
  simp only [memOwnerDead, howner, hheartbeat, Option.map_some, Option.some.injEq,
    decide_eq_true_eq] at hdead
  have hactive : Lists (memActiveRunnerIds s now seconds) _ := memActiveRunnerIds_lists h
  obtain ⟨runners', hsome, hmem⟩ := hactive
  obtain rfl := Option.some.inj (hsome.symm.trans hrunners)
  obtain ⟨t', flag', hdeclared', halive, -⟩ := (hmem owner).mp hin
  obtain ⟨rfl, -⟩ := Prod.mk.inj (Option.some.inj (hdeclared.symm.trans hdeclared'))
  exact absurd ((numSeconds_le_iff _ seconds).mpr halive) (not_le.mpr hdead)

end Agreement

/-- After every orderly run, at every instant and for every threshold: the stale pending
invocations agree where the cutoff is an instant; the stale running ones where no owner lies in
the second after the threshold; the active runners where none does, and, with a filter, where
the filter keeps every active runner; and what is stale has no active owner. -/
theorem livenessVerdicts_iff (text : ClockText) (fmt : Redis.StatusCas.RecordFormat)
    {calls : List LivenessCall} {s : Cluster} (horderly : OrderlyRun text ∅ calls)
    (hrun : Cluster.run text fmt {} calls = some s) {now : Timestamp}
    (hnow : text.fourDigitYear now) (seconds : Nat) (canRun : Option Bool) :
    (SameSets (memStalePending s now seconds) (sqliteStalePending text s now seconds)
      (redisStalePending s now seconds) ↔ InRange now seconds) ∧
    (SameSets (memStaleRunning s now seconds) (sqliteStaleRunning text s now seconds)
      (redisStaleRunning text s now seconds) ↔
      InRange now seconds ∧ ∀ id taskId record owner t flag,
        s.backings.stored.lookup id = some (taskId, record) → record.status = .running →
          record.runnerId = some owner → s.declared.lookup owner = some (t, flag) →
            ¬ InGap now seconds t) ∧
    (SameSets (memActiveRunnerIds s now seconds) (sqliteActiveRunnerIds text s now seconds)
      (redisActiveRunnerIds text s now seconds) ↔
      InRange now seconds ∧ ∀ r t flag, s.declared.lookup r = some (t, flag) →
        ¬ InGap now seconds t) ∧
    (SameSets (idsOf (memActiveRunners s now seconds canRun))
      (idsOf (sqliteActiveRunners text s now seconds canRun))
      (idsOf (redisActiveRunners text s now seconds canRun)) ↔
      InRange now seconds ∧ RunnersTogether s now seconds canRun) ∧
    ((ExactlyEligible s now seconds (memActiveRunners s now seconds (some true)) ∧
      ExactlyEligible s now seconds (sqliteActiveRunners text s now seconds (some true)) ∧
      ExactlyEligible s now seconds (redisActiveRunners text s now seconds (some true))) ↔
      InRange now seconds ∧ RunnersTogether s now seconds (some true)) ∧
    (StaleOwnersInactive s (memStaleRunning s now seconds) (memActiveRunnerIds s now seconds) ∧
      StaleOwnersInactive s (sqliteStaleRunning text s now seconds)
        (sqliteActiveRunnerIds text s now seconds) ∧
      StaleOwnersInactive s (redisStaleRunning text s now seconds)
        (redisActiveRunnerIds text s now seconds)) := by
  have h : Together text s := together_empty.run horderly hrun
  refine ⟨stalePending_iff h hnow, staleRunning_iff h hnow, activeRunnerIds_iff h hnow,
    activeRunners_iff h hnow canRun, exactlyEligible_iff h hnow, memStaleOwnersInactive h, ?_, ?_⟩
  · by_cases hrange : InRange now seconds
    · have hstale := sqliteStaleRunning_lists h hnow hrange
      simp only [← not_le] at hstale
      exact staleOwnersInactive_of_lists hstale (sqliteActiveRunnerIds_lists h hnow hrange)
    · rintro ids _ hids
      rw [sqliteStaleRunning, cutoff_eq_none hrange] at hids
      cases hids
  · by_cases hrange : InRange now seconds
    · have hstale := redisStaleRunning_lists h hrange
      simp only [← not_le] at hstale
      exact staleOwnersInactive_of_lists hstale (redisActiveRunnerIds_lists h hrange)
    · rintro ids _ hids
      rw [redisStaleRunning, cutoff_eq_none hrange] at hids
      cases hids

def sampleText : ClockText where
  toTimeText := firstNanoseconds
  parse text :=
    if text = "1970-01-01T00:00:00.000000001+00:00" then some 1
    else if text = "1970-01-01T00:00:00.000000002+00:00" then some 2
    else none
  parse_rfc3339 := by
    rintro t (rfl | rfl) <;> decide

/-- Two invocations are claimed; a main runner and a worker are heard from, and the worker runs
the first one. -/
def sampleCalls : List LivenessCall :=
  [.status (.register 1 ⟨"a"⟩ (sampleCall "f") none),
    .status (.register 1 ⟨"b"⟩ (sampleCall "f") none),
    .status (.setStatus 1 ⟨"a"⟩ .pending (some ⟨"worker"⟩)),
    .status (.setStatus 1 ⟨"b"⟩ .pending (some ⟨"worker"⟩)),
    .heartbeat 2 ⟨"main"⟩ true, .heartbeat 2 ⟨"worker"⟩ false,
    .status (.setStatus 2 ⟨"a"⟩ .running (some ⟨"worker"⟩))]

def sampleCluster : Cluster :=
  (Cluster.run sampleText Redis.StatusCas.plainFormat {} sampleCalls).getD {}

/-- The invocation that is still pending is stale everywhere. -/
theorem livenessVerdicts_pending :
    Cluster.run sampleText Redis.StatusCas.plainFormat {} sampleCalls = some sampleCluster ∧
      memStalePending sampleCluster 2 0 = some [⟨"b"⟩] ∧
      SameSets (memStalePending sampleCluster 2 0) (sqliteStalePending sampleText sampleCluster 2 0)
        (redisStalePending sampleCluster 2 0) ∧
      SameSets (memStaleRunning sampleCluster 2 0) (sqliteStaleRunning sampleText sampleCluster 2 0)
        (redisStaleRunning sampleText sampleCluster 2 0) ∧
      SameSets (memActiveRunnerIds sampleCluster 2 0)
        (sqliteActiveRunnerIds sampleText sampleCluster 2 0)
        (redisActiveRunnerIds sampleText sampleCluster 2 0) := by
  have horderly : OrderlyRun sampleText ∅ sampleCalls :=
    ⟨⟨.inl rfl, by decide⟩, ⟨.inl rfl, by decide⟩, .inl rfl, .inl rfl, .inr rfl, .inr rfl, .inr rfl,
      trivial⟩
  have hrun : Cluster.run sampleText Redis.StatusCas.plainFormat {} sampleCalls =
      some sampleCluster := rfl
  have hrange : InRange 2 0 := by unfold InRange; decide
  -- both heartbeats are of this instant
  have htimes : ∀ e ∈ sampleCluster.declared.entries, e.2.1 = 2 := by decide
  have hgap : ∀ r t flag, sampleCluster.declared.lookup r = some (t, flag) → ¬ InGap 2 0 t := by
    intro r t flag hdeclared
    obtain rfl : t = 2 := htimes _ (AList.mem_lookup_iff.mp hdeclared)
    unfold InGap
    decide
  obtain ⟨hpending, hrunning, hactive, -⟩ :=
    livenessVerdicts_iff sampleText Redis.StatusCas.plainFormat horderly hrun (.inr rfl) 0 none
  exact ⟨hrun, by decide, hpending.mpr hrange,
    hrunning.mpr ⟨hrange, fun _ _ _ owner t flag _ _ _ => hgap owner t flag⟩,
    hactive.mpr ⟨hrange, hgap⟩⟩

/-- On Redis a worker that declared itself not eligible is among the eligible runners. -/
theorem worker_counted_eligible :
    ¬ ∀ (text : ClockText) (fmt : Redis.StatusCas.RecordFormat) (calls : List LivenessCall)
        (s : Cluster) (now : Timestamp) (seconds : Nat), OrderlyRun text ∅ calls →
          Cluster.run text fmt {} calls = some s → text.fourDigitYear now →
            InRange now seconds →
              SameSets (idsOf (memActiveRunners s now seconds (some true)))
                (idsOf (sqliteActiveRunners text s now seconds (some true)))
                (idsOf (redisActiveRunners text s now seconds (some true))) := by
  intro h
  have horderly : OrderlyRun sampleText ∅ [.heartbeat 1 ⟨"worker"⟩ false] := ⟨.inl rfl, trivial⟩
  have hrun : Cluster.run sampleText Redis.StatusCas.plainFormat {} [.heartbeat 1 ⟨"worker"⟩ false] =
      some _ := rfl
  have hrange : InRange 1 0 := by unfold InRange; decide
  have hsame := h sampleText Redis.StatusCas.plainFormat _ _ 1 0 horderly hrun (.inl rfl) hrange
  have htogether := together_empty.run horderly hrun
  have hpasses := ((activeRunners_iff htogether (.inl rfl) (some true)).mp hsame).2.2
    ⟨"worker"⟩ 1 false (by decide) (by decide) true rfl
  cases hpasses

end Rustvello.Backends.Liveness
