import Rustvello.Backends.Liveness
import Rustvello.Mem.Runners

/-!
# Thresholds of any size

A threshold is a number of seconds that fits `u64`.  Every query that compares with one takes
the cutoff `Utc::now() - Duration::seconds(..)` after a clamp to `i64::MAX`, which is far
beyond what either of the two operations accepts.

* `timeDeltaSeconds`, `subTimeDelta`, `checkedCutoff` — the arithmetic of `chrono`, `none`
  where it panics; `checkedCutoff_eq` compares it with the `cutoff` of the queries;
* `runAutoPurge`, `sqliteRunAutoPurge`, `interruptedRecoveries`, `routeInvocationAfter` — the
  other computations with a threshold or a delay;
* `ReturnsExactly` — each of them returns exactly when its cutoff is an instant of the calendar,
  and a delay of any size is accepted;
* `NeverMoreStale` — of two thresholds the larger one selects no more;
* `thresholds_total_iff` — both hold; `largest_threshold_panics` — the clamp does not help.
-/

namespace Rustvello.Backends.Thresholds

open Concurrency Proto Rustvello.Core Mem Orchestration Liveness

/-! ## Arithmetic that panics -/

/-- `DateTime::<Utc>::MAX_UTC` -/
def maxInstant : Timestamp := 8210266876799999999999

/-- An instant that a clock shows. -/
structure UtcInstant where
  instant : Timestamp
  lower : Sqlite.minInstant ≤ instant
  upper : instant ≤ maxInstant

/-- `Duration::seconds`: a duration is limited by its milliseconds. -/
def timeDeltaSeconds (seconds : Int) : Option Int :=
  if -(i64Max / 1000) ≤ seconds ∧ seconds ≤ i64Max / 1000 then some (seconds * 1000000000)
  else none

/-- `DateTime - Duration` -/
def subTimeDelta (instant : Timestamp) (duration : Int) : Option Timestamp :=
  if Sqlite.minInstant ≤ instant - duration ∧ instant - duration ≤ maxInstant then
    some (instant - duration)
  else none

/-- `Utc::now() - Duration::seconds(i64::try_from(seconds).unwrap_or(i64::MAX))` -/
def checkedCutoff (now : Timestamp) (seconds : Nat) : Option Timestamp :=
  (timeDeltaSeconds (min (seconds : Int) i64Max)).bind (subTimeDelta now)

/-- **The limit of `Duration::seconds` is never the first one to be met.** -/
theorem checkedCutoff_eq (now : UtcInstant) (seconds : Nat) :
    checkedCutoff now.instant seconds = cutoff now.instant seconds := by
  obtain ⟨now, hlower, hupper⟩ := now
  show (timeDeltaSeconds (min (seconds : Int) i64Max)).bind (subTimeDelta now) =
    cutoff now seconds
  by_cases hrange : InRange now seconds
  · have hlimits : ∀ time capped : Int, 0 ≤ capped → time ≤ 8210266876799999999999 →
        -8334601228800 * 1000000000 ≤ time - capped * 1000000000 →
          (-(9223372036854775807 / 1000) ≤ capped ∧ capped ≤ 9223372036854775807 / 1000) ∧
            time - capped * 1000000000 ≤ 8210266876799999999999 := by
      intro time capped
      omega
    have hcapped : (0 : Int) ≤ min (seconds : Int) i64Max := by
      unfold i64Max
      omega
    obtain ⟨hseconds, hmax⟩ := hlimits now (min (seconds : Int) i64Max) hcapped hupper hrange
    have hdelta : timeDeltaSeconds (min (seconds : Int) i64Max) = some (span seconds) :=
      if_pos hseconds
    have hsub : subTimeDelta now (span seconds) = some (now - span seconds) :=
      if_pos ⟨hrange, hmax⟩
    rw [cutoff_eq_some hrange, hdelta, Option.bind_some, hsub]
  · rw [cutoff_eq_none hrange]
    unfold timeDeltaSeconds
    split
    · exact if_neg fun h => hrange h.1
    · rfl

/-! ## Where thresholds are used -/

/-- `MemOrchestrator::run_auto_purge` -/
def runAutoPurge (s : OrchestratorState) (order : List InvocationId) (now : Timestamp)
    (maxAgeSecs : Nat) : Option (List InvocationId × OrchestratorState) :=
  (cutoff now maxAgeSecs).map fun threshold =>
    let expired := (arrange order s.autoPurgeQueue.keys).filter fun id =>
      (s.autoPurgeQueue.lookup id).any fun scheduledAt => decide (scheduledAt ≤ threshold)
    let unscheduled := { s with
      autoPurgeQueue := expired.foldl (fun queue id => queue.erase id) s.autoPurgeQueue }
    (expired, expired.foldl removeInvocation unscheduled)

/-- `SqliteOrchestrator::run_auto_purge`; the column holds the text of the instant. -/
def sqliteRunAutoPurge (text : TimeText) (db : Sqlite.Database) (order : List InvocationId)
    (now : Timestamp) (maxAgeSecs : Nat) : Option (List InvocationId × Sqlite.Database) :=
  (cutoff now maxAgeSecs).map fun threshold =>
    let expired := (arrange order db.autoPurgeSchedule.keys).filter fun id =>
      (db.autoPurgeSchedule.lookup id).any fun scheduledAt =>
        decide (text.rfc3339 scheduledAt ≤ text.rfc3339 threshold)
    let unscheduled := { db with
      autoPurgeSchedule := expired.foldl (fun rows id => rows.erase id) db.autoPurgeSchedule }
    (expired, expired.foldl Sqlite.Database.removeInvocation unscheduled)

/-- `interrupted_recoveries`, with the panic of its cutoff. -/
def interruptedRecoveries : List (InvocationStatus × Nat) →
    Runner (Option (List (InvocationId × InvocationStatus)))
  | [] => pure (some [])
  | (status, staleAfter) :: rest => do
      match ← outcome (runnerPort (.getInvocationsByStatus status)) with
      | .error _ => interruptedRecoveries rest
      | .ok ids =>
          let now ← lift (port .utcNow)
          match cutoff now staleAfter with
          | none => pure none
          | some cutoff =>
              let found ← lift (interruptedSince status cutoff ids)
              let others ← interruptedRecoveries rest
              pure (others.map fun others => found ++ others)

/-- `Instant + Duration`, in nanoseconds: the seconds of an instant fit `i64`. -/
def addDuration (instant : Timestamp) (duration : Nat) : Option Timestamp :=
  if instant + duration < (i64Max + 1) * 1000000000 then some (instant + duration) else none

/-- `MemBroker::route_invocation_after` -/
def routeInvocationAfter (b : MemBroker) (now : Timestamp) (id : InvocationId)
    (taskId : Option TaskId) (queueName : String) (priority : F64) (delay : Nat) :
    Option (RustvelloResult Unit × MemBroker) :=
  match validateRouting queueName priority with
  | .error e => some (.error e, b)
  | .ok _ => (addDuration now delay).map fun notBefore =>
      (.ok (), b.push ⟨id, taskId, queueName, priority, some notBefore⟩)

/-! ## A pass with the clock going on -/

/-- The backends in memory, and what the clock is going to show. -/
structure Watch where
  runtime : MemRuntime
  readings : Nat → Timestamp

def Watch.exec (env : Env) : (c : runnerPorts.Op) → Watch → runnerPorts.Ret c × Watch
  | .inl .utcNow, w => (.ok (w.readings 0), { w with readings := fun n => w.readings (n + 1) })
  | c, w =>
      let answer := MemRuntime.execRunner env c w.runtime
      (answer.1, { w with runtime := answer.2 })

/-- The invocations that are in a recovery status since before the cutoff. -/
def stuckSince (s : OrchestratorState) (status : InvocationStatus) (cutoff : Timestamp)
    (ids : List InvocationId) : List (InvocationId × InvocationStatus) :=
  (ids.filter fun id => (s.statusRecords.lookup id).any fun record =>
    decide (record.status = status ∧ record.timestamp < cutoff)).map fun id => (id, status)

/-- What a pass finds interrupted. -/
def interruptedAmong (env : Env) (s : OrchestratorState) : (Nat → Timestamp) →
    List (InvocationStatus × Nat) → Option (List (InvocationId × InvocationStatus))
  | _, [] => some []
  | readings, (status, staleAfter) :: rest => do
      let cutoff ← cutoff (readings 0) staleAfter
      let others ← interruptedAmong env s (fun n => readings (n + 1)) rest
      pure (stuckSince s status cutoff (s.getInvocationsByStatus env.order status) ++ others)

section Pass

variable (env : Env)

theorem alone_lift {α : Type} (p : Orch α) (w : Watch) :
    Prog.aloneE (Watch.exec env) (lift p) w =
      Prog.aloneE (I := ports) (fun c => Watch.exec env (.inl c)) p w := by
  show (Prog.inl p.run).alone (Watch.exec env) w =
    p.run.alone (fun c => Watch.exec env (.inl c)) w
  generalize p.run = q
  induction q generalizing w with
  | done a => rfl
  | call c k ih => exact ih _ _

theorem interruptedSince_alone (status : InvocationStatus) (cutoff : Timestamp)
    (ids : List InvocationId) (w : Watch) :
    Prog.aloneE (I := ports) (fun c => Watch.exec env (.inl c)) (interruptedSince status cutoff ids) w =
      (.ok (stuckSince w.runtime.orchestrator status cutoff ids), w) := by
  induction ids with
  | nil => rfl
  | cons id ids ih =>
      have hstatus : Prog.aloneE (I := ports) (fun c => Watch.exec env (.inl c))
          (attempt (port (.getInvocationStatus id))) w =
            (.ok (w.runtime.orchestrator.getInvocationStatus id), w) := rfl
      unfold interruptedSince
      rw [Prog.aloneE_bind_ok hstatus]
      unfold OrchestratorState.getInvocationStatus stuckSince
      cases hrecord : w.runtime.orchestrator.statusRecords.lookup id with
      | none =>
          rw [List.filter_cons_of_neg (by rw [hrecord]; simp)]
          exact ih
      | some record =>
          by_cases hstuck : record.status = status ∧ record.timestamp < cutoff
          · rw [List.filter_cons_of_pos (by rw [hrecord]; simpa using hstuck)]
            refine (Prog.aloneE_bind_ok ih).trans ?_
            rw [if_pos hstuck]
            rfl
          · rw [List.filter_cons_of_neg (by rw [hrecord]; simpa using hstuck)]
            refine (Prog.aloneE_bind_ok ih).trans ?_
            rw [if_neg hstuck]
            rfl

theorem interruptedRecoveries_alone (entries : List (InvocationStatus × Nat)) (w : Watch) :
    (Prog.aloneE (Watch.exec env) (interruptedRecoveries entries) w).1 =
      .ok (interruptedAmong env w.runtime.orchestrator w.readings entries) := by
  induction entries generalizing w with
  | nil => rfl
  | cons entry rest ih =>
      obtain ⟨status, staleAfter⟩ := entry
      have hids : Prog.aloneE (Watch.exec env) (outcome (runnerPort (.getInvocationsByStatus status))) w =
          (.ok (.ok (w.runtime.orchestrator.getInvocationsByStatus env.order status)), w) := rfl
      have hnow : Prog.aloneE (Watch.exec env) (lift (port .utcNow)) w =
          (.ok (w.readings 0), { w with readings := fun n => w.readings (n + 1) }) := rfl
      unfold interruptedRecoveries interruptedAmong
      rw [Prog.aloneE_bind_ok hids]
      show (Prog.aloneE _ (lift (port .utcNow) >>= _) w).1 = _
      rw [Prog.aloneE_bind_ok hnow]
      cases cutoff (w.readings 0) staleAfter with
      | none => rfl
      | some threshold =>
          have hfound := (alone_lift env _ _).trans (interruptedSince_alone env status threshold
            (w.runtime.orchestrator.getInvocationsByStatus env.order status)
            { w with readings := fun n => w.readings (n + 1) })
          have hothers := ih { w with readings := fun n => w.readings (n + 1) }
          dsimp only
          rw [Prog.aloneE_bind_ok hfound]
          generalize hrest : Prog.aloneE (Watch.exec env) (interruptedRecoveries rest)
            { w with readings := fun n => w.readings (n + 1) } = answer at hothers
          obtain ⟨answer, t⟩ := answer
          obtain rfl : answer = _ := hothers
          rw [Prog.aloneE_bind_ok hrest]
          cases interruptedAmong env w.runtime.orchestrator (fun n => w.readings (n + 1)) rest <;>
            rfl

/-- A pass panics exactly when one of its cutoffs is none. -/
theorem interruptedAmong_isSome (s : OrchestratorState) (readings : Nat → Timestamp)
    (entries : List (InvocationStatus × Nat)) :
    (interruptedAmong env s readings entries).isSome = true ↔
      ∀ i (hi : i < entries.length), (cutoff (readings i) entries[i].2).isSome = true := by
  induction entries generalizing readings with
  | nil => exact iff_of_true rfl fun _ hi => absurd hi (Nat.not_lt_zero _)
  | cons entry rest ih =>
      obtain ⟨status, staleAfter⟩ := entry
      have hrest := ih fun n => readings (n + 1)
      have hstep : (interruptedAmong env s readings ((status, staleAfter) :: rest)).isSome = true ↔
          (cutoff (readings 0) staleAfter).isSome = true ∧
            (interruptedAmong env s (fun n => readings (n + 1)) rest).isSome = true := by
        rw [interruptedAmong]
        generalize interruptedAmong env s (fun n => readings (n + 1)) rest = others
        cases cutoff (readings 0) staleAfter <;> cases others <;> simp
      rw [hstep, hrest]
      constructor
      · rintro ⟨hfirst, hothers⟩ i hi
        cases i with
        | zero => exact hfirst
        | succ i => exact hothers i (Nat.lt_of_succ_lt_succ hi)
      · intro h
        exact ⟨h 0 (Nat.zero_lt_succ _), fun i hi => h (i + 1) (Nat.succ_lt_succ hi)⟩

end Pass

/-! ## Where they return -/

variable {now : Timestamp} {seconds : Nat}

theorem cutoff_isSome :
    (cutoff now seconds).isSome = true ↔ InRange now seconds := by
  by_cases h : InRange now seconds
  · rw [cutoff_eq_some h]
    exact iff_of_true rfl h
  · rw [cutoff_eq_none h]
    exact iff_of_false Bool.false_ne_true h

theorem cutoff_map_isSome {α : Type} (f : Timestamp → α) :
    ((cutoff now seconds).map f).isSome = true ↔ InRange now seconds := by
  rw [Option.isSome_map, cutoff_isSome]

theorem selectM_isSome {p : InvocationStatusRecord → Option Bool}
    {entries : List (Σ _ : InvocationId, InvocationStatusRecord)} :
    (selectM p entries).isSome = true ↔ ∀ entry ∈ entries, (p entry.2).isSome = true := by
  induction entries with
  | nil => exact iff_of_true rfl fun _ h => by cases h
  | cons entry rest ih =>
      rw [List.forall_mem_cons, ← ih, selectM]
      cases p entry.2 <;> cases selectM p rest <;> simp

/-- A running invocation is judged by the cutoff: its owner has no heartbeat. -/
def Unseen (s : Cluster) (record : InvocationStatusRecord) : Prop :=
  record.status = .running ∧ ∃ r, record.runnerId = some r ∧ s.memory.heartbeats.lookup r = none

theorem memStaleRunning_isSome (s : Cluster) (now : Timestamp) (seconds : Nat) :
    (memStaleRunning s now seconds).isSome = true ↔
      ((∃ entry ∈ s.backings.memory.statusRecords.entries, Unseen s entry.2) →
        InRange now seconds) := by
  have howner : ∀ record : InvocationStatusRecord, record.status = .running →
      ((memOwnerDead s now seconds record).isSome = true ↔
        (Unseen s record → InRange now seconds)) := by
    intro record hrunning
    unfold memOwnerDead Unseen
    cases howned : record.runnerId with
    | none => simp
    | some r =>
        cases hseen : s.memory.heartbeats.lookup r with
        | some last => simp [hseen]
        | none =>
            simp [hrunning, hseen, cutoff_isSome]
  unfold memStaleRunning
  rw [selectM_isSome]
  constructor
  · rintro h ⟨entry, hentry, hunseen⟩
    have hlisted := h entry (List.mem_filter.mpr ⟨hentry, decide_eq_true hunseen.1⟩)
    exact (howner entry.2 hunseen.1).mp hlisted hunseen
  · intro h entry hentry
    obtain ⟨hentry, hrunning⟩ := List.mem_filter.mp hentry
    exact (howner entry.2 (of_decide_eq_true hrunning)).mpr fun hunseen => h ⟨entry, hentry, hunseen⟩

/-- The panic of a task that a blocking call has spawned. -/
def joinError : RustvelloError :=
  .internal "spawn_blocking join error"

theorem staleCutoff_eq_ok (h : InRange now seconds) :
    Sqlite.staleCutoff now seconds = .ok (now - span seconds) :=
  if_neg (not_lt.mpr h)

theorem staleCutoff_eq_error (h : ¬ InRange now seconds) :
    Sqlite.staleCutoff now seconds = .error joinError :=
  if_pos (not_le.mp h)

variable {status : InvocationStatus} {old : InvocationStatusRecord} {db : Sqlite.Database}
  {id : InvocationId} {runner : RunnerId} {env : Env} {a b : Nat} {change : PublicationChange}
  {moved : InvocationStatusRecord × Sqlite.Database}

theorem transition_ne_joinError :
    Sqlite.transition env db id runner old status ≠ .error joinError := by
  unfold Sqlite.transition
  split
  · rename_i e _
    cases e <;> exact fun h => by cases h
  · exact fun h => by cases h

theorem point_ne_joinError {stage : String} :
    Sqlite.point env change stage ≠ .error joinError := by
  unfold Sqlite.point Sqlite.boundary
  split <;> exact fun h => by cases h

/-- What a recovery does once its cutoff is known. -/
def recoverSince (env : Env) (db : Sqlite.Database) (id : InvocationId) (runner : RunnerId)
    (old : InvocationStatusRecord) (status : InvocationStatus) (change : PublicationChange)
    (cutoff : Timestamp) : RustvelloResult (Option (InvocationStatusRecord × Sqlite.Database)) :=
  if cutoff ≤ Sqlite.lastSeen db old old.status then pure none
  else do
    let moved ← Sqlite.transition env db id runner old status
    Sqlite.point env change "recovery_status"
    pure (some moved)

theorem prepare_recover (hexpected : takenOverFrom status = some old.status) (seconds : Nat)
    (route : PublicationRoute) :
    Sqlite.prepare env db id runner old (.recover status seconds route) =
      (Sqlite.staleCutoff env.clock seconds).bind
        (recoverSince env db id runner old status (.recover status seconds route)) := by
  unfold Sqlite.prepare
  simp only [hexpected, ne_eq, not_true_eq_false, if_false]
  rfl

theorem recoverSince_ne_joinError {cutoff : Timestamp} :
    recoverSince env db id runner old status change cutoff ≠ .error joinError := by
  unfold recoverSince
  split
  · exact fun h => by cases h
  · intro h
    cases hmoved : Sqlite.transition env db id runner old status with
    | error e =>
        rw [hmoved] at h
        cases h
        exact transition_ne_joinError hmoved
    | ok moved =>
        cases hpoint : Sqlite.point env change "recovery_status" with
        | error e =>
            rw [hmoved, hpoint] at h
            cases h
            exact point_ne_joinError hpoint
        | ok u =>
            rw [hmoved, hpoint] at h
            cases h

theorem prepare_unexpected (hexpected : takenOverFrom status ≠ some old.status) (seconds : Nat)
    (route : PublicationRoute) :
    Sqlite.prepare env db id runner old (.recover status seconds route) = .ok none ∨
      Sqlite.prepare env db id runner old (.recover status seconds route) =
        .error (.configuration "invalid recovery status") := by
  unfold Sqlite.prepare
  cases htaken : takenOverFrom status with
  | none => exact .inr (by simp only [htaken])
  | some expected =>
      have hne : old.status ≠ expected := fun heq => hexpected (by rw [htaken, heq])
      exact .inl (by simp only [htaken, if_pos hne])

theorem prepare_panics {route : PublicationRoute} :
    Sqlite.prepare env db id runner old (.recover status seconds route) = .error joinError ↔
      takenOverFrom status = some old.status ∧ ¬ InRange env.clock seconds := by
  by_cases hexpected : takenOverFrom status = some old.status
  · rw [prepare_recover hexpected]
    by_cases hrange : InRange env.clock seconds
    · rw [staleCutoff_eq_ok hrange]
      exact iff_of_false recoverSince_ne_joinError fun h => h.2 hrange
    · rw [staleCutoff_eq_error hrange]
      exact iff_of_true rfl ⟨hexpected, hrange⟩
  · refine iff_of_false ?_ fun h => hexpected h.1
    rcases prepare_unexpected hexpected seconds route with hnone | hinvalid
    · rw [hnone]
      exact fun h => by cases h
    · rw [hinvalid]
      exact fun h => by cases h

/-- The largest `u64` -/
def u64Max : Nat := 18446744073709551615

/-- The computations with a threshold return exactly when the cutoff is an instant; a delay is
always accepted. -/
structure ReturnsExactly (text : ClockText) : Prop where
  arithmetic : ∀ (now : UtcInstant) seconds,
    (checkedCutoff now.instant seconds).isSome = true ↔ InRange now.instant seconds
  memPending : ∀ s now seconds, (memStalePending s now seconds).isSome = true ↔ InRange now seconds
  memRunning : ∀ s now seconds, (memStaleRunning s now seconds).isSome = true ↔
    ((∃ entry ∈ s.backings.memory.statusRecords.entries, Unseen s entry.2) → InRange now seconds)
  sqlitePending : ∀ s now seconds,
    (sqliteStalePending text s now seconds).isSome = true ↔ InRange now seconds
  sqliteRunning : ∀ s now seconds,
    (sqliteStaleRunning text s now seconds).isSome = true ↔ InRange now seconds
  sqliteRunners : ∀ s now seconds canRun,
    ((sqliteActiveRunnerIds text s now seconds).isSome = true ↔ InRange now seconds) ∧
      ((sqliteActiveRunners text s now seconds canRun).isSome = true ↔ InRange now seconds)
  memPurge : ∀ s order now seconds,
    (runAutoPurge s order now seconds).isSome = true ↔ InRange now seconds
  sqlitePurge : ∀ db order now seconds,
    (sqliteRunAutoPurge text.toTimeText db order now seconds).isSome = true ↔ InRange now seconds
  interrupted : ∀ env entries w, ∃ found,
    (Prog.aloneE (Watch.exec env) (interruptedRecoveries entries) w).1 = .ok found ∧
      (found.isSome = true ↔
        ∀ i (hi : i < entries.length), InRange (w.readings i) entries[i].2)
  recover : ∀ env db id runner old status seconds route,
    Sqlite.prepare env db id runner old (.recover status seconds route) ≠ .error joinError ↔
      (takenOverFrom status = some old.status → InRange env.clock seconds)
  delivery : ∀ b (now : UtcInstant) id taskId queueName priority (config : TaskConfig) retryCount unit,
    config.retryMaxDelayMs ≤ u64Max →
      (routeInvocationAfter b now.instant id taskId queueName priority
        (MemBroker.nanoseconds (config.retryDelay retryCount unit))).isSome = true

theorem clampUnit_le_one (unit : F64) : TaskConfig.clampUnit unit ≤ 1 := by
  cases unit <;> simp [TaskConfig.clampUnit]

theorem clampUnit_nonneg (unit : F64) : 0 ≤ TaskConfig.clampUnit unit := by
  cases unit <;> simp [TaskConfig.clampUnit]

/-- A delay stays below its cap. -/
theorem retryDelay_le (config : TaskConfig) (retryCount : Nat) (unit : F64) :
    config.retryDelay retryCount unit ≤ max config.retryMaxDelayMs 1 := by
  unfold TaskConfig.retryDelay
  split
  · exact Nat.zero_le _
  · have hbase : min ((config.retryDelayMs : ℚ) * config.backoffFactor ^ retryCount)
        ((max config.retryMaxDelayMs 1 : Nat) : ℚ) ≤ ((max config.retryMaxDelayMs 1 : Nat) : ℚ) :=
      min_le_right _ _
    have hnonneg : 0 ≤ min ((config.retryDelayMs : ℚ) * config.backoffFactor ^ retryCount)
        ((max config.retryMaxDelayMs 1 : Nat) : ℚ) := by
      have hfactor : 0 ≤ config.backoffFactor := by
        unfold TaskConfig.backoffFactor
        split
        · split
          · linarith
          · exact zero_le_one
        · exact zero_le_one
      positivity
    have hone := clampUnit_le_one unit
    have hzero := clampUnit_nonneg unit
    dsimp only
    generalize min ((config.retryDelayMs : ℚ) * config.backoffFactor ^ retryCount)
      ((max config.retryMaxDelayMs 1 : Nat) : ℚ) = base at hbase hnonneg
    generalize TaskConfig.clampUnit unit = u at hone hzero
    have hrounded : ∀ millis : ℚ, millis ≤ ((max config.retryMaxDelayMs 1 : Nat) : ℚ) →
        (round millis).toNat ≤ max config.retryMaxDelayMs 1 := by
      intro millis hmillis
      have hround := (round_le_add_half millis).trans (add_le_add_left hmillis (1 / 2))
      refine Int.toNat_le.mpr (Int.lt_add_one_iff.mp ?_)
      have hlt : ((round millis : Int) : ℚ) < ((max config.retryMaxDelayMs 1 : Nat) : ℚ) + 1 :=
        hround.trans_lt (by linarith)
      exact_mod_cast hlt
    cases config.retryJitter with
    | none => exact hrounded _ hbase
    | full => exact hrounded _ (by nlinarith)
    | equal => exact hrounded _ (by nlinarith)

theorem returnsExactly (text : ClockText) : ReturnsExactly text where
  arithmetic now seconds := by
    rw [checkedCutoff_eq, cutoff_isSome]
  memPending _ _ _ := cutoff_map_isSome _
  memRunning := memStaleRunning_isSome
  sqlitePending _ _ _ := cutoff_map_isSome _
  sqliteRunning _ _ _ := cutoff_map_isSome _
  sqliteRunners _ _ _ _ := ⟨cutoff_map_isSome _, cutoff_map_isSome _⟩
  memPurge _ _ _ _ := cutoff_map_isSome _
  sqlitePurge _ _ _ _ := cutoff_map_isSome _
  interrupted env entries w := by
    refine ⟨_, interruptedRecoveries_alone env entries w, ?_⟩
    rw [interruptedAmong_isSome]
    exact forall₂_congr fun i hi => cutoff_isSome
  recover env db id runner old status seconds route := by
    rw [ne_eq, prepare_panics, not_and_not_right]
  delivery b now id taskId queueName priority config retryCount unit hmax := by
    have hdelay := retryDelay_le config retryCount unit
    have hfits : ∀ time : Int, ∀ delay : Nat, time ≤ 8210266876799999999999 →
        delay ≤ max config.retryMaxDelayMs 1 →
          time + ((delay * 1000000 : Nat) : Int) <
            ((9223372036854775807 : Int) + 1) * 1000000000 := by
      unfold u64Max at hmax
      intro time delay
      omega
    unfold routeInvocationAfter addDuration
    split
    · rfl
    · have hinstant : now.instant + (MemBroker.nanoseconds (config.retryDelay retryCount unit) : Int) <
          (i64Max + 1) * 1000000000 := hfits now.instant _ now.upper hdelay
      rw [if_pos hinstant]
      rfl

/-! ## Larger thresholds -/

/-- Whatever is found with the larger threshold is found with the smaller one. -/
def NoMore {α : Type} (smaller larger : Option (List α)) : Prop :=
  ∀ ys, larger = some ys → ∃ xs, smaller = some xs ∧ ∀ y ∈ ys, y ∈ xs

theorem span_mono (h : a ≤ b) : span a ≤ span b := by
  unfold span i64Max
  omega

theorem inRange_of_le (hab : a ≤ b) (h : InRange now b) :
    InRange now a :=
  le_trans h (sub_le_sub_left (span_mono hab) now)

theorem cutoff_antitone (hab : a ≤ b) :
    now - span b ≤ now - span a :=
  sub_le_sub_left (span_mono hab) now

/-- A listing whose check follows the cutoff. -/
theorem noMore_of_forall {α : Type} {f : Timestamp → List α} (hab : a ≤ b)
    (h : ∀ x, x ∈ f (now - span b) → x ∈ f (now - span a)) :
    NoMore ((cutoff now a).map f) ((cutoff now b).map f) := by
  intro ys hys
  obtain ⟨threshold, hcutoff, rfl⟩ := Option.map_eq_some_iff.mp hys
  have hrange : InRange now b := cutoff_isSome.mp (by rw [hcutoff]; rfl)
  obtain rfl : now - span b = threshold :=
    Option.some.inj ((cutoff_eq_some hrange).symm.trans hcutoff)
  exact ⟨_, by rw [cutoff_eq_some (inRange_of_le hab hrange)]; rfl, h⟩

theorem mem_select_of_imp {table : Table InvocationId InvocationStatusRecord}
    {p q : InvocationStatusRecord → Bool} (h : ∀ record, p record = true → q record = true)
    (id : InvocationId) (hid : id ∈ select table p) : id ∈ select table q := by
  obtain ⟨entry, hentry, rfl⟩ := List.mem_map.mp hid
  obtain ⟨hmem, hp⟩ := List.mem_filter.mp hentry
  exact List.mem_map_of_mem (List.mem_filter.mpr ⟨hmem, h _ hp⟩)

theorem selectM_noMore {p q : InvocationStatusRecord → Option Bool}
    {entries : List (Σ _ : InvocationId, InvocationStatusRecord)}
    (h : ∀ record keep, q record = some keep →
      ∃ kept, p record = some kept ∧ (keep = true → kept = true)) :
    NoMore (selectM p entries) (selectM q entries) := by
  induction entries with
  | nil => exact fun ys hys => ⟨ys, hys, fun _ hy => hy⟩
  | cons entry rest ih =>
      intro ys hys
      obtain ⟨keep, hkeep, hys⟩ := Option.bind_eq_some_iff.mp hys
      obtain ⟨others, hothers, hys⟩ := Option.bind_eq_some_iff.mp hys
      obtain ⟨kept, hkept, himp⟩ := h _ _ hkeep
      obtain ⟨xs, hxs, hsub⟩ := ih others hothers
      obtain rfl := Option.some.inj hys
      refine ⟨if kept then entry.1 :: xs else xs, by rw [selectM, hkept, hxs]; rfl, ?_⟩
      intro y hy
      cases keep with
      | true =>
          rw [himp rfl]
          rcases List.mem_cons.mp hy with rfl | hy
          · exact List.mem_cons_self
          · exact List.mem_cons_of_mem _ (hsub y hy)
      | false =>
          cases kept with
          | true => exact List.mem_cons_of_mem _ (hsub y hy)
          | false => exact hsub y hy

theorem memStaleRunning_noMore (s : Cluster) (now : Timestamp) (hab : a ≤ b) :
    NoMore (memStaleRunning s now a) (memStaleRunning s now b) := by
  refine selectM_noMore fun record keep hkeep => ?_
  unfold memOwnerDead at hkeep ⊢
  cases howned : record.runnerId with
  | none =>
      simp only [howned] at hkeep
      exact ⟨true, rfl, fun _ => rfl⟩
  | some r =>
      simp only [howned] at hkeep ⊢
      cases hseen : s.memory.heartbeats.lookup r with
      | some last =>
          simp only [hseen] at hkeep
          obtain rfl := Option.some.inj hkeep
          refine ⟨_, rfl, fun hdead => ?_⟩
          have hcap : min (a : Int) i64Max ≤ min (b : Int) i64Max :=
            min_le_min_right _ (Int.ofNat_le.mpr hab)
          exact decide_eq_true (hcap.trans_lt (of_decide_eq_true hdead))
      | none =>
          simp only [hseen] at hkeep
          obtain ⟨threshold, hcutoff, rfl⟩ := Option.map_eq_some_iff.mp hkeep
          have hrange : InRange now b := cutoff_isSome.mp (by rw [hcutoff]; rfl)
          obtain rfl : now - span b = threshold :=
            Option.some.inj ((cutoff_eq_some hrange).symm.trans hcutoff)
          refine ⟨_, by rw [cutoff_eq_some (inRange_of_le hab hrange)]; rfl, fun hdead => ?_⟩
          exact decide_eq_true ((of_decide_eq_true hdead).trans_le (cutoff_antitone hab))

theorem mem_stuckSince_mono {s : OrchestratorState} {early late : Timestamp} (hle : early ≤ late)
    {ids : List InvocationId} {entry : InvocationId × InvocationStatus}
    (h : entry ∈ stuckSince s status early ids) :
    entry ∈ stuckSince s status late ids := by
  obtain ⟨id, hid, rfl⟩ := List.mem_map.mp h
  obtain ⟨hmem, hstuck⟩ := List.mem_filter.mp hid
  obtain ⟨record, hrecord, hold⟩ := Option.any_eq_true _ _ |>.mp hstuck
  have hold := of_decide_eq_true hold
  exact List.mem_map_of_mem (List.mem_filter.mpr ⟨hmem, Option.any_eq_true _ _ |>.mpr
    ⟨record, hrecord, decide_eq_true ⟨hold.1, hold.2.trans_le hle⟩⟩⟩)

theorem interruptedAmong_noMore (env : Env) (s : OrchestratorState) (readings : Nat → Timestamp)
    {smaller larger : List (InvocationStatus × Nat)}
    (h : List.Forall₂ (fun x y => x.1 = y.1 ∧ x.2 ≤ y.2) smaller larger) :
    NoMore (interruptedAmong env s readings smaller) (interruptedAmong env s readings larger) := by
  induction h generalizing readings with
  | nil => exact fun ys hys => ⟨ys, hys, fun _ hy => hy⟩
  | @cons x y xs ys hxy _ ih =>
      obtain ⟨status, a⟩ := x
      obtain ⟨status', b⟩ := y
      obtain ⟨rfl, hab⟩ := hxy
      intro found hfound
      obtain ⟨threshold, hcutoff, hfound⟩ := Option.bind_eq_some_iff.mp hfound
      obtain ⟨others, hothers, hfound⟩ := Option.bind_eq_some_iff.mp hfound
      obtain rfl := Option.some.inj hfound
      obtain ⟨more, hmore, hsub⟩ := ih _ others hothers
      have hrange : InRange (readings 0) b := cutoff_isSome.mp (by rw [hcutoff]; rfl)
      obtain rfl : readings 0 - span b = threshold :=
        Option.some.inj ((cutoff_eq_some hrange).symm.trans hcutoff)
      refine ⟨stuckSince s status (readings 0 - span a)
        (s.getInvocationsByStatus env.order status) ++ more, ?_, ?_⟩
      · rw [interruptedAmong, hmore, cutoff_eq_some (inRange_of_le hab hrange)]
        rfl
      · intro entry hentry
        rcases List.mem_append.mp hentry with hstuck | hother
        · exact List.mem_append_left _ (mem_stuckSince_mono (cutoff_antitone hab) hstuck)
        · exact List.mem_append_right _ (hsub entry hother)

theorem recoverSince_mono {early late : Timestamp} (hle : early ≤ late)
    (h : recoverSince env db id runner old status change early = .ok (some moved)) :
    recoverSince env db id runner old status change late = .ok (some moved) := by
  unfold recoverSince at h ⊢
  by_cases hseen : early ≤ Sqlite.lastSeen db old old.status
  · rw [if_pos hseen] at h
    cases h
  · rw [if_neg hseen] at h
    rw [if_neg fun hlate => hseen (hle.trans hlate)]
    exact h

theorem prepare_noMore (hab : a ≤ b) {route : PublicationRoute}
    (h : Sqlite.prepare env db id runner old (.recover status b route) = .ok (some moved)) :
    Sqlite.prepare env db id runner old (.recover status a route) = .ok (some moved) := by
  by_cases hexpected : takenOverFrom status = some old.status
  · rw [prepare_recover hexpected] at h ⊢
    by_cases hrange : InRange env.clock b
    · rw [staleCutoff_eq_ok hrange] at h
      rw [staleCutoff_eq_ok (inRange_of_le hab hrange)]
      exact recoverSince_mono (cutoff_antitone hab) h
    · rw [staleCutoff_eq_error hrange] at h
      cases h
  · rcases prepare_unexpected hexpected b route with hnone | hinvalid
    · rw [hnone] at h
      cases h
    · rw [hinvalid] at h
      cases h

/-- Of two thresholds the larger one selects no more; in SQLite, whose cutoffs are texts, exactly
when the text of its cutoff comes first. -/
structure NeverMoreStale (text : ClockText) : Prop where
  memPending : ∀ s now a b, a ≤ b → NoMore (memStalePending s now a) (memStalePending s now b)
  memRunning : ∀ s now a b, a ≤ b → NoMore (memStaleRunning s now a) (memStaleRunning s now b)
  memPurge : ∀ s order now a b, a ≤ b → NoMore ((runAutoPurge s order now a).map Prod.fst)
    ((runAutoPurge s order now b).map Prod.fst)
  interrupted : ∀ env s readings smaller larger,
    List.Forall₂ (fun x y => x.1 = y.1 ∧ x.2 ≤ y.2) smaller larger →
      NoMore (interruptedAmong env s readings smaller) (interruptedAmong env s readings larger)
  recover : ∀ env db id runner old status route a b moved, a ≤ b →
    Sqlite.prepare env db id runner old (.recover status b route) = .ok (some moved) →
      Sqlite.prepare env db id runner old (.recover status a route) = .ok (some moved)
  sqlitePending : ∀ now a b, a ≤ b → InRange now b →
    ((∀ s, NoMore (sqliteStalePending text s now a) (sqliteStalePending text s now b)) ↔
      text.rfc3339 (now - span b) ≤ text.rfc3339 (now - span a))
  sqliteRunning : ∀ now a b, a ≤ b → InRange now b →
    ((∀ s, NoMore (sqliteStaleRunning text s now a) (sqliteStaleRunning text s now b)) ↔
      text.rfc3339 (now - span b) ≤ text.rfc3339 (now - span a))
  sqlitePurge : ∀ now a b, a ≤ b → InRange now b →
    ((∀ db order,
      NoMore ((sqliteRunAutoPurge text.toTimeText db order now a).map Prod.fst)
        ((sqliteRunAutoPurge text.toTimeText db order now b).map Prod.fst)) ↔
      text.rfc3339 (now - span b) ≤ text.rfc3339 (now - span a))
  ordered : ∀ now a b, a ≤ b → text.fourDigitYear now → text.fourDigitYear (now - span a) →
    text.rfc3339 (now - span b) ≤ text.rfc3339 (now - span a)

section Texts

variable {text : ClockText} {now : Timestamp} {a b : Nat}

/-- A listing by texts grows with the text of the cutoff, and tells two cutoffs apart. -/
theorem noMore_iff_text {σ α : Type} (text : ClockText) {f : σ → Timestamp → List α} (hab : a ≤ b)
    (hrange : InRange now b)
    (hmono : ∀ s early late x, text.rfc3339 early ≤ text.rfc3339 late → x ∈ f s early → x ∈ f s late)
    (happart : ∀ early late, text.rfc3339 late < text.rfc3339 early →
      ∃ s x, x ∈ f s early ∧ x ∉ f s late) :
    (∀ s, NoMore ((cutoff now a).map (f s)) ((cutoff now b).map (f s))) ↔
      text.rfc3339 (now - span b) ≤ text.rfc3339 (now - span a) := by
  constructor
  · intro h
    by_contra hnot
    obtain ⟨s, x, hearly, hlate⟩ := happart _ _ (lt_of_not_ge hnot)
    obtain ⟨xs, hxs, hsub⟩ := h s _ (by rw [cutoff_eq_some hrange]; rfl)
    rw [cutoff_eq_some (inRange_of_le hab hrange)] at hxs
    obtain rfl := Option.some.inj hxs
    exact hlate (hsub x hearly)
  · intro hle s
    exact noMore_of_forall hab fun x => hmono s _ _ x hle

/-- A store that holds one record. -/
def holding (record : InvocationStatusRecord) : Cluster :=
  { backings := { sqlite := { statusRecords := AList.singleton ⟨"inv"⟩ record } } }

theorem mem_select_singleton {id : InvocationId} {record : InvocationStatusRecord}
    {p : InvocationStatusRecord → Bool} :
    id ∈ select (AList.singleton id record) p ↔ p record = true := by
  show id ∈ (List.filter (fun entry : Σ _ : InvocationId, InvocationStatusRecord => p entry.2)
    [⟨id, record⟩]).map Sigma.fst ↔ _
  cases hp : p record <;> simp [hp]

theorem sqliteStalePending_noMore (hab : a ≤ b) (hrange : InRange now b) :
    (∀ s, NoMore (sqliteStalePending text s now a) (sqliteStalePending text s now b)) ↔
      text.rfc3339 (now - span b) ≤ text.rfc3339 (now - span a) := by
  refine noMore_iff_text text hab hrange ?_ ?_
  · intro s early late id hle
    refine mem_select_of_imp (fun record h => ?_) id
    obtain ⟨hstatus, hold⟩ := Bool.and_eq_true_iff.mp h
    exact Bool.and_eq_true_iff.mpr
      ⟨hstatus, decide_eq_true ((of_decide_eq_true hold).trans_le hle)⟩
  · intro early late hlt
    refine ⟨holding ⟨.pending, none, late⟩, ⟨"inv"⟩, ?_, ?_⟩
    · exact mem_select_singleton.mpr (by simpa using hlt)
    · exact fun h => by simpa using mem_select_singleton.mp h

theorem sqliteStaleRunning_noMore (hab : a ≤ b) (hrange : InRange now b) :
    (∀ s, NoMore (sqliteStaleRunning text s now a) (sqliteStaleRunning text s now b)) ↔
      text.rfc3339 (now - span b) ≤ text.rfc3339 (now - span a) := by
  refine noMore_iff_text text hab hrange ?_ ?_
  · intro s early late id hle
    refine mem_select_of_imp (fun record h => ?_) id
    obtain ⟨hstatus, hold⟩ := Bool.and_eq_true_iff.mp h
    refine Bool.and_eq_true_iff.mpr ⟨hstatus, ?_⟩
    generalize record.runnerId.bind s.rows.lookup = owner at hold ⊢
    cases owner with
    | none => exact decide_eq_true ((of_decide_eq_true hold).trans_le hle)
    | some row => exact decide_eq_true ((of_decide_eq_true hold).trans_le hle)
  · intro early late hlt
    refine ⟨holding ⟨.running, none, late⟩, ⟨"inv"⟩, ?_, ?_⟩
    · exact mem_select_singleton.mpr (by simpa using hlt)
    · exact fun h => by simpa using mem_select_singleton.mp h

/-- What `run_auto_purge` finds expired in SQLite. -/
def expiredRows (text : TimeText) (db : Sqlite.Database) (order : List InvocationId)
    (threshold : Timestamp) : List InvocationId :=
  (arrange order db.autoPurgeSchedule.keys).filter fun id =>
    (db.autoPurgeSchedule.lookup id).any fun scheduledAt =>
      decide (text.rfc3339 scheduledAt ≤ text.rfc3339 threshold)

theorem sqliteRunAutoPurge_noMore (hab : a ≤ b) (hrange : InRange now b) :
    (∀ db order,
      NoMore ((sqliteRunAutoPurge text.toTimeText db order now a).map Prod.fst)
        ((sqliteRunAutoPurge text.toTimeText db order now b).map Prod.fst)) ↔
      text.rfc3339 (now - span b) ≤ text.rfc3339 (now - span a) := by
  have hexpired : ∀ db order seconds,
      (sqliteRunAutoPurge text.toTimeText db order now seconds).map Prod.fst =
        (cutoff now seconds).map (expiredRows text.toTimeText db order) :=
    fun _ _ _ => Option.map_map _ _ _
  have hboth := noMore_iff_text text
    (f := fun s : Sqlite.Database × List InvocationId => expiredRows text.toTimeText s.1 s.2)
    hab hrange ?_ ?_
  · simp only [hexpired]
    rw [← hboth]
    exact ⟨fun h s => h s.1 s.2, fun h db order => h (db, order)⟩
  · intro s early late id hle h
    obtain ⟨hmem, hdue⟩ := List.mem_filter.mp h
    obtain ⟨scheduledAt, hscheduled, hdue⟩ := Option.any_eq_true _ _ |>.mp hdue
    exact List.mem_filter.mpr ⟨hmem, Option.any_eq_true _ _ |>.mpr
      ⟨scheduledAt, hscheduled, decide_eq_true ((of_decide_eq_true hdue).trans hle)⟩⟩
  · intro early late hlt
    let rows : Table InvocationId Timestamp := AList.singleton ⟨"inv"⟩ early
    have hlookup : rows.lookup ⟨"inv"⟩ = some early := List.dlookup_cons_eq _ _ _
    refine ⟨({ autoPurgeSchedule := rows }, []), ⟨"inv"⟩, ?_, ?_⟩
    · have hkey : ⟨"inv"⟩ ∈ rows.keys :=
        AList.mem_keys.mpr (AList.lookup_isSome.mp (by rw [hlookup]; rfl))
      refine List.mem_filter.mpr ⟨(mem_arrange _ _ _).mpr hkey, ?_⟩
      rw [hlookup]
      exact decide_eq_true le_rfl
    · intro h
      have hdue := (List.mem_filter.mp h).2
      rw [hlookup] at hdue
      exact hlt.not_ge (of_decide_eq_true hdue)

end Texts

theorem neverMoreStale (text : ClockText) : NeverMoreStale text where
  memPending s now a b hab := by
    refine noMore_of_forall hab (mem_select_of_imp fun record h => ?_)
    obtain ⟨hstatus, hold⟩ := Bool.and_eq_true_iff.mp h
    exact Bool.and_eq_true_iff.mpr
      ⟨hstatus, decide_eq_true ((of_decide_eq_true hold).trans_le (cutoff_antitone hab))⟩
  memRunning s now _ _ hab := memStaleRunning_noMore s now hab
  memPurge s order now a b hab := by
    unfold runAutoPurge
    rw [Option.map_map, Option.map_map]
    refine noMore_of_forall hab fun id h => ?_
    obtain ⟨hmem, hdue⟩ := List.mem_filter.mp h
    obtain ⟨scheduledAt, hscheduled, hdue⟩ := Option.any_eq_true _ _ |>.mp hdue
    exact List.mem_filter.mpr ⟨hmem, Option.any_eq_true _ _ |>.mpr ⟨scheduledAt, hscheduled,
      decide_eq_true ((of_decide_eq_true hdue).trans (cutoff_antitone hab))⟩⟩
  interrupted env s readings _ _ h := interruptedAmong_noMore env s readings h
  recover _ _ _ _ _ _ _ _ _ _ hab h := prepare_noMore hab h
  sqlitePending _ _ _ hab hrange := sqliteStalePending_noMore hab hrange
  sqliteRunning _ _ _ hab hrange := sqliteStaleRunning_noMore hab hrange
  sqlitePurge _ _ _ hab hrange := sqliteRunAutoPurge_noMore hab hrange
  ordered now a b hab hnow hyear :=
    (text.le_text_iff hyear hnow
      ((cutoff_antitone hab).trans (sub_le_self _ (span_nonneg a)))).mpr (cutoff_antitone hab)

/-- **Thresholds of any size.**  A computation with a threshold returns exactly when its cutoff is
an instant of the calendar, and a larger threshold never makes more invocations stale, in SQLite
exactly as far as the texts of the cutoffs are ordered. -/
theorem thresholds_total_iff (text : ClockText) : ReturnsExactly text ∧ NeverMoreStale text :=
  ⟨returnsExactly text, neverMoreStale text⟩

/-- The clamp to `i64::MAX` does not help: the largest threshold stops the query. -/
theorem largest_threshold_panics :
    memStalePending {} 0 u64Max = none ∧ checkedCutoff 0 u64Max = none ∧
      ¬ ∀ (s : Cluster) (now : UtcInstant) (seconds : Nat), seconds ≤ u64Max →
        (memStalePending s now.instant seconds).isSome = true := by
  have hpanics : memStalePending {} 0 u64Max = none := by decide
  refine ⟨hpanics, by decide, fun htotal => ?_⟩
  have hreturns := htotal {} ⟨0, by decide, by decide⟩ u64Max le_rfl
  rw [hpanics] at hreturns
  cases hreturns

end Rustvello.Backends.Thresholds
