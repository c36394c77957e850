import Rustvello.Orchestration.Operations
import Rustvello.Sqlite.Runtime

/-!
# Slots of finished invocations on SQLite

Admission enters an invocation into `cc_arg_pairs` without a look at its status; rows go
away only inside the publication transactions that end or reroute the invocation.

* `Ended`, `Claiming` — a finished invocation; a worker between admission and its claim;
* `LiveSlots` — no finished invocation has rows; kept by every transaction, except by an
  admission of a finished invocation and by a final denial of one that has rows;
* `noLeak` — hence no slot leaks in runs without these two;
* `redelivered_leaks` — a worker that is handed an invocation just before another one
  finishes it enters the slot again, for good.
-/

namespace Rustvello.Sqlite

open Concurrency Proto Rustvello.Core Orchestration

/-- Any number of operations over the SQLite backends. -/
def sqliteMachine (leaseMs : Nat) (d : Deployment) : Machine ports Database Env Operation where
  exec := exec leaseMs
  program := Operation.program d

/-- The empty database before the first operation. -/
def sqliteStart : System ports Database Operation :=
  ⟨{}, []⟩

/-- The invocation has a terminal status. -/
def Ended (db : Database) (id : InvocationId) : Prop :=
  ∃ status ∈ db.statusOf id, status.isTerminal = true

instance (db : Database) (id : InvocationId) : Decidable (Ended db id) :=
  inferInstanceAs (Decidable (∃ status ∈ db.statusOf id, status.isTerminal = true))

/-- No finished invocation has rows. -/
def LiveSlots (db : Database) : Prop :=
  ∀ id, db.HoldsSlot id → ¬ Ended db id

/-- An admission of the invocation, or its claim. -/
def admitsOrClaims (id : InvocationId) : PortCall → Bool
  | .tryAcquireConcurrencySlot x _ _ _ => decide (x = id)
  | .publicationChange x _ (.status .pending) _ => decide (x = id)
  | _ => false

/-- The worker is between an admission of the invocation and its claim. -/
def Claiming (t : Thread ports Operation) (id : InvocationId) : Prop :=
  t.next?.isSome = true ∧
    ∃ e ∈ t.log.find? (fun e => admitsOrClaims id e.op), e.op.slotRequest?.isSome = true

/-- Finished invocations have rows only while a worker claims them. -/
def NoLeak (s : System ports Database Operation) : Prop :=
  ∀ id, s.shared.HoldsSlot id → Ended s.shared id → ∃ t ∈ s.threads, Claiming t id

/-- The task is limited and fewer others than the limit allows hold all the pairs. -/
def HasRoom (db : Database) (id : InvocationId) (taskId : TaskId) (config : TaskConfig)
    (ccArgs : Option SerializedArguments) : Prop :=
  config.concurrencyControl ≠ .unlimited ∧
    (db.reservedByOthers id taskId (ccArgs.getD .empty).ccArgPairs).length < config.limit

instance (db : Database) (id : InvocationId) (taskId : TaskId) (config : TaskConfig)
    (ccArgs : Option SerializedArguments) : Decidable (HasRoom db id taskId config ccArgs) :=
  inferInstanceAs (Decidable (_ ∧ _))

/-! ## What one call keeps -/

section Steps

variable {db db' : Database}

theorem statusOf_eq (db : Database) (id : InvocationId) :
    db.statusOf id = (db.standing id).record.map InvocationStatusRecord.status := rfl

/-- Rows and records change together: whoever has rows afterwards had them before and has
its old record, or is live. -/
theorem LiveSlots.of_cases (h : LiveSlots db)
    (hcases : ∀ id, db'.HoldsSlot id →
      db.HoldsSlot id ∧ (db'.standing id).record = (db.standing id).record ∨ ¬ Ended db' id) :
    LiveSlots db' := by
  intro id hholds
  rcases hcases id hholds with ⟨hold, hrecord⟩ | hlive
  · have hstatus : db'.statusOf id = db.statusOf id := by
      rw [statusOf_eq, hrecord, statusOf_eq]
    rintro ⟨status, hsome, hterminal⟩
    rw [hstatus] at hsome
    exact h id hold ⟨status, hsome, hterminal⟩
  · exact hlive

/-- A transaction that touches neither slots nor status records. -/
theorem LiveSlots.frame (h : LiveSlots db) (hslots : db'.ccArgPairs = db.ccArgPairs)
    (hrecords : db'.statusRecords = db.statusRecords) : LiveSlots db' := by
  refine h.of_cases fun id hholds => .inl ⟨?_, ?_⟩
  · rw [Database.holdsSlot_iff, ← hslots]
    exact (Database.holdsSlot_iff _ _).mp hholds
  · change db'.statusRecords.lookup id = db.statusRecords.lookup id
    rw [hrecords]

/-- A live record is not ended. -/
theorem not_ended_of_record {id : InvocationId} (record : InvocationStatusRecord)
    (hrecord : (db.standing id).record = some record)
    (hlive : record.status.isTerminal = false) : ¬ Ended db id := by
  rintro ⟨status, hsome, hterminal⟩
  rw [statusOf_eq, hrecord] at hsome
  cases hsome
  rw [hlive] at hterminal
  cases hterminal

theorem LiveSlots.submit (h : LiveSlots db) (env : Env) (s : SubmissionPublication) :
    LiveSlots (submit env s db).2 := by
  unfold Sqlite.submit
  split
  · exact h
  · exact h
  · rename_i committed hbody
    obtain ⟨-, -, haccept⟩ := submitBody_ok hbody
    obtain ⟨-, -, hslots, hstanding⟩ := acceptSubmission_ok haccept
    refine h.of_cases fun id hholds => ?_
    by_cases hid : id = s.invocation.invocationId
    · refine .inr (not_ended_of_record ⟨.registered, some s.runnerId, env.clock⟩ ?_ rfl)
      rw [hstanding, if_pos hid]
      rfl
    · refine .inl ⟨(hslots id hholds).resolve_left hid, ?_⟩
      rw [hstanding, if_neg hid]

/-- A committed change of an invocation that ends takes its rows away. -/
theorem LiveSlots.change (h : LiveSlots db) (env : Env) (id : InvocationId) (runner : RunnerId)
    (requested : PublicationChange) (autoPurge : Bool) :
    LiveSlots (change env id runner requested autoPurge db).2 := by
  unfold Sqlite.change
  split
  · exact h
  · exact h
  · rename_i record committed hbody
    obtain ⟨old, hold, hcases⟩ := changeBody_ok hbody
    -- the slots before the last transition were there before the first one
    have hbefore : ∃ mid db₁, completeChange env db₁ id runner mid requested autoPurge =
          .ok (record, committed) ∧ db₁.ccArgPairs = db.ccArgPairs ∧
        (∃ known, (db₁.standing id).record = some known) ∧
        ∀ x, x ≠ id → db₁.standing x = db.standing x := by
      rcases hcases with ⟨-, hcomplete⟩ | ⟨_, mid, db₁, -, -, hfirst, hcomplete⟩
      · exact ⟨old, db, hcomplete, rfl, ⟨old, hold⟩, fun _ _ => rfl⟩
      · obtain ⟨-, -, -, hclaims, hstanding⟩ := transition_ok hfirst
        refine ⟨mid, db₁, hcomplete, hclaims.slots, ⟨mid, ?_⟩, fun x hx => ?_⟩
        · rw [hstanding, if_pos rfl]
          change (db.statusRecords.lookup id).map (fun _ => mid) = some mid
          rw [hold]
          rfl
        · rw [hstanding, if_neg hx]
    obtain ⟨mid, db₁, hcomplete, hsame, ⟨known, hknown⟩, hothers⟩ := hbefore
    obtain ⟨-, htarget, -, hslots, hstanding⟩ := completeChange_ok hcomplete
    refine h.of_cases fun x hholds => ?_
    obtain ⟨hold₁, hends⟩ := hslots x hholds
    by_cases hx : x = id
    · right
      have hlive : record.status.isTerminal = false := by
        rw [htarget]
        by_contra hterminal
        exact hends (by simpa using hterminal) hx
      refine not_ended_of_record record ?_ hlive
      rw [hx, hstanding, if_pos rfl]
      have hpay : ∀ st : Standing, ((st.pay requested).route requested).record = st.record := by
        intro st
        cases requested <;> rfl
      rw [hpay]
      change (db₁.standing id).record.map (fun _ => record) = some record
      rw [hknown]
      rfl
    · left
      refine ⟨?_, ?_⟩
      · rw [Database.holdsSlot_iff, ← hsame]
        exact (Database.holdsSlot_iff _ _).mp hold₁
      · rw [hstanding, if_neg hx, hothers x hx]

/-- A direct status write leaves the rows as they are. -/
theorem LiveSlots.setInvocationStatus (h : LiveSlots db) (now : Timestamp) (id : InvocationId)
    (status : InvocationStatus) (runnerId : Option RunnerId)
    (hfinal : status.isTerminal = true →
      (∃ current ∈ db.statusOf id, current.canTransitionTo status = true) → ¬ db.HoldsSlot id) :
    LiveSlots (db.setInvocationStatus now id status runnerId).2 := by
  unfold Database.setInvocationStatus
  split
  · exact h
  · rename_i old hold
    split
    · exact h
    · rename_i record htrans
      obtain ⟨hcan, -, hrecord⟩ := (statusRecordTransition_ok_iff _ _ _ _ _).mp htrans
      have hstatus : record.status = status := by rw [hrecord]
      have hupdated : LiveSlots (db.updateStatus id record) := by
        refine h.of_cases fun x hholds => ?_
        have hx : db.HoldsSlot x := hholds
        rw [Database.standing_updateStatus]
        by_cases hid : x = id
        · right
          refine not_ended_of_record record ?_ ?_
          · rw [Database.standing_updateStatus, if_pos hid, hid]
            change (db.statusRecords.lookup id).map (fun _ => record) = some record
            rw [hold]
            rfl
          · rw [hstatus]
            by_contra hterminal
            refine hfinal (by simpa using hterminal) ⟨old.status, ?_, hcan⟩ (hid ▸ hx)
            rw [Database.statusOf, hold]
            rfl
        · exact .inl ⟨hx, by rw [if_neg hid]⟩
      dsimp only
      split
      · exact hupdated.frame rfl rfl
      · exact hupdated

/-- Admission: the invocation is live, or has no room. -/
theorem LiveSlots.tryAcquire (h : LiveSlots db) (id : InvocationId) (taskId : TaskId)
    (config : TaskConfig) (ccArgs : Option SerializedArguments)
    (hlive : HasRoom db id taskId config ccArgs → ¬ Ended db id) :
    LiveSlots (db.tryAcquireConcurrencySlot id taskId config ccArgs).2 := by
  unfold Database.tryAcquireConcurrencySlot
  split
  · exact h
  · rename_i hlimited
    dsimp only
    split
    · exact h
    · rename_i hroom
      refine h.of_cases fun x hholds => ?_
      by_cases hx : x = id
      · rw [hx]
        exact .inr (hlive ⟨hlimited, Nat.lt_of_not_le hroom⟩)
      · exact .inl ⟨(Database.holdsSlot_of_insertCcArgPairs _ _ _ hholds).resolve_left hx, rfl⟩

theorem LiveSlots.deleteCcArgPairs (h : LiveSlots db) (id : InvocationId) :
    LiveSlots (db.deleteCcArgPairs id) :=
  h.of_cases fun _ hholds =>
    .inl ⟨((Database.holdsSlot_deleteCcArgPairs _ _ _).mp hholds).2, rfl⟩

theorem LiveSlots.register (h : LiveSlots db) (now : Timestamp) (id : InvocationId)
    (call : CallDTO) (runnerId : Option RunnerId) :
    LiveSlots (db.registerInvocationWithId now id call runnerId).2 := by
  refine h.of_cases fun x hholds => ?_
  by_cases hx : x = id
  · right
    refine not_ended_of_record ⟨.registered, runnerId, now⟩ ?_ rfl
    rw [hx]
    exact AList.lookup_insert _
  · exact .inl ⟨hholds, AList.lookup_insert_ne hx⟩

end Steps

/-! ## Runs -/

/-- An admission, with all it is decided by. -/
def admission? :
    PortCall → Option (InvocationId × TaskId × TaskConfig × Option SerializedArguments)
  | .tryAcquireConcurrencySlot id taskId config ccArgs => some (id, taskId, config, ccArgs)
  | _ => none

/-- Admissions with room are of live invocations, and direct final writes that the status
machine accepts are of invocations without rows. -/
def liveAdmissions : Guard ports Database Operation where
  start _ _ := True
  call s _ c :=
    (∀ a ∈ admission? c, HasRoom s.shared a.1 a.2.1 a.2.2.1 a.2.2.2 → ¬ Ended s.shared a.1) ∧
    ∀ w ∈ c.statusWrite?, w.2.isTerminal = true →
      (∃ current ∈ s.shared.statusOf w.1, current.canTransitionTo w.2 = true) →
      ¬ s.shared.HoldsSlot w.1

section Runs

variable {leaseMs : Nat} {d : Deployment} {s : System ports Database Operation}

theorem liveSlots_exec {db : Database} (env : Env) {i : Nat} {c : PortCall}
    (hallowed : liveAdmissions.call s i c) (hdb : s.shared = db) (h : LiveSlots db) :
    LiveSlots (exec leaseMs env c db).2 := by
  subst hdb
  cases c <;> first | exact h | exact h.frame rfl rfl | skip
  case registerInvocationWithId id call runnerId => exact h.register env.clock id call runnerId
  case setInvocationStatus id status runnerId =>
      exact h.setInvocationStatus env.clock id status runnerId (hallowed.2 _ rfl)
  case tryAcquireConcurrencySlot id taskId config ccArgs =>
      exact h.tryAcquire id taskId config ccArgs (hallowed.1 _ rfl)
  case removeFromConcurrencyIndex id => exact h.deleteCcArgPairs id
  case routeInvocationWithOptions id taskId queue priority =>
      change LiveSlots (s.shared.routeInvocationWithOptions id taskId queue priority).2
      unfold Database.routeInvocationWithOptions
      split
      · exact h
      · exact h.frame rfl rfl
  case routeInvocationAfter id taskId queue priority delayMs =>
      change LiveSlots
        (s.shared.routeInvocationAfter env.clock id taskId queue priority delayMs).2
      unfold Database.routeInvocationAfter
      split
      · exact h
      · exact h.frame rfl rfl
  case retrieveInvocationForLanguageFromQueue language queue =>
      change LiveSlots (s.shared.reserve env leaseMs queue none (some language)).2
      unfold Database.reserve
      split
      · exact h
      · dsimp only
        split
        · exact h.frame rfl rfl
        · exact h.frame rfl rfl
  case publicationSubmit submission => exact h.submit env submission
  case publicationChange id runnerId requested autoPurge =>
      exact h.change env id runnerId requested autoPurge
  case publicationBeginExecution id runnerId retries incoming =>
      obtain ⟨_, heq⟩ := beginExecution_frame env id runnerId retries incoming s.shared
      change LiveSlots (beginExecution env id runnerId retries incoming s.shared).2
      rw [heq]
      exact h.frame rfl rfl
  case claimTriggerRunsWithRecords records =>
      change LiveSlots (claimTriggerRuns env records s.shared).2
      unfold claimTriggerRuns
      dsimp only
      split
      · exact h
      · exact h.frame rfl rfl

/-- Whoever counts against a limit has rows. -/
theorem holdsSlot_of_reserved {db : Database} {id x : InvocationId} {taskId : TaskId}
    {pairs : List (String × String)} (h : x ∈ db.reservedByOthers id taskId pairs) :
    db.HoldsSlot x := by
  have hmem : x ∈ ((db.matchingRows id taskId pairs).map Prod.fst).dedup :=
    (List.mem_filter.mp h).1
  obtain ⟨key, hkey, rfl⟩ := List.mem_map.mp (List.mem_dedup.mp hmem)
  exact ⟨key, (List.mem_filter.mp hkey).1, rfl⟩

/-- **No slot leaks**, in every run in which admissions with room are of live invocations
and final denials are of invocations without rows: finished invocations have rows only
while a worker claims them, and none counts against the limit of another one. -/
theorem noLeak
    (hreach : Reachable (sqliteMachine leaseMs d) liveAdmissions sqliteStart s) :
    NoLeak s ∧ ∀ id taskId pairs, ∀ x ∈ s.shared.reservedByOthers id taskId pairs,
      ¬ Ended s.shared x := by
  have hlive : LiveSlots s.shared := by
    refine Reachable.shared_invariant LiveSlots ?_ ?_ hreach
    · intro id hholds
      obtain ⟨key, hkey, -⟩ := hholds
      cases hkey
    · intro s i env c hallowed h
      exact liveSlots_exec env hallowed rfl h
  constructor
  · intro id hholds hended
    exact absurd hended (hlive id hholds)
  · intro id taskId pairs x hx
    exact hlive x (holdsSlot_of_reserved hx)

end Runs

instance (s : System ports Database Operation) (op : Operation) :
    Decidable (liveAdmissions.start s op) :=
  inferInstanceAs (Decidable True)

instance (s : System ports Database Operation) (i : Nat) (c : PortCall) :
    Decidable (liveAdmissions.call s i c) :=
  inferInstanceAs (Decidable ((∀ _ ∈ admission? c, _ → ¬ _) ∧ ∀ _ ∈ c.statusWrite?, _ → _ → ¬ _))

/-- The serial task over one database. -/
def transactionalDeployment : Deployment :=
  { serialDeployment with publication := true }

/-- Someone waits for `a`.  The first worker runs it; the second one finds it among the
waited-on invocations and is about to admit it. -/
def foundWhileRunning : List (Label Env Operation) :=
  .start (submitSerial "a") :: Label.steps 0 2 idleEnv ++
    .start (.waitFor ⟨"b"⟩ ⟨"a"⟩) :: Label.steps 1 1 idleEnv ++
    .start (.work .rust ⟨"w1"⟩) :: Label.steps 2 7 idleEnv ++
    .start (.work .rust ⟨"w2"⟩) :: Label.steps 3 4 idleEnv

/-- The second worker admits and gives up before the first one finishes. -/
theorem noLeak_foundWhileRunning :
    ∃ s, Reachable (sqliteMachine 60000 transactionalDeployment) liveAdmissions sqliteStart s ∧
      (s.shared.statusOf ⟨"a"⟩ = some .success ∧ ∀ t ∈ s.threads, t.next? = none) ∧
      NoLeak s ∧ ∀ id taskId pairs, ∀ x ∈ s.shared.reservedByOthers id taskId pairs,
        ¬ Ended s.shared x := by
  obtain ⟨s, hreach, hdone⟩ := Reachable.exists_of_run
    (sqliteMachine 60000 transactionalDeployment) liveAdmissions sqliteStart
    (foundWhileRunning ++ Label.steps 3 2 idleEnv ++ Label.steps 2 7 idleEnv)
    (fun s => s.shared.statusOf ⟨"a"⟩ = some .success ∧ ∀ t ∈ s.threads, t.next? = none)
    (by decide +kernel) (by decide +kernel)
  exact ⟨s, hreach, hdone, noLeak hreach⟩

/-- **A finished invocation keeps its slot.**  The first worker finishes `a`; then the
second one admits it, and its claim is refused.  All workers are idle, `a` has rows, and
they count against the next invocation of the task. -/
theorem redelivered_leaks :
    ∃ s, Reachable (sqliteMachine 60000 transactionalDeployment)
        (Guard.top ports Database Operation) sqliteStart s ∧
      ¬ NoLeak s ∧ (∀ t ∈ s.threads, t.next? = none) ∧
      ⟨"a"⟩ ∈ s.shared.reservedByOthers ⟨"c"⟩ serialTask (SerializedArguments.ccArgPairs .empty) ∧
      s.shared.statusOf ⟨"a"⟩ = some .success := by
  obtain ⟨s, hreach, hholds, hended, hidle, hcounts⟩ := Reachable.exists_of_run
    (sqliteMachine 60000 transactionalDeployment) (Guard.top ports Database Operation) sqliteStart
    (foundWhileRunning ++ Label.steps 2 7 idleEnv ++ Label.steps 3 2 idleEnv)
    (fun s => s.shared.HoldsSlot ⟨"a"⟩ ∧ s.shared.statusOf ⟨"a"⟩ = some .success ∧
      (∀ t ∈ s.threads, t.next? = none) ∧
      ⟨"a"⟩ ∈ s.shared.reservedByOthers ⟨"c"⟩ serialTask (SerializedArguments.ccArgPairs .empty))
    (Guard.allowsAll_top _ _ _) (by decide +kernel)
  refine ⟨s, hreach, fun hnoLeak => ?_, hidle, hcounts, hended⟩
  obtain ⟨t, ht, hopen, -⟩ := hnoLeak ⟨"a"⟩ hholds ⟨_, hended, rfl⟩
  rw [hidle t ht] at hopen
  cases hopen

end Rustvello.Sqlite
