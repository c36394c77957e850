import Rustvello.Orchestration.Operations
import Rustvello.Sqlite.Runtime
import Mathlib.Data.List.Chain

/-!
# Eight tables in step

Every committed state of a database that is written through submissions, status changes
and broker reservations: what the tables say about a submitted invocation agrees.

* `Trail` — both copies of the status and the newest history row agree, and the history
  is a path of the status machine from `registered`; one transition extends it;
* `InStep` — with the retry counter, the deliveries and the payloads;
* `inStep_complete` — a committed change keeps a standing in step, whichever of the nine
  variants it is;
* `Consistent` — the invariant of the whole database, kept by every transaction;
* `committed_inStep` — hence in every committed state.
-/

namespace Rustvello.Sqlite

open Proto Rustvello.Core

/-! ## One invocation -/

/-- The recorded statuses of an invocation agree, and its history is a path of allowed
transitions. -/
structure Trail (st : Standing) (status : InvocationStatus) : Prop where
  stored : st.stored = some status
  record : st.record.map InvocationStatusRecord.status = some status
  newest : st.path.getLast? = some status
  oldest : st.path.head? = some .registered
  allowed : st.path.IsChain fun a b => a.canTransitionTo b = true

/-- **An invocation in step**; `via` is its last committed change. -/
structure InStep (st : Standing) (via : Option PublicationChange)
    (status : InvocationStatus) : Prop extends Trail st status where
  retries : st.retries.getD 0 = st.path.count .retry
  queued : st.queued = if Database.deliverable status then 1 else 0
  result : ∀ payload, st.result = some payload ↔
    status = .success ∧ via = some (.success payload)
  error : ∀ payload, st.error = some payload ↔
    status = .failed ∧ via = some (.failure payload)

section Standings

variable {st : Standing} {status : InvocationStatus} {record : InvocationStatusRecord}
  {change : PublicationChange}

theorem Trail.move (h : Trail st status) (hcan : status.canTransitionTo record.status = true) :
    Trail (st.move record) record.status where
  stored := by simp [Standing.move, h.stored]
  record := by
    obtain ⟨old, hold, -⟩ := Option.map_eq_some_iff.mp h.record
    simp [Standing.move, hold]
  newest := by simp [Standing.move]
  oldest := by simp [Standing.move, h.oldest]
  allowed := by
    refine List.isChain_append.mpr ⟨h.allowed, List.isChain_singleton _, ?_⟩
    intro a ha b hb
    rw [h.newest] at ha
    cases ha
    cases hb
    exact hcan

/-- Payload, counter and delivery are no part of the trail. -/
theorem Trail.settle (h : Trail st status) : Trail ((st.pay change).route change) status := by
  cases change <;> exact ⟨h.stored, h.record, h.newest, h.oldest, h.allowed⟩

/-- The changes that callers make: a plain status change claims, runs, pauses, kills or
ends the invocation. -/
def Admissible : PublicationChange → Prop
  | .status status => status = .pending ∨ status = .running ∨ status = .paused ∨
      status = .killed ∨ status.isTerminal = true
  | _ => True

theorem targetOf_ne_retry (hchange : Admissible change)
    (h : ∀ route, change ≠ .retry route) (h' : ∀ route delay, change ≠ .delayedRetry route delay) :
    targetOf change ≠ .retry := by
  cases change with
  | status s =>
      intro hs
      have hall : ∀ s : InvocationStatus, (s = .pending ∨ s = .running ∨ s = .paused ∨
          s = .killed ∨ s.isTerminal = true) → s ≠ .retry := by decide
      exact hall s hchange hs
  | retry route => exact absurd rfl (h route)
  | delayedRetry route delay => exact absurd rfl (h' route delay)
  | reroute route => simp [targetOf]
  | concurrencyReroute route => simp [targetOf]
  | recover s stale route => simp [targetOf]
  | success result => simp [targetOf]
  | failure error => simp [targetOf]

/-- The counter counts the `retry` rows of the history. -/
theorem retries_settle (hchange : Admissible change) (hstatus : record.status = targetOf change)
    (h : st.retries.getD 0 = st.path.count .retry) :
    (((st.move record).pay change).route change).retries.getD 0 =
      (((st.move record).pay change).route change).path.count .retry := by
  have hcount : (st.path ++ [record.status]).count .retry =
      st.path.count .retry + if targetOf change = .retry then 1 else 0 := by
    rw [List.count_append, List.count_singleton, hstatus]
    simp
  -- only the two retries count
  have hother : (∀ route, change ≠ .retry route) →
      (∀ route delay, change ≠ .delayedRetry route delay) →
      st.retries.getD 0 = (st.path ++ [record.status]).count .retry := by
    intro hretry hdelayed
    rw [hcount, if_neg (targetOf_ne_retry hchange hretry hdelayed), h, Nat.add_zero]
  cases change with
  | retry route =>
      change st.retries.getD 0 + 1 = (st.path ++ [record.status]).count .retry
      rw [hcount, h]
      rfl
  | delayedRetry route delay =>
      change st.retries.getD 0 + 1 = (st.path ++ [record.status]).count .retry
      rw [hcount, h]
      rfl
  | status s => exact hother (by simp) (by simp)
  | reroute route => exact hother (by simp) (by simp)
  | concurrencyReroute route => exact hother (by simp) (by simp)
  | recover s stale route => exact hother (by simp) (by simp)
  | success result => exact hother (by simp) (by simp)
  | failure error => exact hother (by simp) (by simp)

/-- Changes with a route end deliverable, the others do not. -/
theorem deliverable_targetOf (hchange : Admissible change) :
    Database.deliverable (targetOf change) = (routeOf change).isSome := by
  cases change with
  | status s =>
      have hall : ∀ s : InvocationStatus, (s = .pending ∨ s = .running ∨ s = .paused ∨
          s = .killed ∨ s.isTerminal = true) → Database.deliverable s = false := by decide
      exact hall s hchange
  | retry route => rfl
  | delayedRetry route delay => rfl
  | reroute route => rfl
  | concurrencyReroute route => rfl
  | recover s stale route => rfl
  | success result => rfl
  | failure error => rfl

/-- One delivery after a change with a route, none after any other. -/
theorem queued_settle (hchange : Admissible change) (hstatus : record.status = targetOf change)
    (hcan : status.canTransitionTo (targetOf change) = true)
    (h : routeOf change = none → st.queued = if Database.deliverable status then 1 else 0) :
    (((st.move record).pay change).route change).queued =
      if Database.deliverable (targetOf change) then 1 else 0 := by
  have hpay : ∀ st : Standing, (st.pay change).queued = st.queued := by
    intro st
    cases change <;> rfl
  rw [deliverable_targetOf hchange]
  change (if (routeOf change).isSome then 1 else ((st.move record).pay change).queued) = _
  rw [hpay]
  cases hroute : routeOf change with
  | some route => rfl
  | none =>
      change (if record.status = .pending ∨ record.status.isTerminal = true then 0
        else st.queued) = 0
      split
      · rfl
      · rename_i hrunning
        rw [hstatus] at hrunning
        -- what can run, pause or be killed was claimed before
        have hclaimed : Database.deliverable status = false := by
          have hall : ∀ a b : InvocationStatus, a.canTransitionTo b = true →
              Database.deliverable b = false → ¬ (b = .pending ∨ b.isTerminal = true) →
              b ≠ .concurrencyControlled → Database.deliverable a = false := by decide
          refine hall status _ hcan ?_ hrunning ?_
          · rw [deliverable_targetOf hchange, hroute]
            rfl
          · cases change with
            | status s =>
                have hne : ∀ s : InvocationStatus, (s = .pending ∨ s = .running ∨ s = .paused ∨
                    s = .killed ∨ s.isTerminal = true) → s ≠ .concurrencyControlled := by decide
                exact hne s hchange
            | success result => simp [targetOf]
            | failure error => simp [targetOf]
            | retry route => cases hroute
            | delayedRetry route delay => cases hroute
            | reroute route => cases hroute
            | concurrencyReroute route => cases hroute
            | recover s stale route => cases hroute
        rw [h hroute, hclaimed]
        rfl

/-- Changes of two transitions publish the invocation again. -/
theorem routeOf_isSome_of_midStatus {mid : InvocationStatus}
    (h : midStatus change = some mid) : (routeOf change).isSome = true := by
  cases change <;> first | rfl | simp [midStatus] at h

theorem result_settle (h : st.result = none) (payload : String) :
    (((st.move record).pay change).route change).result = some payload ↔
      change = .success payload := by
  cases change <;> simp [Standing.route, Standing.pay, Standing.move, h]

theorem error_settle (h : st.error = none) (payload : TaskError) :
    (((st.move record).pay change).route change).error = some payload ↔
      change = .failure payload := by
  cases change <;> simp [Standing.route, Standing.pay, Standing.move, h]

/-- **A committed change keeps the invocation in step.** -/
theorem inStep_complete (htrail : Trail st status)
    (hretries : st.retries.getD 0 = st.path.count .retry)
    (hqueued : routeOf change = none → st.queued = if Database.deliverable status then 1 else 0)
    (hresult : st.result = none) (herror : st.error = none) (hchange : Admissible change)
    (hcan : status.canTransitionTo (targetOf change) = true)
    (hstatus : record.status = targetOf change) :
    InStep (((st.move record).pay change).route change) (some change) (targetOf change) := by
  refine ⟨?_, retries_settle hchange hstatus hretries,
    queued_settle hchange hstatus hcan hqueued, ?_, ?_⟩
  · rw [← hstatus] at hcan ⊢
    exact (htrail.move hcan).settle
  · intro payload
    rw [result_settle hresult]
    constructor
    · rintro rfl
      exact ⟨rfl, rfl⟩
    · rintro ⟨-, hvia⟩
      exact Option.some.inj hvia
  · intro payload
    rw [error_settle herror]
    constructor
    · rintro rfl
      exact ⟨rfl, rfl⟩
    · rintro ⟨-, hvia⟩
      exact Option.some.inj hvia

end Standings

/-! ## Runs -/

/-- The transactions of a run. -/
inductive Transaction where
  | submit (submission : SubmissionPublication)
  | change (id : InvocationId) (runner : RunnerId) (requested : PublicationChange)
      (autoPurge : Bool)
  | reserve (queue : String) (task : Option TaskId) (language : Option TaskLanguage)
  | heartbeat (runner : RunnerId)

namespace Transaction

/-- The database after the transaction, committed or rolled back. -/
def run (leaseMs : Nat) (env : Env) : Transaction → Database → Database
  | submit submission, db => (Sqlite.submit env submission db).2
  | change id runner requested autoPurge, db =>
      (Sqlite.change env id runner requested autoPurge db).2
  | reserve queue task language, db => (db.reserve env leaseMs queue task language).2
  | heartbeat runner, db => db.registerHeartbeat env.clock runner

/-- The change that the transaction commits. -/
def committed? (env : Env) (db : Database) :
    Transaction → Option (InvocationId × PublicationChange)
  | change id runner requested autoPurge =>
      match changeBody env id runner requested autoPurge db with
      | .ok (some _) => some (id, requested)
      | _ => none
  | _ => none

def IsAdmissible : Transaction → Prop
  | change _ _ requested _ => Admissible requested
  | _ => True

end Transaction

/-- The committed states of all runs, each with its committed changes, newest first.  The
environment of a transaction may stop it at any boundary. -/
inductive Committed (leaseMs : Nat) :
    Database → List (InvocationId × PublicationChange) → Prop where
  | empty : Committed leaseMs {} []
  | next {db : Database} {log : List (InvocationId × PublicationChange)} (env : Env)
      (t : Transaction) : Committed leaseMs db log → t.IsAdmissible →
      Committed leaseMs (t.run leaseMs env db) ((t.committed? env db).toList ++ log)

/-- The newest committed change of an invocation. -/
def lastChange (log : List (InvocationId × PublicationChange)) (id : InvocationId) :
    Option PublicationChange :=
  (log.find? fun entry => entry.1 = id).map Prod.snd

theorem lastChange_cons (log : List (InvocationId × PublicationChange)) (id x : InvocationId)
    (change : PublicationChange) :
    lastChange ((id, change) :: log) x = if x = id then some change else lastChange log x := by
  by_cases hx : x = id
  · simp [lastChange, hx]
  · have hne : id ≠ x := Ne.symm hx
    simp [lastChange, hx, hne]

/-- **The invariant.**  Submitted invocations are in step, about all others the tables
say nothing. -/
structure Consistent (db : Database) (log : List (InvocationId × PublicationChange)) :
    Prop where
  submitted : ∀ id, (db.submissionPublications.lookup id).isSome = true →
    ∃ status, InStep (db.standing id) (lastChange log id) status
  unknown : ∀ id, db.submissionPublications.lookup id = none →
    (db.standing id).record = none ∧ (db.standing id).retries = none ∧ lastChange log id = none

section Steps

variable {db db' : Database} {log : List (InvocationId × PublicationChange)} {env : Env}
  {record : InvocationStatusRecord} {requested : PublicationChange}

/-- A transaction that changes neither submissions nor standings. -/
theorem Consistent.frame (h : Consistent db log)
    (hsubmissions : db'.submissionPublications = db.submissionPublications)
    (hstanding : ∀ x, db'.standing x = db.standing x) : Consistent db' log := by
  constructor
  · intro id hid
    rw [hsubmissions] at hid
    rw [hstanding]
    exact h.submitted id hid
  · intro id hid
    rw [hsubmissions] at hid
    rw [hstanding]
    exact h.unknown id hid

theorem Consistent.submit (h : Consistent db log) {s : SubmissionPublication}
    (hbody : submitBody env s db = .ok (some db')) : Consistent db' log := by
  obtain ⟨hnew, hfree, haccept⟩ := submitBody_ok hbody
  obtain ⟨-, hsubmissions, -, hstanding⟩ := acceptSubmission_ok haccept
  obtain ⟨-, hretries, hvia⟩ := h.unknown _ hnew
  -- nothing was stored under the id
  have hpath : (db.standing s.invocation.invocationId).path = [] := by
    simp only [Database.standing, List.map_eq_nil_iff, List.filter_eq_nil_iff]
    intro row hrow
    simp only [occupied, Bool.or_eq_false_iff, List.any_eq_false] at hfree
    exact hfree.1.1.1.1.2 row hrow
  have hresult : (db.standing s.invocation.invocationId).result = none := by
    simp only [occupied, Bool.or_eq_false_iff, Option.isSome_eq_false_iff,
      Option.isNone_iff_eq_none] at hfree
    exact hfree.1.1.1.2
  have herror : (db.standing s.invocation.invocationId).error = none := by
    simp only [occupied, Bool.or_eq_false_iff, Option.isSome_eq_false_iff,
      Option.isNone_iff_eq_none] at hfree
    exact hfree.1.1.2
  constructor
  · intro id hid
    rw [hstanding]
    by_cases hx : id = s.invocation.invocationId
    · refine ⟨.registered, ?_⟩
      rw [if_pos hx, hx, hvia]
      refine ⟨⟨rfl, rfl, ?_, ?_, ?_⟩, ?_, rfl, ?_, ?_⟩
      · simp [Standing.enter]
      · simp [Standing.enter, hpath]
      · simp [Standing.enter, hpath]
      · simp [Standing.enter, hpath, hretries]
      · simp [Standing.enter, hresult]
      · simp [Standing.enter, herror]
    · rw [if_neg hx]
      rw [hsubmissions, AList.lookup_insert_ne hx] at hid
      exact h.submitted id hid
  · intro id hid
    have hx : id ≠ s.invocation.invocationId := by
      rintro rfl
      rw [hsubmissions, AList.lookup_insert] at hid
      cases hid
    rw [hsubmissions, AList.lookup_insert_ne hx] at hid
    rw [hstanding, if_neg hx]
    exact h.unknown id hid

/-- The standing of the changed invocation, in step again. -/
theorem inStep_change {id : InvocationId} {runner : RunnerId} {autoPurge : Bool}
    {via : Option PublicationChange} {status : InvocationStatus}
    (hstep : InStep (db.standing id) via status) (hchange : Admissible requested)
    (hbody : changeBody env id runner requested autoPurge db = .ok (some (record, db'))) :
    db'.submissionPublications = db.submissionPublications ∧
      (∀ x, x ≠ id → db'.standing x = db.standing x) ∧
      InStep (db'.standing id) (some requested) (targetOf requested) := by
  obtain ⟨old, hold, hcases⟩ := changeBody_ok hbody
  have hstatus : old.status = status := by
    have hrecord := hstep.record
    rw [show (db.standing id).record = some old from hold] at hrecord
    exact Option.some.inj hrecord
  -- a status that can be left is not terminal, so there is no payload yet
  have hnoPayload : ∀ {next : InvocationStatus}, status.canTransitionTo next = true →
      (db.standing id).result = none ∧ (db.standing id).error = none := by
    intro next hcan
    constructor
    · rw [Option.eq_none_iff_forall_ne_some]
      intro payload hsome
      obtain ⟨rfl, -⟩ := (hstep.result payload).mp hsome
      rw [InvocationStatus.canTransitionTo_of_isTerminal (by decide)] at hcan
      cases hcan
    · rw [Option.eq_none_iff_forall_ne_some]
      intro payload hsome
      obtain ⟨rfl, -⟩ := (hstep.error payload).mp hsome
      rw [InvocationStatus.canTransitionTo_of_isTerminal (by decide)] at hcan
      cases hcan
  rcases hcases with ⟨-, hcomplete⟩ | ⟨mid, midRecord, db₁, hmid, hpassing, hfirst, hcomplete⟩
  · obtain ⟨hcan, htarget, hsubmissions, -, hstanding⟩ := completeChange_ok hcomplete
    rw [hstatus] at hcan
    obtain ⟨hresult, herror⟩ := hnoPayload hcan
    refine ⟨hsubmissions, fun x hx => by rw [hstanding, if_neg hx], ?_⟩
    rw [hstanding, if_pos rfl]
    exact inStep_complete hstep.toTrail hstep.retries (fun _ => hstep.queued) hresult herror
      hchange hcan htarget
  · obtain ⟨hcan₁, hmidStatus, -, hclaims, hstanding₁⟩ := transition_ok hfirst
    obtain ⟨hcan, htarget, hsubmissions, -, hstanding⟩ := completeChange_ok hcomplete
    rw [hstatus] at hcan₁
    obtain ⟨hresult, herror⟩ := hnoPayload hcan₁
    refine ⟨hsubmissions.trans hclaims.submissions, fun x hx => ?_, ?_⟩
    · rw [hstanding, if_neg hx, hstanding₁, if_neg hx]
    · rw [hstanding, if_pos rfl, hstanding₁, if_pos rfl]
      rw [← hmidStatus] at hcan₁
      refine inStep_complete (hstep.toTrail.move hcan₁) ?_ ?_ hresult herror hchange hcan htarget
      · -- the passing status is not a retry
        have hne : midRecord.status ≠ .retry := by
          rw [hmidStatus]
          rcases hpassing with rfl | rfl | rfl <;> decide
        change (db.standing id).retries.getD 0 =
          ((db.standing id).path ++ [midRecord.status]).count .retry
        rw [List.count_append, List.count_singleton, hstep.retries]
        simp [hne]
      · intro hroute
        have hsome := routeOf_isSome_of_midStatus hmid
        rw [hroute] at hsome
        cases hsome

theorem Consistent.change (h : Consistent db log) {id : InvocationId} {runner : RunnerId}
    {autoPurge : Bool} (hchange : Admissible requested)
    (hbody : changeBody env id runner requested autoPurge db = .ok (some (record, db'))) :
    Consistent db' ((id, requested) :: log) := by
  have hsubmitted : (db.submissionPublications.lookup id).isSome = true := by
    by_contra hnone
    obtain ⟨hrecord, -⟩ := h.unknown id (by simpa using hnone)
    obtain ⟨old, hold, -⟩ := changeBody_ok hbody
    rw [show (db.standing id).record = some old from hold] at hrecord
    cases hrecord
  obtain ⟨status, hstep⟩ := h.submitted id hsubmitted
  obtain ⟨hsubmissions, hothers, hstep'⟩ := inStep_change hstep hchange hbody
  constructor
  · intro x hx
    rw [lastChange_cons]
    by_cases heq : x = id
    · rw [if_pos heq, heq]
      exact ⟨_, hstep'⟩
    · rw [if_neg heq, hothers x heq]
      rw [hsubmissions] at hx
      exact h.submitted x hx
  · intro x hx
    rw [hsubmissions] at hx
    have heq : x ≠ id := by
      rintro rfl
      rw [hx] at hsubmitted
      cases hsubmitted
    rw [lastChange_cons, if_neg heq, hothers x heq]
    exact h.unknown x hx

/-- Reservations delete no delivery of an invocation in step, and so do not change what
the tables say about it. -/
theorem Consistent.reserve (h : Consistent db log) (leaseMs : Nat) (queue : String)
    (task : Option TaskId) (language : Option TaskLanguage) :
    Consistent (db.reserve env leaseMs queue task language).2 log := by
  have hcleanup : Consistent (db.cleanup env.rowOrder queue) log := by
    refine h.frame rfl fun x => ?_
    rw [Database.cleanup, Database.standing_deleteQueueRows]
    generalize (arrange env.rowOrder _).take Database.cleanupBatch = selected
    -- a row that goes belongs to an owned or ended invocation, which has none
    have hkept : ∀ row ∈ db.brokerQueue, row.invocationId = x → db.isObsolete row = false := by
      intro row hrow hx
      cases hsubmitted : db.submissionPublications.lookup x with
      | none =>
          have hrecord : db.statusRecords.lookup x = none := (h.unknown x hsubmitted).1
          rw [Database.isObsolete, Database.statusOf, hx, hrecord]
          rfl
      | some identity =>
          obtain ⟨status, hstep⟩ := h.submitted x (by rw [hsubmitted]; rfl)
          have hstatus : db.statusOf x = some status := hstep.record
          have hqueued : 0 < (db.standing x).queued :=
            List.length_pos_of_mem (List.mem_filter.mpr ⟨hrow, by simpa using hx⟩)
          rw [hstep.queued] at hqueued
          have hdeliverable : Database.deliverable status = true := by
            by_contra hnot
            rw [if_neg hnot] at hqueued
            exact absurd hqueued (Nat.lt_irrefl 0)
          simp [Database.isObsolete, hx, hstatus, hdeliverable]
    have hrows : db.brokerQueue.filter (fun row =>
          !(decide (row.queueName = queue) && db.isObsolete row && decide (row.id ∈ selected)) &&
            decide (row.invocationId = x)) =
        db.brokerQueue.filter fun row => decide (row.invocationId = x) := by
      refine List.filter_congr fun row hrow => ?_
      by_cases hx : row.invocationId = x
      · simp [hkept row hrow hx]
      · simp [hx]
    rw [hrows]
    rfl
  unfold Database.reserve
  split
  · exact h
  · dsimp only
    split
    · exact hcleanup
    · exact hcleanup.frame rfl fun _ => rfl

end Steps

theorem committed_consistent {leaseMs : Nat} {db : Database}
    {log : List (InvocationId × PublicationChange)} (h : Committed leaseMs db log) :
    Consistent db log := by
  induction h with
  | empty =>
      constructor
      · intro id hid
        cases hid
      · exact fun _ _ => ⟨rfl, rfl, rfl⟩
  | @next db log env t _ hadmissible ih =>
      cases t with
      | submit submission =>
          change Consistent (Sqlite.submit env submission db).2 log
          unfold Sqlite.submit
          split
          · exact ih
          · exact ih
          · rename_i committed hbody
            exact ih.submit hbody
      | change id runner requested autoPurge =>
          cases hbody : changeBody env id runner requested autoPurge db with
          | error e =>
              simp only [Transaction.run, Sqlite.change, Transaction.committed?, hbody]
              exact ih
          | ok done =>
              cases done with
              | none =>
                  simp only [Transaction.run, Sqlite.change, Transaction.committed?, hbody]
                  exact ih
              | some done =>
                  simp only [Transaction.run, Sqlite.change, Transaction.committed?, hbody]
                  exact ih.change hadmissible hbody
      | reserve queue task language => exact ih.reserve leaseMs queue task language
      | heartbeat runner => exact ih.frame rfl fun _ => rfl

/-- **Every submitted invocation is in step**, in every committed state of every run: both
copies of its status and its newest history row agree; its history is a path of the status
machine that starts at `registered`; the counter counts its `retry` rows; it has one
delivery while it is `registered`, `retry` or `rerouted` and none otherwise; it has a
result exactly when it reached `success` through `success`, an error exactly when it
reached `failed` through `failure`, and it is the payload of that change. -/
theorem committed_inStep {leaseMs : Nat} {db : Database}
    {log : List (InvocationId × PublicationChange)} (h : Committed leaseMs db log)
    {id : InvocationId} (hid : (db.submissionPublications.lookup id).isSome = true) :
    ∃ status, InStep (db.standing id) (lastChange log id) status :=
  (committed_consistent h).submitted id hid

/-- A list of transactions, executed from the empty database. -/
def runAll (leaseMs : Nat) : List (Env × Transaction) →
    Database × List (InvocationId × PublicationChange)
  | [] => ({}, [])
  | (env, t) :: earlier =>
      let before := runAll leaseMs earlier
      (t.run leaseMs env before.1, (t.committed? env before.1).toList ++ before.2)

theorem committed_runAll (leaseMs : Nat) (ts : List (Env × Transaction))
    (h : ∀ entry ∈ ts, entry.2.IsAdmissible) :
    Committed leaseMs (runAll leaseMs ts).1 (runAll leaseMs ts).2 := by
  induction ts with
  | nil => exact .empty
  | cons entry earlier ih =>
      exact .next entry.1 entry.2 (ih fun e he => h e (List.mem_cons_of_mem _ he))
        (h entry List.mem_cons_self)

/-- Submitted, claimed, run, and completed at the second try: the first transaction stops
after it stored the result.  Newest first. -/
def completedTwice : List (Env × Transaction) :=
  let call := CallDTO.new (fun _ => "") Orchestration.serialTask .empty
  [ ({}, .change ⟨"a"⟩ ⟨"w"⟩ (.success "second") false),
    ({ failpoint := some "complete.payload" }, .change ⟨"a"⟩ ⟨"w"⟩ (.success "first") false),
    ({}, .change ⟨"a"⟩ ⟨"w"⟩ (.status .running) false),
    ({}, .change ⟨"a"⟩ ⟨"w"⟩ (.status .pending) false),
    ({}, .reserve "default" none (some .rust)),
    ({}, .submit ⟨.new 0 ⟨"a"⟩ Orchestration.serialTask call.callId, call, ⟨"client"⟩, false,
      none, ⟨"default", .finite 0⟩⟩) ]

theorem committed_inStep_completedTwice :
    ∃ db log, Committed 60000 db log ∧ db.results.lookup ⟨"a"⟩ = some "second" ∧
      (db.submissionPublications.lookup ⟨"a"⟩).isSome = true ∧
      ∃ status, InStep (db.standing ⟨"a"⟩) (lastChange log ⟨"a"⟩) status := by
  have hadmissible : ∀ entry ∈ completedTwice, entry.2.IsAdmissible := by
    simp [completedTwice, Transaction.IsAdmissible, Admissible]
  have hrun := committed_runAll 60000 completedTwice hadmissible
  have hsubmitted : ((runAll 60000 completedTwice).1.submissionPublications.lookup
      ⟨"a"⟩).isSome = true := by decide +kernel
  exact ⟨_, _, hrun, by decide +kernel, hsubmitted, committed_inStep hrun hsubmitted⟩

end Rustvello.Sqlite
