import Rustvello.Core.Account
import Rustvello.Sqlite.Publication

/-!
# Changes of the SQLite publication, account by account

* `Database.account` — what the tables hold about one invocation;
* `Updates` — a statement touches the account of one invocation only;
* `changeBody_eq` — a transaction without injected faults plans the records and then writes;
* `change_commits` — what it writes is the commit of the planned change under `policy`.
-/

namespace Rustvello.Sqlite

open Proto Rustvello.Core

/-! ## Accounts in the tables -/

def HistoryRow.entry (row : HistoryRow) : HistoryEntry :=
  ⟨row.status, row.runnerId, row.timestamp, row.message⟩

def QueueRow.delivery (row : QueueRow) : Delivery :=
  ⟨row.queueName, row.priority, taskText row.taskId⟩

def Database.account (db : Database) (id : InvocationId) : Account where
  record := db.statusRecords.lookup id
  invocation := db.invocations.lookup id
  history := (db.history.filter fun row => decide (row.invocationId = id)).map HistoryRow.entry
  retries := (db.retries.lookup id).getD 0
  result := db.results.lookup id
  error := db.errors.lookup id
  deliveries := (db.brokerQueue.filter fun row => decide (row.invocationId = id)).map
    QueueRow.delivery
  waiters := {waiter | (waiter, id) ∈ db.waitingFor}
  pairs := {pair | db.ccArgPairs.lookup (id, pair.2) = some pair.1}
  purgeAt := db.autoPurgeSchedule.lookup id

/-- A delivery ends with the status that takes it or that needs it no more, and a routed
change gives the argument pairs back. -/
def policy : Policy where
  ends status := decide (status = .pending) || status.isTerminal
  freesRouted := true

/-- The verdict of a recovery on the present owner. -/
def alive (now : Timestamp) (db : Database) (old : InvocationStatusRecord) :
    PublicationChange → RustvelloResult Bool
  | .recover _ staleAfterSeconds _ =>
      (staleCutoff now staleAfterSeconds).map fun cutoff =>
        decide (cutoff ≤ lastSeen db old old.status)
  | _ => .ok false

/-- The account of one invocation changes, and no heartbeat does. -/
abbrev Updates (id : InvocationId) (f : Account → Account) (db db' : Database) : Prop :=
  Core.Updates Database.account Database.runnerHeartbeats id f db db'

section Statements

variable (id : InvocationId) (db : Database)

theorem updates_updateStatus (record : InvocationStatusRecord) :
    Updates id (fun a => { a with
        record := a.record.map fun _ => record
        invocation := a.invocation.map fun row =>
          { row with status := record.status, updatedAt := record.timestamp } })
      db (db.updateStatus id record) where
  account x := by
    by_cases hx : x = id
    · subst hx
      simp [Database.updateStatus, Database.account, Database.lookup_updateRow]
    · simp [Database.updateStatus, Database.account, Database.lookup_updateRow, hx]
  same := rfl

theorem updates_appendHistory (row : HistoryRow) :
    Updates row.invocationId (fun a => { a with history := a.history ++ [row.entry] })
      db (db.appendHistory row) where
  account x := by
    by_cases hx : x = row.invocationId
    · subst hx
      simp [Database.appendHistory, Database.account]
    · have hne : row.invocationId ≠ x := Ne.symm hx
      simp [Database.appendHistory, Database.account, hx, hne]
  same := rfl

theorem updates_dequeue :
    Updates id (fun a => { a with deliveries := [] }) db (db.dequeue id) where
  account x := by
    by_cases hx : x = id
    · subst hx
      simp [Database.dequeue, Database.deleteQueueRows, Database.account, List.filter_filter]
    · have hrows : db.brokerQueue.filter (fun row =>
          decide (row.invocationId = x) && !decide (row.invocationId = id)) =
          db.brokerQueue.filter fun row => decide (row.invocationId = x) := by
        apply List.filter_congr
        intro row _
        by_cases hrow : row.invocationId = x
        · simp [hrow, hx]
        · simp [hrow]
      simp [Database.dequeue, Database.deleteQueueRows, Database.account, List.filter_filter, hx,
        hrows]
  same := rfl

theorem updates_insertQueueRow (taskId : Option TaskId) (queueName : String) (priority : F64) :
    Updates id
      (fun a => { a with
        deliveries := a.deliveries ++ [⟨queueName, priority, taskText taskId⟩] })
      db (db.insertQueueRow id taskId queueName priority) where
  account x := by
    by_cases hx : x = id
    · subst hx
      simp [Database.insertQueueRow, Database.account, QueueRow.delivery]
    · have hne : id ≠ x := Ne.symm hx
      simp [Database.insertQueueRow, Database.account, hx, hne]
  same := rfl

/-- Rows that are deleted one by one. -/
theorem lookup_foldl_erase {K V : Type} [DecidableEq K] (keys : List K) (table : Table K V)
    (key : K) :
    (keys.foldl (fun table key => table.erase key) table).lookup key =
      if key ∈ keys then none else table.lookup key := by
  induction keys generalizing table with
  | nil => simp
  | cons first rest ih =>
      rw [List.foldl_cons, ih]
      by_cases hkey : key = first
      · subst hkey
        simp
      · simp [hkey, AList.lookup_erase_ne hkey]

theorem updates_deleteCcArgPairs :
    Updates id (fun a => { a with pairs := ∅ }) db (db.deleteCcArgPairs id) where
  account x := by
    have hpairs : ∀ pair : TaskId × String × String,
        (db.deleteCcArgPairs id).ccArgPairs.lookup (x, pair.2) =
          if x = id then none else db.ccArgPairs.lookup (x, pair.2) := by
      intro pair
      simp only [Database.deleteCcArgPairs]
      rw [lookup_foldl_erase]
      by_cases hx : x = id
      · subst hx
        by_cases hmem : (x, pair.2) ∈ db.ccArgPairs.keys
        · simp [hmem]
        · have hnone : db.ccArgPairs.lookup (x, pair.2) = none :=
            AList.lookup_eq_none.mpr hmem
          simp [hnone]
      · simp [hx]
    by_cases hx : x = id
    · have hempty : {pair : TaskId × String × String |
          (db.deleteCcArgPairs id).ccArgPairs.lookup (x, pair.2) = some pair.1} = ∅ := by
        simp [hpairs, hx]
      rw [if_pos hx]
      unfold Database.account
      rw [hempty]
      rfl
    · simp only [Database.account, hpairs, if_neg hx]
      rfl
  same := rfl

end Statements

/-! ## The transaction -/

/-- The writes of one transition. -/
def moved (db : Database) (id : InvocationId) (runner : RunnerId)
    (record : InvocationStatusRecord) : Database :=
  let db := (db.updateStatus id record).appendHistory (historyRow id record runner)
  if record.status = .pending ∨ record.status.isTerminal = true then db.dequeue id else db

/-- The writes of all transitions of a change. -/
def movedThrough (db : Database) (id : InvocationId) (runner : RunnerId) (moves : Moves) :
    Database :=
  moved ((moves.first.map (moved db id runner)).getD db) id runner moves.final

section Transaction

variable {env : Env} {db db' : Database} {id : InvocationId} {runner : RunnerId}
  {old record : InvocationStatusRecord} {status : InvocationStatus} {moves : Moves}
  {change : PublicationChange} {autoPurge : Bool}

theorem point_of_none (hfault : env.failpoint = none) (change : PublicationChange)
    (stage : String) : point env change stage = .ok () := by
  simp [point, boundary, hfault]

theorem transition_eq :
    transition env db id runner old status =
      (moveTo env.clock id runner old status).map fun record => (record, moved db id runner record) := by
  unfold transition moveTo
  cases hnext : statusRecordTransition env.clock (some old) status (some runner) with
  | error e => rfl
  | ok record =>
      have hstatus : record.status = status := by
        obtain ⟨-, -, rfl⟩ := (statusRecordTransition_ok_iff _ _ _ _ _).mp hnext
        rfl
      simp [moved, hstatus, Except.map]

/-- The words of the SQLite publication. -/
def ownerReason : String := "completion payload requires current Running ownership"

/-- The writes that follow the status. -/
def settle (env : Env) (db : Database) (id : InvocationId) (final : InvocationStatusRecord)
    (change : PublicationChange) (autoPurge : Bool) :
    RustvelloResult (Option (InvocationStatusRecord × Database)) := do
  let db ← writePayload env db id change
  let db ← writeRoute env db id change
  let db ← writeTerminal env db id final change autoPurge
  pure (some (final, db))

theorem completeChange_eq (hfault : env.failpoint = none) :
    (do
      let done ← completeChange env db id runner old change autoPurge
      pure (some done)) =
      (do
        requireOwner id runner ownerReason old change
        let final ← moveTo env.clock id runner old (targetOf change)
        settle env (moved db id runner final) id final change autoPurge) := by
  have hcheck : checkPayload id runner old change =
      requireOwner id runner ownerReason old change := rfl
  unfold completeChange
  rw [hcheck, transition_eq]
  simp only [point_of_none hfault, settle]
  cases requireOwner id runner ownerReason old change with
  | error e => rfl
  | ok _ =>
      cases moveTo env.clock id runner old (targetOf change) with
      | error e => rfl
      | ok final =>
          simp only [bind, Except.bind, Except.map, pure, Except.pure]
          cases writePayload env (moved db id runner final) id change with
          | error e => rfl
          | ok paid =>
              dsimp only
              cases writeRoute env paid id change with
              | error e => rfl
              | ok routed =>
                  dsimp only
                  cases writeTerminal env routed id final change autoPurge <;> rfl

/-- The first of two transitions, then the rest from the record it leaves. -/
theorem prepared_twice_eq (hfault : env.failpoint = none) (stage : String)
    (status : InvocationStatus) (hpayload : hasPayload change = false)
    (htarget : targetOf change = .rerouted) :
    (do
      match ← (do
        let first ← transition env db id runner old status
        point env change stage
        pure (some first) : RustvelloResult (Option (InvocationStatusRecord × Database))) with
      | none => pure none
      | some (old, db) => do
          let done ← completeChange env db id runner old change autoPurge
          pure (some done)) =
    (do
      match ← (do
        let moves ← moveTwice env.clock id runner old status
        pure (some moves) : RustvelloResult (Option Moves)) with
      | none => pure none
      | some moves =>
          settle env (movedThrough db id runner moves) id moves.final change autoPurge) := by
  have howner : ∀ record, requireOwner id runner ownerReason record change = .ok () := by
    intro record
    simp [requireOwner, hpayload]
  rw [transition_eq, point_of_none hfault]
  unfold moveTwice
  cases moveTo env.clock id runner old status with
  | error e => rfl
  | ok first =>
      have hrest : (do
          let done ← completeChange env (moved db id runner first) id runner first change
            autoPurge
          pure (some done)) = _ := completeChange_eq hfault
      rw [howner, htarget] at hrest
      refine hrest.trans ?_
      show _ = ((do
        let moves ← (do
          let final ← moveTo env.clock id runner first .rerouted
          pure ⟨some first, final⟩ : RustvelloResult Moves)
        pure (some moves) : RustvelloResult (Option Moves)) >>= _)
      cases moveTo env.clock id runner first .rerouted with
      | error e => rfl
      | ok final => rfl

/-- **A transaction plans and then writes.** -/
theorem changeBody_eq (hfault : env.failpoint = none) (hold : db.statusRecords.lookup id = some old) :
    changeBody env id runner change autoPurge db =
      (do
        match ← plan env.clock id runner ownerReason (alive env.clock db old change) old change with
        | none => pure none
        | some moves =>
            settle env (movedThrough db id runner moves) id moves.final change autoPurge) := by
  have hcurrent : current db id = .ok old := by simp [current, hold]
  have hone : (do
        let done ← completeChange env db id runner old change autoPurge
        pure (some done)) =
      (do
        match ← planOnce env.clock id runner ownerReason old change with
        | none => pure none
        | some moves =>
            settle env (movedThrough db id runner moves) id moves.final change autoPurge) := by
    rw [completeChange_eq hfault]
    unfold planOnce
    cases requireOwner id runner ownerReason old change with
    | error e => rfl
    | ok _ =>
        cases moveTo env.clock id runner old (targetOf change) with
        | error e => rfl
        | ok final => rfl
  unfold changeBody
  rw [point_of_none hfault, hcurrent]
  show (prepare env db id runner old change >>= _) = _
  cases change with
  | status s => exact hone
  | retry route => exact hone
  | delayedRetry route delayMs => exact hone
  | reroute route => exact hone
  | success result => exact hone
  | failure error => exact hone
  | concurrencyReroute route => exact prepared_twice_eq hfault _ _ rfl rfl
  | recover s stale route =>
      simp only [prepare, plan, alive]
      cases htaken : takenOverFrom s with
      | none => rfl
      | some expected =>
          by_cases hstatus : old.status ≠ expected
          · simp only [if_pos hstatus]
            rfl
          · simp only [if_neg hstatus]
            have hexpected : old.status = expected := not_not.mp hstatus
            subst hexpected
            cases staleCutoff env.clock stale with
            | error e => rfl
            | ok cutoff =>
                have hok : ∀ {α β : Type} (a : α) (f : α → RustvelloResult β),
                    (Except.ok a >>= f) = f a := fun _ _ => rfl
                simp only [Except.map, hok]
                by_cases hseen : cutoff ≤ lastSeen db old old.status
                · simp only [if_pos hseen, decide_eq_true hseen, if_true]
                  rfl
                · simp only [if_neg hseen, decide_eq_false hseen, Bool.false_eq_true, if_false]
                  exact prepared_twice_eq hfault "recovery_status" s rfl rfl

/-! ## What it writes -/

/-- One transition. -/
def transit (runner : RunnerId) (record : InvocationStatusRecord) (a : Account) : Account :=
  { a with
    record := a.record.map fun _ => record
    invocation := a.invocation.map fun row =>
      { row with status := record.status, updatedAt := record.timestamp }
    history := a.history ++ [Account.entry runner record]
    deliveries := if policy.ends record.status then [] else a.deliveries }

/-- Retry counter, result and error. -/
def pay (change : PublicationChange) (a : Account) : Account :=
  { a with
    retries := a.attempts change
    result := (a.payload change).1
    error := (a.payload change).2 }

/-- A new delivery, and no argument pairs. -/
def reroute (change : PublicationChange) (a : Account) : Account :=
  match routeOf change with
  | none => a
  | some route =>
      { a with
        deliveries :=
          [⟨route.queue, route.priority, taskText (a.invocation.map InvocationDTO.taskId)⟩]
        pairs := ∅ }

theorem updates_moved (db : Database) (id : InvocationId) (runner : RunnerId)
    (record : InvocationStatusRecord) :
    Updates id (transit runner record) db (moved db id runner record) := by
  have hwritten := (updates_updateStatus id db record).trans
    (updates_appendHistory (db.updateStatus id record) (historyRow id record runner))
  unfold moved
  dsimp only
  split
  · rename_i hends
    have hpolicy : policy.ends record.status = true := by simpa [policy] using hends
    apply (hwritten.trans (updates_dequeue id _)).congr
    simp [transit, hpolicy, HistoryRow.entry, historyRow, Account.entry]
  · rename_i hkeeps
    have hpolicy : policy.ends record.status = false := by simpa [policy] using hkeeps
    apply hwritten.congr
    simp [transit, hpolicy, HistoryRow.entry, historyRow, Account.entry]

theorem updates_writePayload (hfault : env.failpoint = none) (db : Database) (id : InvocationId)
    (change : PublicationChange) :
    ∃ db', writePayload env db id change = .ok db' ∧ Updates id (pay change) db db' := by
  have hnone : (∀ a : Account, pay change a = a) → Updates id (pay change) db db :=
    fun hpay => (Core.Updates.refl _ _ id db).congr (hpay _).symm
  cases change with
  | status s => exact ⟨db, rfl, hnone fun _ => rfl⟩
  | reroute route => exact ⟨db, rfl, hnone fun _ => rfl⟩
  | concurrencyReroute route => exact ⟨db, rfl, hnone fun _ => rfl⟩
  | recover s stale route => exact ⟨db, rfl, hnone fun _ => rfl⟩
  | _ =>
      -- a row of the retry counts, the results or the exceptions
      simp only [writePayload, point_of_none hfault]
      refine ⟨_, rfl, fun x => ?_, rfl⟩
      by_cases hx : x = id
      · subst hx
        simp [Database.account, pay, Account.payload, Account.attempts]
      · simp [Database.account, AList.lookup_insert_ne hx, hx]

/-- Leases are no part of an account. -/
theorem updates_deferDelivery (env : Env) (db : Database) (id : InvocationId)
    (change : PublicationChange) :
    Updates id (fun a => a) db (deferDelivery env db id change) := by
  have hdelay : ∀ delayMs, Updates id (fun a => a) db (delayDelivery env db id delayMs) := by
    intro delayMs
    unfold delayDelivery
    generalize db.brokerQueue.filter (fun row => row.invocationId = id) = rows
    induction rows generalizing db with
    | nil => exact Core.Updates.refl _ _ id db
    | cons row rest ih =>
        have hlease : Updates id (fun a => a) db (db.lease row.id (notBeforeMs env.clock delayMs)) :=
          ⟨fun x => by rw [ite_self]; rfl, rfl⟩
        exact hlease.trans (ih _)
  unfold deferDelivery
  split
  · exact hdelay _
  · exact Core.Updates.refl _ _ id db

theorem updates_writeRoute (hfault : env.failpoint = none)
    (hroute : ∀ route, routeOf change = some route →
      validateRoute route = .ok () ∧ (db.invocations.lookup id).isSome) :
    ∃ db', writeRoute env db id change = .ok db' ∧ Updates id (reroute change) db db' := by
  unfold writeRoute
  cases hrouted : routeOf change with
  | none =>
      refine ⟨db, rfl, (Core.Updates.refl _ _ id db).congr ?_⟩
      simp [reroute, hrouted]
  | some route =>
      obtain ⟨hvalid, hstored⟩ := hroute route hrouted
      obtain ⟨row, hrow⟩ := Option.isSome_iff_exists.mp hstored
      simp only [hrow, publish, hvalid, point_of_none hfault]
      refine ⟨_, rfl, ?_⟩
      have hdone := (((updates_dequeue id db).trans (updates_insertQueueRow id _ (some row.taskId)
        route.queue route.priority)).trans (updates_deferDelivery env _ id change)).trans
        (updates_deleteCcArgPairs id _)
      apply hdone.congr
      have htask : (db.account id).invocation = some row := hrow
      simp [reroute, hrouted, htask]

theorem updates_writeTerminal (hfault : env.failpoint = none) (db : Database) (id : InvocationId)
    (autoPurge : Bool) (hfinal : record.status = targetOf change) :
    ∃ db', writeTerminal env db id record change autoPurge = .ok db' ∧
      Updates id (Account.finish record autoPurge) db db' := by
  have hwaiters : ∀ db : Database, Updates id (fun a => { a with waiters := ∅ }) db
      { db with waitingFor := db.waitingFor.filter fun pair => pair.2 ≠ id } := by
    intro db
    refine ⟨fun x => ?_, rfl⟩
    by_cases hx : x = id
    · simp [Database.account, hx]
    · simp [Database.account, hx]
  have hpurge : ∀ (db : Database) (time : Timestamp),
      Updates id (fun a => { a with purgeAt := some time }) db
        { db with autoPurgeSchedule := db.autoPurgeSchedule.insert id time } := by
    intro db time
    refine ⟨fun x => ?_, rfl⟩
    by_cases hx : x = id
    · subst hx
      simp [Database.account]
    · simp [Database.account, AList.lookup_insert_ne hx, hx]
  have hfreed := (hwaiters db).trans (updates_deleteCcArgPairs id _)
  unfold writeTerminal
  rw [← hfinal]
  cases hterminal : record.status.isTerminal with
  | false =>
      refine ⟨db, rfl, (Core.Updates.refl _ _ id db).congr ?_⟩
      simp [Account.finish, hterminal]
  | true =>
      simp only [point_of_none hfault, if_true]
      refine ⟨_, rfl, ?_⟩
      cases autoPurge with
      | false =>
          apply hfreed.congr
          simp [Account.finish, hterminal]
      | true =>
          apply (hfreed.trans (hpurge _ record.timestamp)).congr
          simp [Account.finish, hterminal]

@[simp] theorem payload_transit (a : Account) :
    (transit runner record a).payload change = a.payload change := by
  cases change <;> rfl

@[simp] theorem attempts_transit (a : Account) :
    (transit runner record a).attempts change = a.attempts change := by
  cases change <;> rfl

/-- The parts of a transaction make up the commit. -/
theorem commit_eq (a : Account) (hrecord : a.record = some old)
    (hfirst : routeOf change = none → moves.first = none) :
    Account.finish moves.final autoPurge (reroute change (pay change (transit runner moves.final
      ((moves.first.map fun first => transit runner first a).getD a)))) =
      a.commit policy runner moves change autoPurge := by
  obtain ⟨first, final⟩ := moves
  simp only [pay, payload_transit, attempts_transit]
  cases hroute : routeOf change with
  | none =>
      obtain rfl : first = none := hfirst hroute
      cases hterminal : final.status.isTerminal <;>
        simp [Account.finish, reroute, transit, Account.commit, Account.redeliver, Moves.records,
          hroute, hterminal, hrecord]
  | some route =>
      -- the new delivery replaces whatever the transitions left
      cases first with
      | none =>
          cases hterminal : final.status.isTerminal <;>
            simp [Account.finish, reroute, transit, Account.commit, Account.redeliver, Moves.records,
              hroute, hterminal, hrecord, policy, Function.comp_def]
      | some first =>
          simp only [Option.map_some, Option.getD_some, payload_transit, attempts_transit]
          cases hterminal : final.status.isTerminal <;>
            simp [Account.finish, reroute, transit, Account.commit, Account.redeliver, Moves.records,
              hroute, hterminal, hrecord, policy, Function.comp_def]

/-- The transitions and the payload are written whatever follows. -/
theorem updates_paid (hfault : env.failpoint = none) (db : Database) (id : InvocationId)
    (runner : RunnerId) (moves : Moves) (change : PublicationChange) :
    ∃ paid, writePayload env (movedThrough db id runner moves) id change = .ok paid ∧
      Updates id (fun a => pay change (transit runner moves.final
        ((moves.first.map fun first => transit runner first a).getD a))) db paid ∧
      (paid.invocations.lookup id).isSome = (db.invocations.lookup id).isSome := by
  have hmoved : Updates id (fun a => transit runner moves.final
      ((moves.first.map fun first => transit runner first a).getD a)) db
      (movedThrough db id runner moves) := by
    cases hfirst : moves.first with
    | none =>
        have hfinal := updates_moved db id runner moves.final
        simpa [movedThrough, hfirst] using hfinal
    | some first =>
        have hboth := (updates_moved db id runner first).trans
          (updates_moved _ id runner moves.final)
        simpa [movedThrough, hfirst] using hboth
  obtain ⟨paid, hpaid, hpay⟩ := updates_writePayload hfault (movedThrough db id runner moves) id
    change
  refine ⟨paid, hpaid, hmoved.trans hpay, ?_⟩
  show (paid.account id).invocation.isSome = (db.account id).invocation.isSome
  rw [(hmoved.trans hpay).account, if_pos rfl]
  cases moves.first with
  | none => simp [pay, transit]
  | some first => simp [pay, transit]

/-- **What a transaction without faults commits.** -/
theorem change_commits (hfault : env.failpoint = none)
    (hold : db.statusRecords.lookup id = some old)
    (hplan : plan env.clock id runner ownerReason (alive env.clock db old change) old change =
      .ok (some moves))
    (hroute : ∀ route, routeOf change = some route →
      validateRoute route = .ok () ∧ (db.invocations.lookup id).isSome) :
    ∃ db', Sqlite.change env id runner change autoPurge db = (.ok (some moves.final), db') ∧
      Updates id (fun a => a.commit policy runner moves change autoPurge) db db' := by
  obtain ⟨paid, hpaid, hpay, hsome⟩ := updates_paid hfault db id runner moves change
  have hstored : ∀ route, routeOf change = some route →
      validateRoute route = .ok () ∧ (paid.invocations.lookup id).isSome := by
    intro route hrouted
    obtain ⟨hvalid, hstored⟩ := hroute route hrouted
    exact ⟨hvalid, hsome.trans hstored⟩
  obtain ⟨routed, hrouted, hreroute⟩ := updates_writeRoute hfault hstored
  obtain ⟨ended, hended, hfinish⟩ := updates_writeTerminal hfault routed id autoPurge (plan_final hplan)
  refine ⟨ended, ?_, ?_⟩
  · have hbody : changeBody env id runner change autoPurge db = .ok (some (moves.final, ended)) := by
      rw [changeBody_eq hfault hold, hplan]
      show settle env (movedThrough db id runner moves) id moves.final change autoPurge = _
      simp only [settle, hpaid, hrouted, hended, bind, Except.bind, pure, Except.pure]
    unfold Sqlite.change
    rw [hbody]
    simp only [point_of_none hfault]
    rfl
  · apply ((hpay.trans hreroute).trans hfinish).congr
    exact commit_eq (db.account id) hold fun hnone => plan_first hplan hnone

/-- A plan that fails is the answer. -/
theorem change_refuses {e : RustvelloError} (hfault : env.failpoint = none)
    (hold : db.statusRecords.lookup id = some old)
    (hplan : plan env.clock id runner ownerReason (alive env.clock db old change) old change =
      .error e) :
    Sqlite.change env id runner change autoPurge db = (.error e, db) := by
  unfold Sqlite.change
  rw [changeBody_eq hfault hold, hplan]
  rfl

/-- Nothing to recover. -/
theorem change_passes (hfault : env.failpoint = none)
    (hold : db.statusRecords.lookup id = some old)
    (hplan : plan env.clock id runner ownerReason (alive env.clock db old change) old change =
      .ok none) :
    Sqlite.change env id runner change autoPurge db = (.ok none, db) := by
  unfold Sqlite.change
  rw [changeBody_eq hfault hold, hplan]
  rfl

/-- An invocation that is not stored cannot be queued again. -/
theorem change_unstored {route : PublicationRoute} (hfault : env.failpoint = none)
    (hold : db.statusRecords.lookup id = some old)
    (hplan : plan env.clock id runner ownerReason (alive env.clock db old change) old change =
      .ok (some moves))
    (hroute : routeOf change = some route) (hstored : db.invocations.lookup id = none) :
    Sqlite.change env id runner change autoPurge db =
      (.error (sqlError "Query returned no rows"), db) := by
  obtain ⟨paid, hpaid, -, hsome⟩ := updates_paid hfault db id runner moves change
  have hnone : paid.invocations.lookup id = none := by
    rw [hstored] at hsome
    simpa using hsome
  have hrouted : writeRoute env paid id change = .error (sqlError "Query returned no rows") := by
    simp [writeRoute, hroute, hnone]
  have hbody : changeBody env id runner change autoPurge db =
      .error (sqlError "Query returned no rows") := by
    rw [changeBody_eq hfault hold, hplan]
    show settle env (movedThrough db id runner moves) id moves.final change autoPurge = _
    simp only [settle, hpaid, hrouted, bind, Except.bind]
  unfold Sqlite.change
  rw [hbody]

theorem change_unknown (hfault : env.failpoint = none)
    (hold : db.statusRecords.lookup id = none) :
    Sqlite.change env id runner change autoPurge db = (.error (.invocationNotFound id), db) := by
  have hcurrent : current db id = .error (.invocationNotFound id) := by simp [current, hold]
  unfold Sqlite.change changeBody
  rw [point_of_none hfault, hcurrent]
  rfl

end Transaction

end Rustvello.Sqlite
